import ClassfileTypes.Proofs.Construction
import ClassfileTypes.Proofs.Rules

/-!
# Reading refines its plain version

A rule of the grammar fails in the same place with a pool and without, or leaves
the same text and gives the same tree. The rules for signatures call each other,
and so do the theorems, with the same measure.
-/

namespace ClassfileTypes

namespace Pool

open Grammar TypeTree

variable {canonical : Prop} {p : Pool} {f : Form} {n : Nat}

/-- The same tree was read, and the same text is left. -/
structure ReadTagged (canonical : Prop) (p : Pool) (x : Read (TypeTree Nat f) n)
    (y : Read (TypeTree Unit f) n) : Prop where
  value : Tagged canonical p x.value y.value
  rest : x.rest = y.rest

instance : Lasting (ReadTagged canonical (f := f) (n := n)) where
  congr hnext hregistry h := ⟨Lasting.congr (R := Tagged canonical) hnext hregistry h.value, h.rest⟩

theorem Refines.build {α β : Type} {R : Pool → α → β → Prop} {x : ExceptT TypeError PoolM α}
    {y : ExceptT TypeError Id β} (rest : List Char) (extent : Nat)
    (h : Refines canonical R p x y) :
    Refines canonical R p (Grammar.build rest extent x) (Grammar.build rest extent y) :=
  Refines.adapt _ h

theorem refines_nameUntilEnd {make : String → ExceptT TypeError PoolM (TypeTree Nat f)}
    {make' : String → ExceptT TypeError Id (TypeTree Unit f)}
    (hmake : ∀ n, Refines canonical (Tagged canonical) p (make n) (make' n)) (s : List Char) :
    Refines canonical (ReadTagged canonical) p (nameUntilEnd make s) (nameUntilEnd make' s) := by
  rcases since_eq [';'] s with h | ⟨c, r, h, hc⟩
  · rw [nameUntilEnd_of_end h, nameUntilEnd_of_end h]
    exact Refines.throw
  · obtain rfl := List.mem_singleton.mp hc
    rw [nameUntilEnd_of_since h, nameUntilEnd_of_since h]
    apply Refines.bind (Refines.build _ _ (hmake _))
    intro q x x' _ hx _
    exact Refines.pure ⟨hx, rfl⟩

/-- A rule refines its plain version on all texts up to a length. -/
theorem refines_entriesUntil (p : Pool) (close : Char)
    {entry : (s : List Char) → Reading PoolM (TypeTree Nat f) s.length}
    {entry' : (s : List Char) → Reading Id (TypeTree Unit f) s.length} (s : List Char)
    (hentry : ∀ (s' : List Char) (q : Pool), s'.length ≤ s.length →
      Refines canonical (ReadTagged canonical) q (entry s') (entry' s')) :
    Refines canonical (ReadTagged canonical) p (entriesUntil close entry s)
      (entriesUntil close entry' s) := by
  match s with
  | [] =>
      rw [entriesUntil, entriesUntil]
      exact Refines.throw
  | c :: r =>
      rw [entriesUntil, entriesUntil]
      split_ifs with hc
      · exact Refines.pure ⟨.nil, rfl⟩
      · apply Refines.bind (hentry (c :: r) p (Nat.le_refl _))
        rintro q ⟨x, r₁, h₁⟩ ⟨x', r₁', h₁'⟩ hext ⟨hx, hrest⟩ -
        obtain rfl : r₁ = r₁' := hrest
        have hshorter := refines_entriesUntil (q.hold x) close r₁ fun s' q' hs' =>
          hentry s' q' (by omega)
        apply Refines.holding_bind hx hshorter
        rintro q' ⟨xs, r₂, h₂⟩ ⟨xs', r₂', h₂'⟩ - hx ⟨hxs, hrest⟩
        obtain rfl : r₂ = r₂' := hrest
        exact Refines.pure ⟨.cons hx hxs, rfl⟩
termination_by s.length
decreasing_by exact h₁

theorem refines_someEntriesUntil (close : Char)
    {entry : (s : List Char) → Reading PoolM (TypeTree Nat f) s.length}
    {entry' : (s : List Char) → Reading Id (TypeTree Unit f) s.length}
    (hentry : ∀ (s : List Char) (q : Pool),
      Refines canonical (ReadTagged canonical) q (entry s) (entry' s)) (s : List Char) :
    Refines canonical (ReadTagged canonical) p (someEntriesUntil close entry s)
      (someEntriesUntil close entry' s) := by
  unfold someEntriesUntil
  apply Refines.bind (hentry s p)
  rintro q ⟨x, r₁, h₁⟩ ⟨x', r₁', h₁'⟩ hext ⟨hx, hrest⟩ -
  obtain rfl : r₁ = r₁' := hrest
  have hentries := refines_entriesUntil (q.hold x) close r₁ fun s' q' _ => hentry s' q'
  apply Refines.holding_bind hx hentries
  rintro q' ⟨xs, r₂, h₂⟩ ⟨xs', r₂', h₂'⟩ - hx ⟨hxs, hrest⟩
  obtain rfl : r₂ = r₂' := hrest
  exact Refines.pure ⟨.cons hx hxs, rfl⟩

/-- What is read stands for another form, and one more character was read. -/
theorem ReadTagged.wrap {g : Form} {x : Read (TypeTree Nat f) n} {y : Read (TypeTree Unit f) n}
    (h : ReadTagged canonical p x y) {w : TypeTree Nat f → TypeTree Nat g}
    {w' : TypeTree Unit f → TypeTree Unit g}
    (hw : Tagged canonical p x.value y.value → Tagged canonical p (w x.value) (w' y.value)) :
    ReadTagged canonical p (x.map w) (y.map w') :=
  ⟨hw h.value, h.rest⟩

theorem ReadTagged.after {x : Read (TypeTree Nat f) n} {y : Read (TypeTree Unit f) n}
    (h : ReadTagged canonical p x y) : ReadTagged canonical p x.after y.after :=
  ⟨h.value, h.rest⟩

/-! ## Descriptors -/

theorem refines_classDescriptorName (s : List Char) :
    Refines canonical (ReadTagged canonical) p (classDescriptorName s) (classDescriptorName s) :=
  refines_nameUntilEnd refines_makeClassDescriptor s

theorem refines_classDescriptor (s : List Char) :
    Refines canonical (ReadTagged canonical) p (Grammar.classDescriptor s)
      (Grammar.classDescriptor s) := by
  unfold Grammar.classDescriptor
  split
  · apply Refines.bind (refines_classDescriptorName _)
    intro q x x' _ hx _
    exact Refines.pure hx.after
  · exact Refines.throw

theorem refines_valueDescriptor (p : Pool) (e : Expected) (s : List Char) :
    Refines canonical (ReadTagged canonical) p (valueDescriptor e s) (valueDescriptor e s) := by
  rw [valueDescriptor.eq_def (m := PoolM), valueDescriptor.eq_def (m := Id)]
  split
  · exact Refines.throw
  · apply Refines.bind (refines_classDescriptorName _)
    intro q x x' _ hx _
    exact Refines.pure (hx.wrap Tagged.descClass).after
  · rename_i r
    have hshorter : (sinceDimensions r).length < ('[' :: r).length :=
      Nat.lt_succ_of_le (length_sinceDimensions_le r)
    apply Refines.bind (refines_valueDescriptor p .valueType (sinceDimensions r))
    rintro q ⟨b, r₁, h₁⟩ ⟨b', r₁', h₁'⟩ hext ⟨hb, hrest⟩ -
    obtain rfl : r₁ = r₁' := hrest
    apply Refines.bind (Refines.build _ _ (refines_makeArrayDescriptor _ hb))
    intro q a a' _ ha _
    exact Refines.pure ⟨ha.descArray, rfl⟩
  · split
    · exact Refines.pure ⟨.leaf rfl rfl trivial rfl, rfl⟩
    · exact Refines.throw
termination_by s.length
decreasing_by
  subst_vars
  exact hshorter

theorem refines_typeDescriptor (s : List Char) :
    Refines canonical (ReadTagged canonical) p (Grammar.typeDescriptor s)
      (Grammar.typeDescriptor s) := by
  unfold Grammar.typeDescriptor
  split
  · exact Refines.pure ⟨.leaf rfl rfl trivial rfl, rfl⟩
  · exact refines_valueDescriptor p _ _

theorem refines_methodDescriptor (s : List Char) :
    Refines canonical (ReadTagged canonical) p (Grammar.methodDescriptor s)
      (Grammar.methodDescriptor s) := by
  unfold Grammar.methodDescriptor
  split
  · rename_i r
    apply Refines.bind
      (refines_entriesUntil p ')' r fun s' q _ => refines_valueDescriptor q .valueType s')
    rintro q ⟨ps, r₁, h₁⟩ ⟨ps', r₁', h₁'⟩ hext ⟨hps, hrest⟩ -
    obtain rfl : r₁ = r₁' := hrest
    apply Refines.holding_bind hps (refines_typeDescriptor r₁)
    rintro q' ⟨t, r₂, h₂⟩ ⟨t', r₂', h₂'⟩ - hps ⟨ht, hrest⟩
    obtain rfl : r₂ = r₂' := hrest
    apply Refines.bind (Refines.build _ _ (refines_makeMethodDescriptor hps ht))
    intro q'' d d' _ hd _
    exact Refines.pure ⟨hd, rfl⟩
  · exact Refines.throw

/-! ## Signatures -/

theorem refines_variableName (s : List Char) :
    Refines canonical (ReadTagged canonical) p (variableName s) (variableName s) :=
  refines_nameUntilEnd refines_makeFreeVariable s

mutual

theorem refines_value (p : Pool) (e : Expected) (s : List Char) :
    Refines canonical (ReadTagged canonical) p (value e s) (value e s) := by
  match s with
  | [] =>
      rw [value, value]
      exact Refines.throw
  | c :: r =>
      rw [value, value]
      cases Primitive.ofCode? c with
      | some k => exact Refines.pure ⟨.leaf rfl rfl trivial rfl, rfl⟩
      | none =>
          show Refines canonical _ p (if c = 'L' ∨ c = '[' ∨ c = 'T' then _ else _)
            (if c = 'L' ∨ c = '[' ∨ c = 'T' then _ else _)
          split_ifs with hc
          · apply Refines.bind (refines_reference p (c :: r))
            intro q t t' _ ht _
            exact Refines.pure (ht.wrap Tagged.sigReference)
          · exact Refines.throw
termination_by (s.length, 2)

theorem refines_reference (p : Pool) (s : List Char) :
    Refines canonical (ReadTagged canonical) p (reference s) (reference s) := by
  rw [reference.eq_def (m := PoolM), reference.eq_def (m := Id)]
  split
  · rename_i r
    have hshorter : r.length < ('L' :: r).length := Nat.lt_succ_self _
    apply Refines.bind (refines_segments p .topLevel .topLevel (.leaf rfl rfl trivial rfl) r)
    intro q c c' _ hc _
    exact Refines.pure (hc.wrap Tagged.refClass).after
  · rename_i r
    have hshorter : (sinceDimensions r).length < ('[' :: r).length :=
      Nat.lt_succ_of_le (length_sinceDimensions_le r)
    apply Refines.bind (refines_value p .valueType (sinceDimensions r))
    rintro q ⟨b, r₁, h₁⟩ ⟨b', r₁', h₁'⟩ hext ⟨hb, hrest⟩ -
    obtain rfl : r₁ = r₁' := hrest
    apply Refines.bind (Refines.build _ _ (refines_makeArrayType _ hb))
    intro q a a' _ ha _
    exact Refines.pure ⟨ha.refArray, rfl⟩
  · apply Refines.bind (refines_variableName _)
    intro q v v' _ hv _
    exact Refines.pure (hv.wrap Tagged.refVariable).after
  · exact Refines.throw
termination_by (s.length, 1)
decreasing_by all_goals subst_vars; exact Prod.Lex.left _ _ hshorter

theorem refines_segments (p : Pool) (o : TypeTree Nat .enclosing) (o' : TypeTree Unit .enclosing)
    (ho : Tagged canonical p o o') (s : List Char) :
    Refines canonical (ReadTagged canonical) p (segments o s) (segments o' s) := by
  have hle := length_since_le ['<', '.', ';'] s
  rw [segments, segments]
  split_ifs with hempty
  · exact Refines.throw
  · apply Refines.holding_bind ho (refines_optionalArguments (p.hold o) _)
    rintro q ⟨as, r₁, h₁⟩ ⟨as', r₁', h₁'⟩ - ho ⟨has, hrest⟩
    obtain rfl : r₁ = r₁' := hrest
    apply Refines.bind (Refines.build _ _ (refines_makeClassType _ (o := o) ho has))
    intro q' c c' hext hc hrun
    dsimp only
    split
    · rename_i r₂
      have hshorter : r₂.length < s.length := by
        rw [List.length_cons] at h₁
        omega
      apply Refines.bind (refines_segments q' (.nestedIn c) (.nestedIn c') hc.nestedIn r₂)
      rintro q'' ⟨d, r₃, h₃⟩ ⟨d', r₃', h₃'⟩ - ⟨hd, hrest⟩ -
      obtain rfl : r₃ = r₃' := hrest
      exact Refines.pure ⟨hd, rfl⟩
    · exact Refines.pure ⟨hc, rfl⟩
    · exact Refines.throw
termination_by (s.length, 1)
decreasing_by
  · exact Prod.Lex.right' _ hle (by omega)
  · exact Prod.Lex.left _ _ hshorter

theorem refines_optionalArguments (p : Pool) (s : List Char) :
    Refines canonical (ReadTagged canonical) p (optionalArguments s) (optionalArguments s) := by
  rw [optionalArguments.eq_def (m := PoolM), optionalArguments.eq_def (m := Id)]
  split
  · exact Refines.throw
  · rename_i r _
    have hshorter : r.length < ('<' :: r).length := Nat.lt_succ_self _
    apply Refines.bind (refines_arguments p r)
    intro q as as' _ has _
    exact Refines.pure has.after.after
  · exact Refines.pure ⟨.nil, rfl⟩
termination_by (s.length, 0)
decreasing_by subst_vars; exact Prod.Lex.left _ _ hshorter

theorem refines_arguments (p : Pool) (s : List Char) :
    Refines canonical (ReadTagged canonical) p (arguments s) (arguments s) := by
  rw [arguments, arguments]
  apply Refines.bind (refines_argument p s)
  rintro q ⟨a, r₁, h₁⟩ ⟨a', r₁', h₁'⟩ - ⟨ha, hrest⟩ -
  obtain rfl : r₁ = r₁' := hrest
  dsimp only
  split
  · exact Refines.throw
  · exact Refines.pure ⟨.cons ha .nil, rfl⟩
  · rename_i c r _
    have hshorter : (c :: r).length < s.length := h₁
    apply Refines.holding_bind ha (refines_arguments (q.hold a) (c :: r))
    rintro q' ⟨as, r₂, h₂⟩ ⟨as', r₂', h₂'⟩ - ha ⟨has, hrest⟩
    obtain rfl : r₂ = r₂' := hrest
    exact Refines.pure ⟨.cons ha has, rfl⟩
termination_by (s.length, 3)
decreasing_by
  · exact Prod.Lex.right _ (by omega)
  · exact Prod.Lex.left _ _ hshorter

theorem refines_argument (p : Pool) (s : List Char) :
    Refines canonical (ReadTagged canonical) p (argument s) (argument s) := by
  rw [argument.eq_def (m := PoolM), argument.eq_def (m := Id)]
  split
  · exact Refines.throw
  · exact Refines.pure ⟨.leaf rfl rfl trivial rfl, rfl⟩
  · rename_i c r _
    have hshorter : r.length < (c :: r).length := Nat.lt_succ_self _
    cases Direction.ofCode? c with
    | some d =>
        apply Refines.bind (refines_reference p r)
        intro q t t' _ ht _
        apply Refines.bind (Refines.lift (runs_boundedArgument d ht.value))
        intro q' b b' _ hb _
        exact Refines.pure ⟨hb.argBounded, ht.rest⟩
    | none =>
        show Refines canonical _ p (if c = 'L' ∨ c = '[' ∨ c = 'T' then _ else _)
          (if c = 'L' ∨ c = '[' ∨ c = 'T' then _ else _)
        split_ifs with hc
        · apply Refines.bind (refines_reference p (c :: r))
          intro q t t' _ ht _
          exact Refines.pure (ht.wrap Tagged.argReference)
        · exact Refines.throw
termination_by (s.length, 2)
decreasing_by
  · subst_vars; exact Prod.Lex.right _ (by omega)
  · subst_vars; exact Prod.Lex.left _ _ hshorter

end

end Pool

end ClassfileTypes
