import ClassfileTypes.Proofs.AcceptingSignatures
import ClassfileTypes.Proofs.Parsing
import ClassfileTypes.Proofs.Sparing

/-!
# Reading registers nothing in vain

Every rule of the grammar makes the parts of a tree, and then the tree of them. No
rule makes a tree that is not part of the outcome: even an array of many dimensions is made at
once, over a base that is not an array. The rules for signatures call each other, and so do
the theorems, with the same measure.
-/

namespace ClassfileTypes

namespace Pool

open Grammar TypeTree

variable {p : Pool} {f : Form} {n : Nat} {needed : List (AnyTree Unit)}

/-- A rule refines its plain version, and spares the pool. -/
abbrev SparesReading (needed : List (AnyTree Unit)) (p : Pool)
    (x : Reading PoolM (TypeTree Nat f) n) (y : Reading Id (TypeTree Unit f) n) : Prop :=
  Spares (ReadTagged True) (fun r => r.value.nodes) needed p x y

theorem spares_nameUntilEnd {make : String → ExceptT TypeError PoolM (TypeTree Nat f)}
    {make' : String → ExceptT TypeError Id (TypeTree Unit f)}
    (hmake : ∀ n, Spares (Tagged True) TypeTree.nodes [] p (make n) (make' n)) (s : List Char) :
    SparesReading [] p (nameUntilEnd make s) (nameUntilEnd make' s) := by
  rcases since_eq [';'] s with h | ⟨c, r, h, hc⟩
  · rw [nameUntilEnd_of_end h, nameUntilEnd_of_end h]
    exact Refines.throw
  · obtain rfl := List.mem_singleton.mp hc
    rw [nameUntilEnd_of_since h, nameUntilEnd_of_since h]
    apply Spares.through (Refines.build _ _ (hmake _))
    intro q x x' _ hx _
    exact Spares.pure ⟨hx, rfl⟩ (List.Subset.refl _)

/-- An entry is held while the others are read, and is in the list with them. -/
theorem spares_cons {k : Nat} {t : TypeTree Nat f} {t' : TypeTree Unit f}
    {x : Reading PoolM (TypeTree Nat (.list f)) k} {y : Reading Id (TypeTree Unit (.list f)) k}
    (ht : Tagged True p t t') (hx : SparesReading [] (p.hold t) x y)
    {h : ∀ ts : Read (TypeTree Nat (.list f)) k, ts.rest.length < n}
    {h' : ∀ ts : Read (TypeTree Unit (.list f)) k, ts.rest.length < n} :
    SparesReading t'.nodes p
      (MonadPool.holding t x >>= fun ts => pure ⟨.cons t ts.value, ts.rest, h ts⟩)
      (MonadPool.holding t' y >>= fun ts => pure ⟨.cons t' ts.value, ts.rest, h' ts⟩) := by
  apply Spares.holding_bind ht hx
  rintro q ⟨ts, r, hr⟩ ⟨ts', r', hr'⟩ - ht ⟨hts, hrest⟩
  obtain rfl : r = r' := hrest
  exact Spares.pure ⟨.cons ht hts, rfl⟩ (List.Subset.refl _)

theorem spares_entriesUntil (p : Pool) (close : Char)
    {entry : (s : List Char) → Reading PoolM (TypeTree Nat f) s.length}
    {entry' : (s : List Char) → Reading Id (TypeTree Unit f) s.length} (s : List Char)
    (hentry : ∀ (s' : List Char) (q : Pool), s'.length ≤ s.length →
      SparesReading [] q (entry s') (entry' s')) :
    SparesReading [] p (entriesUntil close entry s) (entriesUntil close entry' s) := by
  match s with
  | [] =>
      rw [entriesUntil, entriesUntil]
      exact Refines.throw
  | c :: r =>
      rw [entriesUntil, entriesUntil]
      split_ifs with hc
      · exact Spares.pure ⟨.nil, rfl⟩ (List.nil_subset _)
      · apply Spares.through (hentry (c :: r) p (Nat.le_refl _))
        rintro q ⟨x, r₁, h₁⟩ ⟨x', r₁', h₁'⟩ - ⟨hx, hrest⟩ -
        obtain rfl : r₁ = r₁' := hrest
        exact spares_cons hx (spares_entriesUntil (q.hold x) close r₁ fun s' q' hs' =>
          hentry s' q' (by omega))
termination_by s.length
decreasing_by exact h₁

theorem spares_someEntriesUntil (close : Char)
    {entry : (s : List Char) → Reading PoolM (TypeTree Nat f) s.length}
    {entry' : (s : List Char) → Reading Id (TypeTree Unit f) s.length}
    (hentry : ∀ (s : List Char) (q : Pool), SparesReading [] q (entry s) (entry' s))
    (s : List Char) :
    SparesReading [] p (someEntriesUntil close entry s) (someEntriesUntil close entry' s) := by
  unfold someEntriesUntil
  apply Spares.through (hentry s p)
  rintro q ⟨x, r₁, h₁⟩ ⟨x', r₁', h₁'⟩ - ⟨hx, hrest⟩ -
  obtain rfl : r₁ = r₁' := hrest
  exact spares_cons hx (spares_entriesUntil (q.hold x) close r₁ fun s' q' _ => hentry s' q')

/-! ## Descriptors -/

theorem spares_classDescriptorName (s : List Char) :
    SparesReading [] p (classDescriptorName s) (classDescriptorName s) :=
  spares_nameUntilEnd spares_makeClassDescriptor s

theorem spares_classDescriptor (s : List Char) :
    SparesReading [] p (Grammar.classDescriptor s) (Grammar.classDescriptor s) := by
  unfold Grammar.classDescriptor
  split
  · apply Spares.through (spares_classDescriptorName _)
    intro q x x' _ hx _
    exact Spares.pure hx.after (List.Subset.refl _)
  · exact Refines.throw

theorem spares_valueDescriptor (p : Pool) (e : Expected) (s : List Char) :
    SparesReading [] p (valueDescriptor e s) (valueDescriptor e s) := by
  rw [valueDescriptor.eq_def (m := PoolM), valueDescriptor.eq_def (m := Id)]
  split
  · exact Refines.throw
  · apply Spares.through (spares_classDescriptorName _)
    intro q x x' _ hx _
    exact Spares.pure (hx.wrap Tagged.descClass).after (List.Subset.refl _)
  · rename_i r
    have hshorter : (sinceDimensions r).length < ('[' :: r).length :=
      Nat.lt_succ_of_le (length_sinceDimensions_le r)
    apply Spares.through (spares_valueDescriptor p .valueType (sinceDimensions r))
    rintro q ⟨b, r₁, h₁⟩ ⟨b', r₁', h₁'⟩ - ⟨hb, hrest⟩ hrun
    obtain rfl : r₁ = r₁' := hrest
    -- All dimensions have been read before the base.
    obtain ⟨hspells, hvoid⟩ := spells_valueDescriptor ⟨h₁', hrun⟩
    have hbase := isBase_of_spells_descriptor hspells hvoid
    apply Spares.through (Refines.build _ _ (spares_makeArrayDescriptor _ hb hbase))
    intro q a a' _ ha _
    exact Spares.pure ⟨ha.descArray, rfl⟩ (List.Subset.refl _)
  · split
    · exact Spares.pure ⟨.leaf rfl rfl trivial rfl, rfl⟩ (List.nil_subset _)
    · exact Refines.throw
termination_by s.length
decreasing_by
  subst_vars
  exact hshorter

theorem spares_typeDescriptor (s : List Char) :
    SparesReading [] p (Grammar.typeDescriptor s) (Grammar.typeDescriptor s) := by
  unfold Grammar.typeDescriptor
  split
  · exact Spares.pure ⟨.leaf rfl rfl trivial rfl, rfl⟩ (List.nil_subset _)
  · exact spares_valueDescriptor p _ _

theorem spares_methodDescriptor (s : List Char) :
    SparesReading [] p (Grammar.methodDescriptor s) (Grammar.methodDescriptor s) := by
  unfold Grammar.methodDescriptor
  split
  · rename_i r
    apply Spares.through
      (spares_entriesUntil p ')' r fun s' q _ => spares_valueDescriptor q .valueType s')
    rintro q ⟨ps, r₁, h₁⟩ ⟨ps', r₁', h₁'⟩ - ⟨hps, hrest⟩ -
    obtain rfl : r₁ = r₁' := hrest
    apply Spares.holding_bind hps (spares_typeDescriptor r₁)
    rintro q' ⟨t, r₂, h₂⟩ ⟨t', r₂', h₂'⟩ - hps ⟨ht, hrest⟩
    obtain rfl : r₂ = r₂' := hrest
    apply Spares.through (Refines.build _ _ (spares_makeMethodDescriptor hps ht))
    intro q'' d d' _ hd _
    exact Spares.pure ⟨hd, rfl⟩ (List.Subset.refl _)
  · exact Refines.throw

/-! ## Signatures -/

theorem spares_variableName (s : List Char) :
    SparesReading [] p (variableName s) (variableName s) :=
  spares_nameUntilEnd spares_makeFreeVariable s

theorem spares_boundedArgument (d : Direction) {r : TypeTree Nat .referenceType}
    {r' : TypeTree Unit .referenceType} (hr : Tagged True p r r') :
    Spares (Tagged True) TypeTree.nodes r'.nodes p
      (MonadPool.intern (TypeTree.boundedArgument · d r) : ExceptT Fault PoolM _)
      (MonadPool.intern (TypeTree.boundedArgument · d r')) := by
  refine AsksOnce.intern.spares (Refines.lift (runs_boundedArgument d hr)) ?_
  intro b hb
  obtain rfl := Except.ok.inj hb
  exact List.subset_cons_self _ _

mutual

theorem spares_value (p : Pool) (e : Expected) (s : List Char) :
    SparesReading [] p (value e s) (value e s) := by
  match s with
  | [] =>
      rw [value, value]
      exact Refines.throw
  | c :: r =>
      rw [value, value]
      cases Primitive.ofCode? c with
      | some k => exact Spares.pure ⟨.leaf rfl rfl trivial rfl, rfl⟩ (List.nil_subset _)
      | none =>
          show SparesReading [] p (if c = 'L' ∨ c = '[' ∨ c = 'T' then _ else _)
            (if c = 'L' ∨ c = '[' ∨ c = 'T' then _ else _)
          split_ifs with hc
          · apply Spares.through (spares_reference p (c :: r))
            intro q t t' _ ht _
            exact Spares.pure (ht.wrap Tagged.sigReference) (List.Subset.refl _)
          · exact Refines.throw
termination_by (s.length, 2)

theorem spares_reference (p : Pool) (s : List Char) :
    SparesReading [] p (reference s) (reference s) := by
  rw [reference.eq_def (m := PoolM), reference.eq_def (m := Id)]
  split
  · rename_i r
    have hshorter : r.length < ('L' :: r).length := Nat.lt_succ_self _
    apply Spares.through (spares_segments p .topLevel .topLevel (.leaf rfl rfl trivial rfl) r)
    intro q c c' _ hc _
    exact Spares.pure (hc.wrap Tagged.refClass).after (List.Subset.refl _)
  · rename_i r
    have hshorter : (sinceDimensions r).length < ('[' :: r).length :=
      Nat.lt_succ_of_le (length_sinceDimensions_le r)
    apply Spares.through (spares_value p .valueType (sinceDimensions r))
    rintro q ⟨b, r₁, h₁⟩ ⟨b', r₁', h₁'⟩ - ⟨hb, hrest⟩ hrun
    obtain rfl : r₁ = r₁' := hrest
    obtain ⟨hspells, hvoid⟩ := spells_value ⟨h₁', hrun⟩
    have hbase := isBase_of_spells_type hspells hvoid
    apply Spares.through (Refines.build _ _ (spares_makeArrayType _ hb hbase))
    intro q a a' _ ha _
    exact Spares.pure ⟨ha.refArray, rfl⟩ (List.Subset.refl _)
  · apply Spares.through (spares_variableName _)
    intro q v v' _ hv _
    exact Spares.pure (hv.wrap Tagged.refVariable).after (List.Subset.refl _)
  · exact Refines.throw
termination_by (s.length, 1)
decreasing_by all_goals subst_vars; exact Prod.Lex.left _ _ hshorter

/-- What a class is nested in is in it. -/
theorem spares_segments (p : Pool) (o : TypeTree Nat .enclosing) (o' : TypeTree Unit .enclosing)
    (ho : Tagged True p o o') (s : List Char) :
    SparesReading o'.nodes p (segments o s) (segments o' s) := by
  have hle := length_since_le ['<', '.', ';'] s
  rw [segments, segments]
  split_ifs with hempty
  · exact Refines.throw
  · apply Spares.holding_bind ho (spares_optionalArguments (p.hold o) _)
    rintro q ⟨as, r₁, h₁⟩ ⟨as', r₁', h₁'⟩ - ho ⟨has, hrest⟩
    obtain rfl : r₁ = r₁' := hrest
    apply Spares.through (Refines.build _ _ (spares_makeClassType _ (o := o) ho has))
    rintro q' c c' - hc -
    dsimp only
    split
    · rename_i r₂
      have hshorter : r₂.length < s.length := by
        rw [List.length_cons] at h₁
        omega
      apply Spares.through (spares_segments q' (.nestedIn c) (.nestedIn c') hc.nestedIn r₂)
      rintro q'' ⟨d, r₃, h₃⟩ ⟨d', r₃', h₃'⟩ - ⟨hd, hrest⟩ -
      obtain rfl : r₃ = r₃' := hrest
      exact Spares.pure ⟨hd, rfl⟩ (List.Subset.refl _)
    · exact Spares.pure ⟨hc, rfl⟩ (List.Subset.refl _)
    · exact Refines.throw
termination_by (s.length, 1)
decreasing_by
  · exact Prod.Lex.right' _ hle (by omega)
  · exact Prod.Lex.left _ _ hshorter

theorem spares_optionalArguments (p : Pool) (s : List Char) :
    SparesReading [] p (optionalArguments s) (optionalArguments s) := by
  rw [optionalArguments.eq_def (m := PoolM), optionalArguments.eq_def (m := Id)]
  split
  · exact Refines.throw
  · rename_i r _
    have hshorter : r.length < ('<' :: r).length := Nat.lt_succ_self _
    apply Spares.through (spares_arguments p r)
    intro q as as' _ has _
    exact Spares.pure has.after.after (List.Subset.refl _)
  · exact Spares.pure ⟨.nil, rfl⟩ (List.nil_subset _)
termination_by (s.length, 0)
decreasing_by subst_vars; exact Prod.Lex.left _ _ hshorter

theorem spares_arguments (p : Pool) (s : List Char) :
    SparesReading [] p (arguments s) (arguments s) := by
  rw [arguments, arguments]
  apply Spares.through (spares_argument p s)
  rintro q ⟨a, r₁, h₁⟩ ⟨a', r₁', h₁'⟩ - ⟨ha, hrest⟩ -
  obtain rfl : r₁ = r₁' := hrest
  dsimp only
  split
  · exact Refines.throw
  · exact Spares.pure ⟨.cons ha .nil, rfl⟩ (List.subset_append_left _ _)
  · rename_i c r _
    have hshorter : (c :: r).length < s.length := h₁
    exact spares_cons ha (spares_arguments (q.hold a) (c :: r))
termination_by (s.length, 3)
decreasing_by
  · exact Prod.Lex.right _ (by omega)
  · exact Prod.Lex.left _ _ hshorter

theorem spares_argument (p : Pool) (s : List Char) :
    SparesReading [] p (argument s) (argument s) := by
  rw [argument.eq_def (m := PoolM), argument.eq_def (m := Id)]
  split
  · exact Refines.throw
  · exact Spares.pure ⟨.leaf rfl rfl trivial rfl, rfl⟩ (List.nil_subset _)
  · rename_i c r _
    have hshorter : r.length < (c :: r).length := Nat.lt_succ_self _
    cases Direction.ofCode? c with
    | some d =>
        apply Spares.through (spares_reference p r)
        intro q t t' _ ht _
        apply Spares.through (spares_boundedArgument d ht.value)
        intro q' b b' _ hb _
        exact Spares.pure ⟨hb.argBounded, ht.rest⟩ (List.Subset.refl _)
    | none =>
        show SparesReading [] p (if c = 'L' ∨ c = '[' ∨ c = 'T' then _ else _)
          (if c = 'L' ∨ c = '[' ∨ c = 'T' then _ else _)
        split_ifs with hc
        · apply Spares.through (spares_reference p (c :: r))
          intro q t t' _ ht _
          exact Spares.pure (ht.wrap Tagged.argReference) (List.Subset.refl _)
        · exact Refines.throw
termination_by (s.length, 2)
decreasing_by
  · subst_vars; exact Prod.Lex.right _ (by omega)
  · subst_vars; exact Prod.Lex.left _ _ hshorter

end

theorem spares_classType (s : List Char) :
    SparesReading [] p (Grammar.classType s) (Grammar.classType s) := by
  unfold Grammar.classType
  split
  · rename_i r
    apply Spares.through (spares_segments p .topLevel .topLevel (.leaf rfl rfl trivial rfl) r)
    intro q c c' _ hc _
    exact Spares.pure hc.after (List.Subset.refl _)
  · exact Refines.throw

theorem spares_typeSignature (s : List Char) :
    SparesReading [] p (Grammar.typeSignature s) (Grammar.typeSignature s) := by
  unfold Grammar.typeSignature
  split
  · exact Spares.pure ⟨.leaf rfl rfl trivial rfl, rfl⟩ (List.nil_subset _)
  · exact spares_value p _ _

/-! ## Type parameters -/

theorem spares_interfaceBounds (p : Pool) (s : List Char) :
    SparesReading [] p (interfaceBounds s) (interfaceBounds s) := by
  rw [interfaceBounds.eq_def (m := PoolM), interfaceBounds.eq_def (m := Id)]
  split
  · rename_i r
    apply Spares.through (spares_reference p r)
    rintro q ⟨t, r₁, h₁⟩ ⟨t', r₁', h₁'⟩ - ⟨ht, hrest⟩ -
    obtain rfl : r₁ = r₁' := hrest
    have hshorter : r₁.length < (':' :: r).length := Nat.lt_succ_of_lt h₁
    exact spares_cons ht (spares_interfaceBounds (q.hold t) r₁)
  · exact Spares.pure ⟨.nil, rfl⟩ (List.nil_subset _)
termination_by s.length
decreasing_by
  subst_vars
  exact hshorter

theorem spares_optionalClassBound (s : List Char) :
    SparesReading [] p (optionalClassBound s) (optionalClassBound s) := by
  unfold optionalClassBound
  split
  · exact Spares.pure ⟨.leaf rfl rfl trivial rfl, rfl⟩ (List.nil_subset _)
  · rename_i c r
    split_ifs with hc
    · apply Spares.through (spares_reference p (c :: r))
      intro q t t' _ ht _
      exact Spares.pure (ht.wrap Tagged.boundedBy).after (List.Subset.refl _)
    · exact Spares.pure ⟨.leaf rfl rfl trivial rfl, rfl⟩ (List.nil_subset _)

theorem spares_typeParameter (p : Pool) (s : List Char) :
    SparesReading [] p (Grammar.typeParameter s) (Grammar.typeParameter s) := by
  by_cases h : ∃ r, since [':', '>'] s = ':' :: r
  · obtain ⟨r, h⟩ := h
    rw [typeParameter_of_since h, typeParameter_of_since h]
    apply Spares.through (spares_optionalClassBound r)
    rintro q ⟨c, r₁, h₁⟩ ⟨c', r₁', h₁'⟩ - ⟨hc, hrest⟩ -
    obtain rfl : r₁ = r₁' := hrest
    apply Spares.holding_bind hc (spares_interfaceBounds (q.hold c) r₁)
    rintro q' ⟨is, r₂, h₂⟩ ⟨is', r₂', h₂'⟩ - hc ⟨his, hrest⟩
    obtain rfl : r₂ = r₂' := hrest
    apply Spares.through (Refines.build _ _ (spares_makeTypeParameter _ hc his))
    intro q'' x x' _ hx _
    exact Spares.pure ⟨hx, rfl⟩ (List.Subset.refl _)
  · rw [typeParameter_of_not_since (not_exists.mp h), typeParameter_of_not_since (not_exists.mp h)]
    exact Refines.throw

theorem spares_optionalTypeParameters (s : List Char) :
    SparesReading [] p (optionalTypeParameters s) (optionalTypeParameters s) := by
  unfold optionalTypeParameters
  split
  · exact Refines.throw
  · rename_i r _
    apply Spares.through (spares_someEntriesUntil '>' (fun s q => spares_typeParameter q s) r)
    intro q ps ps' _ hps _
    exact Spares.pure hps.after.after (List.Subset.refl _)
  · exact Spares.pure ⟨.nil, rfl⟩ (List.nil_subset _)

/-! ## Methods -/

theorem spares_throwsType (p : Pool) (s : List Char) :
    SparesReading [] p (throwsType s) (throwsType s) := by
  unfold throwsType
  split
  · rename_i r
    apply Spares.through (spares_segments p .topLevel .topLevel (.leaf rfl rfl trivial rfl) r)
    intro q c c' _ hc _
    exact Spares.pure (hc.wrap Tagged.throwsClass).after (List.Subset.refl _)
  · apply Spares.through (spares_variableName _)
    intro q v v' _ hv _
    exact Spares.pure (hv.wrap Tagged.throwsVariable).after (List.Subset.refl _)
  · exact Refines.throw

theorem spares_throwsTypes (p : Pool) (s : List Char) :
    SparesReading [] p (throwsTypes s) (throwsTypes s) := by
  rw [throwsTypes.eq_def (m := PoolM), throwsTypes.eq_def (m := Id)]
  split
  · rename_i r
    apply Spares.through (spares_throwsType p r)
    rintro q ⟨t, r₁, h₁⟩ ⟨t', r₁', h₁'⟩ - ⟨ht, hrest⟩ -
    obtain rfl : r₁ = r₁' := hrest
    have hshorter : r₁.length < ('^' :: r).length := Nat.lt_succ_of_lt h₁
    exact spares_cons ht (spares_throwsTypes (q.hold t) r₁)
  · exact Spares.pure ⟨.nil, rfl⟩ (List.nil_subset _)
termination_by s.length
decreasing_by
  subst_vars
  exact hshorter

theorem spares_methodSignature (s : List Char) :
    SparesReading [] p (Grammar.methodSignature s) (Grammar.methodSignature s) := by
  unfold Grammar.methodSignature
  apply Spares.through (spares_optionalTypeParameters s)
  rintro q ⟨ts, r, h⟩ ⟨ts', r', h'⟩ - ⟨hts, hrest⟩ -
  obtain rfl : r = r' := hrest
  dsimp only
  split
  · rename_i r h
    apply Spares.held hts.good
    apply Spares.bind (spares_entriesUntil _ ')' r fun s' q' _ => spares_value q' .valueType s')
    rintro q₁ ⟨ps, r₁, h₁⟩ ⟨ps', r₁', h₁'⟩ hext ⟨hps, hrest⟩ - -
    obtain rfl : r₁ = r₁' := hrest
    have hts₁ := hext.holds hts.good.holds_hold
    apply Spares.held hps.good
    apply Spares.bind (spares_typeSignature r₁)
    rintro q₂ ⟨t, r₂, h₂⟩ ⟨t', r₂', h₂'⟩ hext₂ ⟨ht, hrest⟩ - -
    obtain rfl : r₂ = r₂' := hrest
    have hts₂ := hext₂.holds hts₁.hold
    have hps₂ := hext₂.holds hps.good.holds_hold
    apply Spares.holding_bind ht (spares_throwsTypes (q₂.hold t) r₂)
    rintro q₃ ⟨es, r₃, h₃⟩ ⟨es', r₃', h₃'⟩ hext₃ ht₃ ⟨hes, hrest⟩
    obtain rfl : r₃ = r₃' := hrest
    have hts₃ := hext₃.holds hts₂
    have hps₃ := hext₃.holds hps₂
    apply Spares.through (Refines.build _ _ (spares_makeMethodSignature ⟨hts₃.good, hts.plain⟩
      ⟨hps₃.good, hps.plain⟩ ht₃ hes))
    intro q₄ d d' _ hd _
    exact Spares.pure ⟨hd, rfl⟩ (List.Subset.refl _)
  · exact Refines.throw

/-! ## Classes -/

theorem spares_interfaces (p : Pool) (s : List Char) :
    SparesReading [] p (interfaces s) (interfaces s) := by
  rw [interfaces.eq_def (m := PoolM), interfaces.eq_def (m := Id)]
  split
  · rename_i r
    apply Spares.through (spares_segments p .topLevel .topLevel (.leaf rfl rfl trivial rfl) r)
    rintro q ⟨c, r₁, h₁⟩ ⟨c', r₁', h₁'⟩ - ⟨hc, hrest⟩ -
    obtain rfl : r₁ = r₁' := hrest
    have hshorter : r₁.length < ('L' :: r).length := Nat.lt_succ_of_lt h₁
    exact spares_cons hc (spares_interfaces (q.hold c) r₁)
  · exact Spares.pure ⟨.nil, rfl⟩ (List.nil_subset _)
termination_by s.length
decreasing_by
  subst_vars
  exact hshorter

theorem spares_classSignature (s : List Char) :
    SparesReading [] p (Grammar.classSignature s) (Grammar.classSignature s) := by
  unfold Grammar.classSignature
  apply Spares.through (spares_optionalTypeParameters s)
  rintro q ⟨ts, r, h⟩ ⟨ts', r', h'⟩ - ⟨hts, hrest⟩ -
  obtain rfl : r = r' := hrest
  apply Spares.held hts.good
  apply Spares.bind (spares_classType r)
  rintro q₁ ⟨c, r₁, h₁⟩ ⟨c', r₁', h₁'⟩ hext ⟨hc, hrest⟩ - -
  obtain rfl : r₁ = r₁' := hrest
  have hts₁ := hext.holds hts.good.holds_hold
  apply Spares.holding_bind hc (spares_interfaces (q₁.hold c) r₁)
  rintro q₂ ⟨is, r₂, h₂⟩ ⟨is', r₂', h₂'⟩ hext₂ hc₂ ⟨his, hrest⟩
  obtain rfl : r₂ = r₂' := hrest
  have hts₂ := hext₂.holds hts₁
  have hmade : Spares (Tagged True) TypeTree.nodes (ts'.nodes ++ c'.nodes ++ is'.nodes) q₂
      (MonadPool.intern (TypeTree.classSignature · ts c is) : ExceptT Fault PoolM _)
      (MonadPool.intern (TypeTree.classSignature · ts' c' is')) := by
    refine AsksOnce.intern.spares
      (Refines.lift (runs_classSignature ⟨hts₂.good, hts.plain⟩ hc₂ his)) ?_
    intro d hd
    obtain rfl := Except.ok.inj hd
    exact List.subset_cons_self _ _
  apply Spares.through hmade
  intro q₃ d d' _ hd _
  exact Spares.pure ⟨hd, rfl⟩ (List.Subset.refl _)

/-! ## Any text -/

/-- **One rule after another.** Whatever a text is read as, the pool is spared. -/
theorem spares_rule (k : Start) (s : List Char) : SparesReading [] p (rule k s) (rule k s) := by
  cases k with
  | typeDescriptor => exact spares_typeDescriptor s
  | classDescriptor => exact spares_classDescriptor s
  | methodDescriptor => exact spares_methodDescriptor s
  | typeSignature => exact spares_typeSignature s
  | referenceType => exact spares_reference p s
  | classType => exact spares_classType s
  | methodSignature => exact spares_methodSignature s
  | classSignature => exact spares_classSignature s
  | typeParameter => exact spares_typeParameter p s
  | typeArgument => exact spares_argument p s

theorem spares_readAt (k : Start) (text : String) (start : Nat) :
    Spares (EndTagged True) (fun x => x.1.nodes) [] p (readAt k text start)
      (readAt k text start) := by
  unfold readAt
  dsimp only
  cases Text.dropBytes? text.toList start with
  | none => exact Refines.throw
  | some s =>
      apply Spares.through (Refines.adapt _ (spares_rule k s))
      rintro q ⟨t, r, h⟩ ⟨t', r', h'⟩ - ⟨ht, hrest⟩ -
      obtain rfl : r = r' := hrest
      exact Spares.pure ⟨ht, rfl⟩ (List.Subset.refl _)

end Pool

end ClassfileTypes
