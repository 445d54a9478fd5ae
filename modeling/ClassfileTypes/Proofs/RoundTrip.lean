import ClassfileTypes.Proofs.Making
import ClassfileTypes.Proofs.Rules

/-!
# What is written is read back

From the internal text of a well-formed tree, followed by anything that cannot
be taken for more of it, its rule gives the tree and leaves what follows. Bound
variables are left out: their internal text is that of a free variable.

The trees of signatures contain each other, so the theorems about their rules
are proved together, by recursion on the tree.
-/

namespace ClassfileTypes.Grammar

open TypeTree

variable {r r' : List Char}

/-! ## Names -/

/-- A name of which no character is a stop, up to the stop after it. -/
theorem gives_nameUntilEnd {α : Type} {make : String → ExceptT TypeError Id α} {n : String} {a : α}
    (hn : ∀ c ∈ n.toList, Name.isDelimiter c = false) (hmake : (make n).run = Except.ok a) :
    Gives (nameUntilEnd make (n.toList ++ ';' :: r)) a r := by
  have hclean : ∀ c ∈ n.toList, c ∉ [';'] := by
    intro c hc hstop
    obtain rfl := List.mem_singleton.mp hstop
    exact absurd (hn _ hc) (by decide)
  have hbefore : before [';'] (n.toList ++ ';' :: r) = n.toList :=
    before_append hclean (by simp)
  have hsince : since [';'] (n.toList ++ ';' :: r) = ';' :: r :=
    since_append hclean (by simp)
  rw [nameUntilEnd_of_since hsince, hbefore, String.ofList_toList]
  exact Gives.bind_run hmake Gives.pure

/-! ## Lists -/

/-- An entry, and then the rest of the list. -/
theorem gives_entriesUntil_cons {f : Form} {close c : Char}
    {entry : (s : List Char) → Reading Id (TypeTree Unit f) s.length} {s : List Char}
    {x : TypeTree Unit f} {xs : TypeTree Unit (.list f)} (hc : s.head? = some c) (hne : c ≠ close)
    (hx : Gives (entry s) x r) (hxs : Gives (entriesUntil close entry r) xs r') :
    Gives (entriesUntil close entry s) (.cons x xs) r' := by
  obtain ⟨w, rfl⟩ := List.head?_eq_some_iff.mp hc
  rw [entriesUntil, if_neg hne]
  exact Gives.bind hx fun h => Gives.bind hxs fun h => Gives.pure

/-- Entries up to the end of the list. `P` is what an entry asks of the text after it. -/
theorem gives_entriesUntil {f : Form} (close : Char) (P : List Char → Prop)
    {entry : (s : List Char) → Reading Id (TypeTree Unit f) s.length}
    (hopening : f.opening = []) (hclosing : f.closing = []) {xs : TypeTree Unit (.list f)}
    (hclose : ∀ r, P (close :: r))
    (hentry : ∀ x ∈ xs.entries, ∀ r, P r → Gives (entry (x.write .internal r)) x r)
    (hfollow : ∀ x ∈ xs.entries, ∀ r, P (x.write .internal r))
    (hlead : ∀ x ∈ xs.entries, ∀ r, ∃ c, (x.write .internal r).head? = some c ∧ c ≠ close)
    (r : List Char) : Gives (entriesUntil close entry (xs.write .internal (close :: r))) xs r := by
  cases xs with
  | nil =>
      rw [write, entriesUntil, if_pos rfl]
      exact Gives.pure
  | cons x xs =>
      have hx : x ∈ (TypeTree.cons x xs).entries := List.mem_cons_self
      have hxs : ∀ y ∈ xs.entries, y ∈ (TypeTree.cons x xs).entries := fun y hy =>
        List.mem_cons_of_mem _ hy
      have hnext : P (xs.write .internal (close :: r)) := by
        cases xs with
        | nil => exact hclose r
        | cons y ys =>
            rw [write, hopening]
            exact hfollow y (hxs y List.mem_cons_self) _
      have hrest := gives_entriesUntil close P hopening hclosing hclose
        (fun y hy => hentry y (hxs y hy)) (fun y hy => hfollow y (hxs y hy))
        (fun y hy => hlead y (hxs y hy)) r
      obtain ⟨c, hc, hne⟩ := hlead x hx (xs.write .internal (close :: r))
      rw [write, hopening, hclosing, List.nil_append, List.nil_append]
      exact gives_entriesUntil_cons hc hne (hentry x hx _ hnext) hrest

/-! ## Descriptors -/

theorem gives_classDescriptor {c : TypeTree Unit .classDescriptor} (hc : c.WellFormed)
    (r : List Char) : Gives (Grammar.classDescriptor (c.write .internal r)) c r := by
  cases c with
  | classDescriptor i n =>
      have hname := gives_nameUntilEnd (r := r) (fun c h => (hc.clean c h).1)
        (run_makeClassDescriptor (i := i) hc)
      exact Gives.bind hname fun h => Gives.pure

theorem gives_valueDescriptor (e : Expected) {t : TypeTree Unit .typeDescriptor}
    (ht : t.WellFormed) (hvoid : t.isVoid = false) (r : List Char) :
    Gives (valueDescriptor e (t.write .internal r)) t r := by
  cases t with
  | descPrimitive p =>
      rw [write]
      cases p <;> exact ⟨Nat.lt_succ_self _, by rw [Primitive.code, valueDescriptor.eq_def]; rfl⟩
  | descVoid => cases hvoid
  | descClass c =>
      cases c with
      | classDescriptor i n =>
          have hname := gives_nameUntilEnd (r := r) (fun c h => (ht.clean c h).1)
            (run_makeClassDescriptor (i := i) ht)
          rw [write, write, valueDescriptor]
          exact Gives.bind hname fun h => Gives.pure
  | descArray a =>
      cases a with
      | arrayDescriptor i d b =>
          obtain ⟨k, rfl⟩ := Nat.exists_eq_add_of_le' ht.1.1
          have hhead := head?_write_descriptorBase (s := .internal) ht.2.2 ht.2.1 r
          have hb := gives_valueDescriptor .valueType ht.2.2 ht.2.1.1 r
          rw [← sinceDimensions_replicate k hhead] at hb
          rw [write, write, List.replicate_succ, List.cons_append, valueDescriptor]
          refine Gives.bind hb fun h => ?_
          rw [dimensions_replicate k hhead]
          exact Gives.bind_run (run_makeArrayDescriptor ht) Gives.pure

theorem gives_typeDescriptor {t : TypeTree Unit .typeDescriptor} (ht : t.WellFormed)
    (r : List Char) : Gives (Grammar.typeDescriptor (t.write .internal r)) t r := by
  cases t with
  | descVoid => exact Gives.pure
  | descPrimitive p =>
      have hvalue := gives_valueDescriptor .typeDescriptor ht rfl r
      cases p <;> exact hvalue
  | descClass c =>
      cases c with
      | classDescriptor i n => exact gives_valueDescriptor .typeDescriptor ht rfl r
  | descArray a =>
      have hvalue := gives_valueDescriptor .typeDescriptor ht rfl r
      obtain ⟨w, hw⟩ := List.head?_eq_some_iff.mp (head?_write (s := .internal) ht rfl r)
      rw [hw] at hvalue ⊢
      exact hvalue

theorem gives_methodDescriptor {t : TypeTree Unit .methodDescriptor} (ht : t.WellFormed)
    (r : List Char) : Gives (Grammar.methodDescriptor (t.write .internal r)) t r := by
  cases t with
  | methodDescriptor i ps t =>
      have hps := WellFormed.entries ht.2.1
      have hentries := gives_entriesUntil ')' (fun _ => True) rfl rfl
        (fun _ => trivial)
        (fun x hx r _ => gives_valueDescriptor .valueType (hps x hx) (ht.1 x hx) r)
        (fun _ _ _ => trivial)
        (fun x hx r => by
          obtain ⟨c, hc, hne⟩ := lead_typeDescriptor .internal x
          exact ⟨c, head?_write (hps x hx) hc r, hne⟩)
        (t.write .internal r)
      rw [write, Grammar.methodDescriptor]
      refine Gives.bind hentries fun h => ?_
      refine Gives.bind (gives_typeDescriptor ht.2.2 r) fun h => ?_
      exact Gives.bind_run (run_makeMethodDescriptor ht) Gives.pure

/-! ## Type variables -/

theorem gives_variableName {i : Unit} {n : String} (h : (freeVariable i n).WellFormed)
    (r : List Char) : Gives (variableName (n.toList ++ ';' :: r)) (freeVariable i n) r :=
  gives_nameUntilEnd (fun c hc => (h.clean c hc).1) (run_makeFreeVariable h)

/-! ## Classes, segment by segment -/

/-- The name of a segment ends at the first stop. -/
theorem cut_segment {i : Unit} {o : TypeTree Unit .enclosing} {n : String}
    {as : TypeTree Unit (.list .typeArgument)} (hwf : (TypeTree.classType i o n as).WellFormed)
    {c : Char} (hc : c = '.' ∨ c = ';') (w : List Char → List Char) (r : List Char) :
    before ['<', '.', ';'] (n.toList ++ angled as.isNil w (c :: r)) = n.toList ∧
      since ['<', '.', ';'] (n.toList ++ angled as.isNil w (c :: r)) =
        angled as.isNil w (c :: r) := by
  have hclean : ∀ c ∈ n.toList, c ∉ ['<', '.', ';'] := by
    intro c hc hstop
    have hmem : (n, as) ∈ (TypeTree.classType i o n as).spine :=
      List.mem_append_right _ (List.mem_singleton_self _)
    obtain ⟨hdelimiter, hdot⟩ := (clean_of_mem_spine hwf hmem).1 c hc
    simp only [List.mem_cons, List.not_mem_nil, or_false] at hstop
    rcases hstop with rfl | rfl | rfl
    · exact absurd hdelimiter (by decide)
    · exact hdot rfl
    · exact absurd hdelimiter (by decide)
  have hhead : ∀ d, (angled as.isNil w (c :: r)).head? = some d → d ∈ ['<', '.', ';'] := by
    intro d hd
    unfold angled at hd
    split_ifs at hd
    · obtain rfl := Option.some.inj hd
      rcases hc with rfl | rfl <;> simp
    · obtain rfl := Option.some.inj hd
      simp
  exact ⟨before_append hclean hhead, since_append hclean hhead⟩

theorem angled_ne_nil (b : Bool) (w : List Char → List Char) {c : Char} (r : List Char) :
    angled b w (c :: r) ≠ [] := by
  unfold angled
  split_ifs <;> exact List.cons_ne_nil _ _

/-- The last class of a class type. -/
theorem gives_segments_end {i : Unit} {o : TypeTree Unit .enclosing} {n : String}
    {as : TypeTree Unit (.list .typeArgument)} (hwf : (TypeTree.classType i o n as).WellFormed)
    (has : Gives (optionalArguments (angled as.isNil (as.write .internal) (';' :: r))) as
      (';' :: r)) :
    Gives (segments o (n.toList ++ angled as.isNil (as.write .internal) (';' :: r)))
      (TypeTree.classType i o n as) r := by
  obtain ⟨hbefore, hsince⟩ := cut_segment hwf (Or.inr rfl) (as.write .internal) r
  have hne := angled_ne_nil as.isNil (as.write .internal) (c := ';') r
  rw [← hsince] at has hne
  rw [segments, if_neg (by simpa using hne)]
  refine Gives.bind has fun h => ?_
  rw [hbefore, String.ofList_toList]
  exact Gives.bind_run (run_makeClassType hwf) Gives.pure

/-- A class with another one nested in it. -/
theorem gives_segments_nested {i : Unit} {o : TypeTree Unit .enclosing} {n : String}
    {as : TypeTree Unit (.list .typeArgument)} {d : TypeTree Unit .classType}
    (hwf : (TypeTree.classType i o n as).WellFormed)
    (has : Gives (optionalArguments (angled as.isNil (as.write .internal) ('.' :: r))) as
      ('.' :: r))
    (hd : Gives (segments (.nestedIn (.classType i o n as)) r) d r') :
    Gives (segments o (n.toList ++ angled as.isNil (as.write .internal) ('.' :: r))) d r' := by
  obtain ⟨hbefore, hsince⟩ := cut_segment hwf (Or.inl rfl) (as.write .internal) r
  have hne := angled_ne_nil as.isNil (as.write .internal) (c := '.') r
  rw [← hsince] at has hne
  rw [segments, if_neg (by simpa using hne)]
  refine Gives.bind has fun h => ?_
  rw [hbefore, String.ofList_toList]
  refine Gives.bind_run (run_makeClassType hwf) ?_
  exact Gives.bind hd fun h => Gives.pure

/-- The text of a class type begins with `L`. -/
theorem write_classType_eq {c : TypeTree Unit .classType} (hc : c.WellFormed) (r : List Char) :
    c.write .internal r = 'L' :: (c.write .internal r).tail := by
  have hhead : (c.write .internal r).head? = some 'L' := by
    cases c with
    | classType i o n as => exact head?_write hc rfl r
  obtain ⟨w, hw⟩ := List.head?_eq_some_iff.mp hhead
  rw [hw, List.tail_cons]

/-! ## Arguments, references and values -/

/-- The text of a reference type begins with a letter that announces one. -/
theorem write_reference_eq {t : TypeTree Unit .referenceType} (ht : t.WellFormed)
    (r : List Char) :
    ∃ c w, t.write .internal r = c :: w ∧ (c = 'L' ∨ c = '[' ∨ c = 'T') := by
  obtain ⟨c, hc, hlead⟩ := leads_write_reference (s := .internal) ht r
  obtain ⟨w, hw⟩ := List.head?_eq_some_iff.mp hc
  exact ⟨c, w, hw, by simpa [LeadsReference] using hlead⟩

/-- Arguments between angle brackets, or none. -/
theorem gives_optionalArguments {as : TypeTree Unit (.list .typeArgument)} (has : as.WellFormed)
    (hread : ∀ r, as.isNil = false → Gives (arguments (as.write .internal ('>' :: r))) as r)
    {c : Char} (hc : c ≠ '<') (r : List Char) :
    Gives (optionalArguments (angled as.isNil (as.write .internal) (c :: r))) as (c :: r) := by
  cases as with
  | nil =>
      show Gives (optionalArguments (c :: r)) _ _
      rw [optionalArguments]
      · exact Gives.pure
      · exact fun w h => hc (List.cons.inj h).1
      · exact fun w h => hc (List.cons.inj h).1
  | cons a as =>
      have hargs := hread (c :: r) rfl
      obtain ⟨d, hd, hne⟩ := lead_typeArgument .internal a
      have hhead : ((TypeTree.cons a as).write .internal ('>' :: c :: r)).head? = some d :=
        head?_write_cons rfl has.1 hd _
      obtain ⟨w, hw⟩ := List.head?_eq_some_iff.mp hhead
      show Gives (optionalArguments ('<' :: (TypeTree.cons a as).write .internal ('>' :: c :: r)))
        _ _
      rw [hw] at hargs ⊢
      rw [optionalArguments]
      · exact Gives.bind hargs fun h => Gives.pure
      · exact fun w h => hne (List.cons.inj h).1

mutual

/-- What encloses a class is read on the way to the class. -/
theorem gives_segments_enclosing {o : TypeTree Unit .enclosing} (ho : o.WellFormed)
    (hu : o.Unbound) {d : TypeTree Unit .classType} {r r' : List Char}
    (h : Gives (segments o r) d r') :
    Gives (segments .topLevel (o.write .internal r).tail) d r' := by
  match o with
  | .topLevel => exact h
  | .nestedIn (.classType i o n as) =>
      -- The class in which the rest is nested, and before that what encloses it in turn.
      have has := gives_optionalArguments ho.2.2 (fun r hne => gives_arguments ho.2.2 hu.2 hne r)
        (c := '.') (by decide) r
      exact gives_segments_enclosing ho.2.1 hu.1 (gives_segments_nested ho has h)

theorem gives_segments {c : TypeTree Unit .classType} (hc : c.WellFormed) (hu : c.Unbound)
    (r : List Char) : Gives (segments .topLevel (c.write .internal (';' :: r)).tail) c r := by
  match c with
  | .classType i o n as =>
      have has := gives_optionalArguments hc.2.2 (fun r hne => gives_arguments hc.2.2 hu.2 hne r)
        (c := ';') (by decide) r
      exact gives_segments_enclosing hc.2.1 hu.1 (gives_segments_end hc has)

theorem gives_reference {t : TypeTree Unit .referenceType} (ht : t.WellFormed) (hu : t.Unbound)
    (r : List Char) : Gives (reference (t.write .internal r)) t r := by
  match t with
  | .refClass c =>
      rw [write, write_classType_eq ht, reference]
      exact Gives.bind (gives_segments ht hu r) fun h => Gives.pure
  | .refArray (.arrayType i d b) =>
      obtain ⟨k, rfl⟩ := Nat.exists_eq_add_of_le' ht.1.1
      have hhead := head?_write_typeBase (s := .internal) ht.2.2 ht.2.1 r
      have hb := gives_value .valueType ht.2.2 hu ht.2.1.1 r
      rw [← sinceDimensions_replicate k hhead] at hb
      rw [write, write, List.replicate_succ, List.cons_append, reference]
      refine Gives.bind hb fun h => ?_
      rw [dimensions_replicate k hhead]
      exact Gives.bind_run (run_makeArrayType ht) Gives.pure
  | .refVariable (.freeVariable i n) =>
      rw [write, write, reference]
      exact Gives.bind (gives_variableName ht r) fun h => Gives.pure

theorem gives_value (e : Expected) {t : TypeTree Unit .typeSignature} (ht : t.WellFormed)
    (hu : t.Unbound) (hvoid : t.isVoid = false) (r : List Char) :
    Gives (value e (t.write .internal r)) t r := by
  match t with
  | .sigPrimitive p =>
      rw [write]
      cases p <;> exact ⟨Nat.lt_succ_self _, by rw [Primitive.code, value]; rfl⟩
  | .sigReference t =>
      have hread := gives_reference ht hu r
      obtain ⟨c, w, hw, hc⟩ := write_reference_eq (t := t) ht r
      have hcode : Primitive.ofCode? c = none := by rcases hc with rfl | rfl | rfl <;> rfl
      rw [hw] at hread
      rw [write, hw, value, hcode]
      show Gives (if c = 'L' ∨ c = '[' ∨ c = 'T' then _ else _) _ _
      rw [if_pos hc]
      exact Gives.bind hread fun h => Gives.pure

theorem gives_argument {a : TypeTree Unit .typeArgument} (ha : a.WellFormed) (hu : a.Unbound)
    (r : List Char) : Gives (argument (a.write .internal r)) a r := by
  match a with
  | .wildcard =>
      rw [write, argument.eq_def]
      exact Gives.pure
  | .argReference t =>
      have hread := gives_reference ha hu r
      obtain ⟨c, w, hw, hc⟩ := write_reference_eq (t := t) ha r
      have hcode : Direction.ofCode? c = none := by rcases hc with rfl | rfl | rfl <;> rfl
      rw [hw] at hread
      rw [write, hw, argument, hcode]
      · show Gives (if c = 'L' ∨ c = '[' ∨ c = 'T' then _ else _) _ _
        rw [if_pos hc]
        exact Gives.bind hread fun h => Gives.pure
      · rintro rfl
        simp at hc
  | .argBounded (.boundedArgument i d t) =>
      have hread := gives_reference ha hu r
      rw [write, write, argument]
      · cases d <;> exact Gives.bind hread fun h => Gives.pure
      · cases d <;> decide

theorem gives_arguments {as : TypeTree Unit (.list .typeArgument)} (has : as.WellFormed)
    (hu : as.Unbound) (hne : as.isNil = false) (r : List Char) :
    Gives (arguments (as.write .internal ('>' :: r))) as r := by
  match as with
  | .cons a .nil =>
      have ha := gives_argument has.1 hu.1 ('>' :: r)
      rw [write, arguments]
      exact Gives.bind ha fun h => Gives.pure
  | .cons a (.cons b bs) =>
      -- The rule looks at one character after an argument: here it begins the next one.
      have hbs := gives_arguments has.2 hu.2 rfl r
      obtain ⟨c, hc, hne⟩ := lead_typeArgument .internal b
      have hhead : ((TypeTree.cons b bs).write .internal ('>' :: r)).head? = some c :=
        head?_write_cons rfl has.2.1 hc _
      obtain ⟨w, hw⟩ := List.head?_eq_some_iff.mp hhead
      have ha := gives_argument has.1 hu.1 ((TypeTree.cons b bs).write .internal ('>' :: r))
      show Gives (arguments (a.write .internal ((TypeTree.cons b bs).write .internal ('>' :: r))))
        _ _
      rw [hw] at ha hbs ⊢
      rw [arguments]
      refine Gives.bind ha fun h => ?_
      dsimp only
      split
      · rename_i h
        exact nomatch h
      · rename_i h
        exact absurd (List.cons.inj h).1 hne
      · rename_i h
        obtain ⟨rfl, rfl⟩ := List.cons.inj h
        exact Gives.bind hbs fun h => Gives.pure

end

end ClassfileTypes.Grammar
