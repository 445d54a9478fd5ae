import ClassfileTypes.Proofs.RoundTrip

/-!
# Declarations are read back

Where a declaration ends with a list that nothing closes, what follows must not
look like another entry. `Follows` is what a rule asks of the text after the tree;
every other tree is read back whatever follows.
-/

namespace ClassfileTypes

namespace Grammar

open TypeTree

variable {r : List Char}

theorem gives_classType {c : TypeTree Unit .classType} (hc : c.WellFormed) (hu : c.Unbound)
    (r : List Char) : Gives (Grammar.classType (c.write .internal (';' :: r))) c r := by
  rw [write_classType_eq hc, Grammar.classType]
  exact Gives.bind (gives_segments hc hu r) fun h => Gives.pure

theorem gives_typeSignature {t : TypeTree Unit .typeSignature} (ht : t.WellFormed)
    (hu : t.Unbound) (r : List Char) :
    Gives (Grammar.typeSignature (t.write .internal r)) t r := by
  cases t with
  | sigVoid => exact Gives.pure
  | sigPrimitive p =>
      have hvalue := gives_value .typeSignature ht hu rfl r
      cases p <;> exact hvalue
  | sigReference t =>
      have hvalue := gives_value .typeSignature ht hu rfl r
      obtain ⟨c, w, hw, hc⟩ := write_reference_eq (t := t) ht r
      rw [write, hw] at hvalue ⊢
      rcases hc with rfl | rfl | rfl <;> exact hvalue

/-! ## Type parameters -/

theorem gives_interfaceBounds {is : TypeTree Unit (.list .referenceType)} (his : is.WellFormed)
    (hu : is.Unbound) (hr : r.head? ≠ some ':') :
    Gives (interfaceBounds (is.write .internal r)) is r := by
  match is with
  | .nil =>
      rw [write, interfaceBounds]
      · exact Gives.pure
      · rintro w rfl
        exact hr rfl
  | .cons t ts =>
      show Gives (interfaceBounds (':' :: t.write .internal (ts.write .internal r))) _ _
      rw [interfaceBounds]
      refine Gives.bind (gives_reference his.1 hu.1 _) fun h => ?_
      exact Gives.bind (gives_interfaceBounds his.2 hu.2 hr) fun h => Gives.pure

/-- Without a class bound, an interface bound follows. -/
theorem gives_optionalClassBound {b : TypeTree Unit .classBound} (hb : b.WellFormed)
    (hu : b.Unbound) (hr : b.isUnbounded = true → r.head? = some ':') :
    Gives (optionalClassBound (b.write .internal r)) b r := by
  cases b with
  | noClassBound =>
      obtain ⟨w, rfl⟩ := List.head?_eq_some_iff.mp (hr rfl)
      exact Gives.pure
  | boundedBy t =>
      have hread := gives_reference hb hu r
      obtain ⟨c, w, hw, hc⟩ := write_reference_eq (t := t) hb r
      rw [hw] at hread
      rw [write, hw, optionalClassBound, if_pos hc]
      exact Gives.bind hread fun h => Gives.pure

theorem gives_typeParameter {t : TypeTree Unit .typeParameter} (ht : t.WellFormed)
    (hu : t.Unbound) (hr : r.head? ≠ some ':') :
    Gives (Grammar.typeParameter (t.write .internal r)) t r := by
  cases t with
  | typeParameter i n b is =>
      obtain ⟨hname, hbounds, hb, his⟩ := id ht
      have hclean : ∀ c ∈ n.toList, c ∉ [':', '>'] := by
        intro c hc hstop
        obtain ⟨hdelimiter, hseparator⟩ := hname.clean c hc
        simp only [List.mem_cons, List.not_mem_nil, or_false] at hstop
        rcases hstop with rfl | rfl
        · exact absurd hseparator (by decide)
        · exact absurd hdelimiter (by decide)
      have hbefore := before_append (r := ':' :: b.write .internal (is.write .internal r)) hclean
        (by simp)
      have hsince := since_append (r := ':' :: b.write .internal (is.write .internal r)) hclean
        (by simp)
      rw [write, typeParameter_of_since hsince, hbefore, String.ofList_toList]
      refine Gives.bind (gives_optionalClassBound hb hu.1 ?_) fun h => ?_
      · exact fun h => head?_write_interfaceBounds (hbounds h) r
      refine Gives.bind (gives_interfaceBounds his hu.2 hr) fun h => ?_
      exact Gives.bind_run (run_makeTypeParameter hname hbounds) Gives.pure

/-- What follows a type parameter in a list is not one of its bounds. -/
theorem gives_someTypeParameters {t : TypeTree Unit .typeParameter}
    {ts : TypeTree Unit (.list .typeParameter)} (ht : t.WellFormed) (hut : t.Unbound)
    (hts : ts.WellFormed) (hu : ts.Unbound) (r : List Char) :
    Gives (someEntriesUntil '>' Grammar.typeParameter
      (t.write .internal (ts.write .internal ('>' :: r)))) (.cons t ts) r := by
  have hwf := WellFormed.entries hts
  have hunbound := Unbound.entries hu
  have hfollow : ∀ x ∈ ts.entries, ∀ r, (x.write .internal r).head? ≠ some ':' := by
    intro x hx r
    obtain ⟨c, hc, -, hne⟩ := lead_typeParameter .internal (hwf x hx)
    rw [head?_write (hwf x hx) hc]
    simpa using hne
  have hentries := gives_entriesUntil '>' (fun r => r.head? ≠ some ':') rfl rfl
    (by simp) (fun x hx r hr => gives_typeParameter (hwf x hx) (hunbound x hx) hr) hfollow
    (fun x hx r => by
      obtain ⟨c, hc, hne, -⟩ := lead_typeParameter .internal (hwf x hx)
      exact ⟨c, head?_write (hwf x hx) hc r, hne⟩) r
  have hnext : (ts.write .internal ('>' :: r)).head? ≠ some ':' := by
    cases ts with
    | nil => simp [write]
    | cons u us => exact hfollow u List.mem_cons_self _
  refine Gives.bind (gives_typeParameter ht hut hnext) fun h => ?_
  exact Gives.bind hentries fun h => Gives.pure

/-- Type parameters between angle brackets, or none. -/
theorem gives_optionalTypeParameters {ts : TypeTree Unit (.list .typeParameter)}
    (hts : ts.WellFormed) (hu : ts.Unbound) (hr : r.head? ≠ some '<') :
    Gives (optionalTypeParameters (angled ts.isNil (ts.write .internal) r)) ts r := by
  cases ts with
  | nil =>
      show Gives (optionalTypeParameters r) _ _
      rw [optionalTypeParameters]
      · exact Gives.pure
      · rintro w rfl
        exact hr rfl
      · rintro w rfl
        exact hr rfl
  | cons t ts =>
      have hread := gives_someTypeParameters hts.1 hu.1 hts.2 hu.2 r
      obtain ⟨c, hc, hne, -⟩ := lead_typeParameter .internal hts.1
      obtain ⟨w, hw⟩ := List.head?_eq_some_iff.mp
        (head?_write hts.1 hc (ts.write .internal ('>' :: r)))
      show Gives (optionalTypeParameters ('<' :: t.write .internal (ts.write .internal ('>' :: r))))
        _ _
      rw [hw] at hread ⊢
      rw [optionalTypeParameters]
      · exact Gives.bind hread fun h => Gives.pure
      · exact fun w h => hne (List.cons.inj h).1

/-! ## Methods -/

theorem gives_throwsType {t : TypeTree Unit .throwsType} (ht : t.WellFormed) (hu : t.Unbound)
    (r : List Char) : Gives (throwsType (t.write .internal r)) t r := by
  match t with
  | .throwsClass c =>
      rw [write, write_classType_eq ht, throwsType]
      exact Gives.bind (gives_segments ht hu r) fun h => Gives.pure
  | .throwsVariable (.freeVariable i n) =>
      rw [write, write, throwsType]
      exact Gives.bind (gives_variableName ht r) fun h => Gives.pure

theorem gives_throwsTypes {es : TypeTree Unit (.list .throwsType)} (hes : es.WellFormed)
    (hu : es.Unbound) (hr : r.head? ≠ some '^') :
    Gives (throwsTypes (es.write .internal r)) es r := by
  match es with
  | .nil =>
      rw [write, throwsTypes]
      · exact Gives.pure
      · rintro w rfl
        exact hr rfl
  | .cons t ts =>
      show Gives (throwsTypes ('^' :: t.write .internal (ts.write .internal r))) _ _
      rw [throwsTypes]
      refine Gives.bind (gives_throwsType hes.1 hu.1 _) fun h => ?_
      exact Gives.bind (gives_throwsTypes hes.2 hu.2 hr) fun h => Gives.pure

theorem gives_methodSignature {t : TypeTree Unit .methodSignature} (ht : t.WellFormed)
    (hu : t.Unbound) (hr : r.head? ≠ some '^') :
    Gives (Grammar.methodSignature (t.write .internal r)) t r := by
  cases t with
  | methodSignature i ts ps t es =>
      obtain ⟨hvoid, hts, hps, ht', hes⟩ := id ht
      have hwf := WellFormed.entries hps
      have hunbound := Unbound.entries hu.2.1
      have hentries := gives_entriesUntil ')' (fun _ => True) rfl rfl
        (fun _ => trivial)
        (fun x hx r _ => gives_value .valueType (hwf x hx) (hunbound x hx) (hvoid x hx) r)
        (fun _ _ _ => trivial)
        (fun x hx r => by
          obtain ⟨c, hc, hne⟩ := lead_typeSignature .internal x
          exact ⟨c, head?_write (hwf x hx) hc r, hne⟩)
        (t.write .internal (es.write .internal r))
      rw [write, Grammar.methodSignature]
      refine Gives.bind (gives_optionalTypeParameters hts hu.1 (by simp)) fun h => ?_
      refine Gives.bind hentries fun h => ?_
      refine Gives.bind (gives_typeSignature ht' hu.2.2.1 _) fun h => ?_
      refine Gives.bind (gives_throwsTypes hes hu.2.2.2 hr) fun h => ?_
      exact Gives.bind_run (run_makeMethodSignature ht) Gives.pure

/-! ## Classes -/

theorem gives_interfaces {cs : TypeTree Unit (.list .classType)} (hcs : cs.WellFormed)
    (hu : cs.Unbound) (hr : r.head? ≠ some 'L') :
    Gives (interfaces (cs.write .internal r)) cs r := by
  match cs with
  | .nil =>
      rw [write, interfaces]
      · exact Gives.pure
      · rintro w rfl
        exact hr rfl
  | .cons c cs =>
      show Gives (interfaces (c.write .internal (';' :: cs.write .internal r))) _ _
      rw [write_classType_eq hcs.1, interfaces]
      refine Gives.bind (gives_segments hcs.1 hu.1 _) fun h => ?_
      exact Gives.bind (gives_interfaces hcs.2 hu.2 hr) fun h => Gives.pure

theorem gives_classSignature {t : TypeTree Unit .classSignature} (ht : t.WellFormed)
    (hu : t.Unbound) (hr : r.head? ≠ some 'L') :
    Gives (Grammar.classSignature (t.write .internal r)) t r := by
  cases t with
  | classSignature i ts c is =>
      have hhead : (c.write .internal (';' :: is.write .internal r)).head? ≠ some '<' := by
        rw [write_classType_eq ht.2.1]
        simp
      rw [write, Grammar.classSignature]
      refine Gives.bind (gives_optionalTypeParameters ht.1 hu.1 hhead) fun h => ?_
      refine Gives.bind (gives_classType ht.2.1 hu.2.1 _) fun h => ?_
      refine Gives.bind (gives_interfaces ht.2.2 hu.2.2 hr) fun h => ?_
      exact Gives.pure

end Grammar

/-! ## Any rule -/

/-- What the rule asks of the text after a tree. -/
def Start.Follows : Start → List Char → Prop
  | .methodSignature, r => r.head? ≠ some '^'
  | .classSignature, r => r.head? ≠ some 'L'
  | .typeParameter, r => r.head? ≠ some ':'
  | _, _ => True

theorem Start.follows_nil (k : Start) : k.Follows [] := by
  cases k <;> simp [Start.Follows]

/-- **From its text every rule gives the tree.** -/
theorem Grammar.gives_rule (k : Start) {t : TypeTree Unit k.form} (ht : t.WellFormed)
    (hu : t.Unbound) {r : List Char} (hr : k.Follows r) :
    Gives (rule k (t.write .internal (k.form.closing ++ r))) t r := by
  cases k with
  | typeDescriptor => exact gives_typeDescriptor ht r
  | classDescriptor => exact gives_classDescriptor ht r
  | methodDescriptor => exact gives_methodDescriptor ht r
  | typeSignature => exact gives_typeSignature ht hu r
  | referenceType => exact gives_reference ht hu r
  | classType => exact gives_classType ht hu r
  | methodSignature => exact gives_methodSignature ht hu hr
  | classSignature => exact gives_classSignature ht hu hr
  | typeParameter => exact gives_typeParameter ht hu hr
  | typeArgument => exact gives_argument ht hu r

end ClassfileTypes
