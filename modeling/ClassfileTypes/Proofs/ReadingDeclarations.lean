import ClassfileTypes.Proofs.Reading
import Mathlib.Data.Nat.Init

/-!
# Reading declarations refines its plain version

The rules for type parameters, methods and classes, and from them the rule for
each thing that a text can be read as, at any place in the text.
-/

namespace ClassfileTypes

namespace Pool

open Grammar TypeTree

variable {canonical : Prop} {p : Pool}

theorem refines_classType (s : List Char) :
    Refines canonical (ReadTagged canonical) p (Grammar.classType s) (Grammar.classType s) := by
  unfold Grammar.classType
  split
  · rename_i r
    apply Refines.bind (refines_segments p .topLevel .topLevel (.leaf rfl rfl trivial rfl) r)
    intro q c c' _ hc _
    exact Refines.pure hc.after
  · exact Refines.throw

theorem refines_typeSignature (s : List Char) :
    Refines canonical (ReadTagged canonical) p (Grammar.typeSignature s)
      (Grammar.typeSignature s) := by
  unfold Grammar.typeSignature
  split
  · exact Refines.pure ⟨.leaf rfl rfl trivial rfl, rfl⟩
  · exact refines_value p _ _

/-! ## Type parameters -/

theorem refines_interfaceBounds (p : Pool) (s : List Char) :
    Refines canonical (ReadTagged canonical) p (interfaceBounds s) (interfaceBounds s) := by
  rw [interfaceBounds.eq_def (m := PoolM), interfaceBounds.eq_def (m := Id)]
  split
  · rename_i r
    apply Refines.bind (refines_reference p r)
    rintro q ⟨t, r₁, h₁⟩ ⟨t', r₁', h₁'⟩ - ⟨ht, hrest⟩ -
    obtain rfl : r₁ = r₁' := hrest
    have hshorter : r₁.length < (':' :: r).length := Nat.lt_succ_of_lt h₁
    apply Refines.holding_bind ht (refines_interfaceBounds (q.hold t) r₁)
    rintro q' ⟨ts, r₂, h₂⟩ ⟨ts', r₂', h₂'⟩ - ht ⟨hts, hrest⟩
    obtain rfl : r₂ = r₂' := hrest
    exact Refines.pure ⟨.cons ht hts, rfl⟩
  · exact Refines.pure ⟨.nil, rfl⟩
termination_by s.length
decreasing_by
  subst_vars
  exact hshorter

theorem refines_optionalClassBound (s : List Char) :
    Refines canonical (ReadTagged canonical) p (optionalClassBound s) (optionalClassBound s) := by
  unfold optionalClassBound
  split
  · exact Refines.pure ⟨.leaf rfl rfl trivial rfl, rfl⟩
  · rename_i c r
    split_ifs with hc
    · apply Refines.bind (refines_reference p (c :: r))
      intro q t t' _ ht _
      exact Refines.pure (ht.wrap Tagged.boundedBy).after
    · exact Refines.pure ⟨.leaf rfl rfl trivial rfl, rfl⟩

theorem refines_typeParameter (p : Pool) (s : List Char) :
    Refines canonical (ReadTagged canonical) p (Grammar.typeParameter s)
      (Grammar.typeParameter s) := by
  by_cases h : ∃ r, since [':', '>'] s = ':' :: r
  · obtain ⟨r, h⟩ := h
    rw [typeParameter_of_since h, typeParameter_of_since h]
    apply Refines.bind (refines_optionalClassBound r)
    rintro q ⟨c, r₁, h₁⟩ ⟨c', r₁', h₁'⟩ - ⟨hc, hrest⟩ -
    obtain rfl : r₁ = r₁' := hrest
    apply Refines.holding_bind hc (refines_interfaceBounds (q.hold c) r₁)
    rintro q' ⟨is, r₂, h₂⟩ ⟨is', r₂', h₂'⟩ - hc ⟨his, hrest⟩
    obtain rfl : r₂ = r₂' := hrest
    apply Refines.bind (Refines.build _ _ (refines_makeTypeParameter _ hc his))
    intro q'' x x' _ hx _
    exact Refines.pure ⟨hx, rfl⟩
  · rw [typeParameter_of_not_since (not_exists.mp h), typeParameter_of_not_since (not_exists.mp h)]
    exact Refines.throw

theorem refines_optionalTypeParameters (s : List Char) :
    Refines canonical (ReadTagged canonical) p (optionalTypeParameters s)
      (optionalTypeParameters s) := by
  unfold optionalTypeParameters
  split
  · exact Refines.throw
  · rename_i r _
    apply Refines.bind (refines_someEntriesUntil '>' (fun s q => refines_typeParameter q s) r)
    intro q ps ps' _ hps _
    exact Refines.pure hps.after.after
  · exact Refines.pure ⟨.nil, rfl⟩

/-! ## Methods -/

theorem refines_throwsType (p : Pool) (s : List Char) :
    Refines canonical (ReadTagged canonical) p (throwsType s) (throwsType s) := by
  unfold throwsType
  split
  · rename_i r
    apply Refines.bind (refines_segments p .topLevel .topLevel (.leaf rfl rfl trivial rfl) r)
    intro q c c' _ hc _
    exact Refines.pure (hc.wrap Tagged.throwsClass).after
  · apply Refines.bind (refines_variableName _)
    intro q v v' _ hv _
    exact Refines.pure (hv.wrap Tagged.throwsVariable).after
  · exact Refines.throw

theorem refines_throwsTypes (p : Pool) (s : List Char) :
    Refines canonical (ReadTagged canonical) p (throwsTypes s) (throwsTypes s) := by
  rw [throwsTypes.eq_def (m := PoolM), throwsTypes.eq_def (m := Id)]
  split
  · rename_i r
    apply Refines.bind (refines_throwsType p r)
    rintro q ⟨t, r₁, h₁⟩ ⟨t', r₁', h₁'⟩ - ⟨ht, hrest⟩ -
    obtain rfl : r₁ = r₁' := hrest
    have hshorter : r₁.length < ('^' :: r).length := Nat.lt_succ_of_lt h₁
    apply Refines.holding_bind ht (refines_throwsTypes (q.hold t) r₁)
    rintro q' ⟨ts, r₂, h₂⟩ ⟨ts', r₂', h₂'⟩ - ht ⟨hts, hrest⟩
    obtain rfl : r₂ = r₂' := hrest
    exact Refines.pure ⟨.cons ht hts, rfl⟩
  · exact Refines.pure ⟨.nil, rfl⟩
termination_by s.length
decreasing_by
  subst_vars
  exact hshorter

theorem refines_methodSignature (s : List Char) :
    Refines canonical (ReadTagged canonical) p (Grammar.methodSignature s)
      (Grammar.methodSignature s) := by
  unfold Grammar.methodSignature
  apply Refines.bind (refines_optionalTypeParameters s)
  rintro q ⟨ts, r, h⟩ ⟨ts', r', h'⟩ - ⟨hts, hrest⟩ -
  obtain rfl : r = r' := hrest
  dsimp only
  split
  · rename_i r h
    apply Refines.held hts.good
    apply Refines.bind
      (refines_entriesUntil _ ')' r fun s' q' _ => refines_value q' .valueType s')
    rintro q₁ ⟨ps, r₁, h₁⟩ ⟨ps', r₁', h₁'⟩ hext ⟨hps, hrest⟩ -
    obtain rfl : r₁ = r₁' := hrest
    have hts₁ := hext.holds hts.good.holds_hold
    apply Refines.held hps.good
    apply Refines.bind (refines_typeSignature r₁)
    rintro q₂ ⟨t, r₂, h₂⟩ ⟨t', r₂', h₂'⟩ hext₂ ⟨ht, hrest⟩ -
    obtain rfl : r₂ = r₂' := hrest
    have hts₂ := hext₂.holds hts₁.hold
    have hps₂ := hext₂.holds hps.good.holds_hold
    apply Refines.holding_bind ht (refines_throwsTypes (q₂.hold t) r₂)
    rintro q₃ ⟨es, r₃, h₃⟩ ⟨es', r₃', h₃'⟩ hext₃ ht₃ ⟨hes, hrest⟩
    obtain rfl : r₃ = r₃' := hrest
    have hts₃ := hext₃.holds hts₂
    have hps₃ := hext₃.holds hps₂
    apply Refines.bind
      (Refines.build _ _ (refines_makeMethodSignature ⟨hts₃.good, hts.plain⟩
        ⟨hps₃.good, hps.plain⟩ ht₃ hes))
    intro q₄ d d' _ hd _
    exact Refines.pure ⟨hd, rfl⟩
  · exact Refines.throw

/-! ## Classes -/

theorem refines_interfaces (p : Pool) (s : List Char) :
    Refines canonical (ReadTagged canonical) p (interfaces s) (interfaces s) := by
  rw [interfaces.eq_def (m := PoolM), interfaces.eq_def (m := Id)]
  split
  · rename_i r
    apply Refines.bind (refines_segments p .topLevel .topLevel (.leaf rfl rfl trivial rfl) r)
    rintro q ⟨c, r₁, h₁⟩ ⟨c', r₁', h₁'⟩ - ⟨hc, hrest⟩ -
    obtain rfl : r₁ = r₁' := hrest
    have hshorter : r₁.length < ('L' :: r).length := Nat.lt_succ_of_lt h₁
    apply Refines.holding_bind hc (refines_interfaces (q.hold c) r₁)
    rintro q' ⟨cs, r₂, h₂⟩ ⟨cs', r₂', h₂'⟩ - hc ⟨hcs, hrest⟩
    obtain rfl : r₂ = r₂' := hrest
    exact Refines.pure ⟨.cons hc hcs, rfl⟩
  · exact Refines.pure ⟨.nil, rfl⟩
termination_by s.length
decreasing_by
  subst_vars
  exact hshorter

theorem refines_classSignature (s : List Char) :
    Refines canonical (ReadTagged canonical) p (Grammar.classSignature s)
      (Grammar.classSignature s) := by
  unfold Grammar.classSignature
  apply Refines.bind (refines_optionalTypeParameters s)
  rintro q ⟨ts, r, h⟩ ⟨ts', r', h'⟩ - ⟨hts, hrest⟩ -
  obtain rfl : r = r' := hrest
  apply Refines.held hts.good
  apply Refines.bind (refines_classType r)
  rintro q₁ ⟨c, r₁, h₁⟩ ⟨c', r₁', h₁'⟩ hext ⟨hc, hrest⟩ -
  obtain rfl : r₁ = r₁' := hrest
  have hts₁ := hext.holds hts.good.holds_hold
  apply Refines.holding_bind hc (refines_interfaces (q₁.hold c) r₁)
  rintro q₂ ⟨is, r₂, h₂⟩ ⟨is', r₂', h₂'⟩ hext₂ hc₂ ⟨his, hrest⟩
  obtain rfl : r₂ = r₂' := hrest
  have hts₂ := hext₂.holds hts₁
  apply Refines.bind (Refines.lift (runs_classSignature ⟨hts₂.good, hts.plain⟩ hc₂ his))
  intro q₃ d d' _ hd _
  exact Refines.pure ⟨hd, rfl⟩

/-! ## Any text, from any place in it -/

/-- **One rule after another.** Whatever a text is read as, the pool does not show. -/
theorem refines_rule (k : Start) (s : List Char) :
    Refines canonical (ReadTagged canonical) p (rule k s) (rule k s) := by
  cases k with
  | typeDescriptor => exact refines_typeDescriptor s
  | classDescriptor => exact refines_classDescriptor s
  | methodDescriptor => exact refines_methodDescriptor s
  | typeSignature => exact refines_typeSignature s
  | referenceType => exact refines_reference p s
  | classType => exact refines_classType s
  | methodSignature => exact refines_methodSignature s
  | classSignature => exact refines_classSignature s
  | typeParameter => exact refines_typeParameter p s
  | typeArgument => exact refines_argument p s

/-- The same tree and the same offset after it. -/
structure EndTagged (canonical : Prop) {f : Form} (p : Pool) (x : TypeTree Nat f × Nat)
    (y : TypeTree Unit f × Nat) : Prop where
  tree : Tagged canonical p x.1 y.1
  stop : x.2 = y.2

theorem refines_readAt (k : Start) (text : String) (start : Nat) :
    Refines canonical (EndTagged canonical) p (readAt k text start) (readAt k text start) := by
  unfold readAt
  dsimp only
  cases Text.dropBytes? text.toList start with
  | none => exact Refines.throw
  | some s =>
      apply Refines.bind (Refines.adapt _ (refines_rule k s))
      rintro q ⟨t, r, h⟩ ⟨t', r', h'⟩ - ⟨ht, hrest⟩ -
      obtain rfl : r = r' := hrest
      exact Refines.pure ⟨ht, rfl⟩

end Pool

end ClassfileTypes
