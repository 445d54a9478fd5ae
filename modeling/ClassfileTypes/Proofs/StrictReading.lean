import ClassfileTypes.Proofs.Parsing
import ClassfileTypes.Proofs.StrictPool

/-!
# A strict pool accepts what parsing asks for

The rules of the grammar make trees by the checked constructions, or of kinds that have
no rule of their own. So a text is read in a strict pool as it is without one. The rules
for signatures call each other, and so do the theorems, with the same measure.
-/

namespace ClassfileTypes

namespace Grammar

open TypeTree

variable {f g : Form} {n : Nat}

/-- What was read is well formed. -/
def ReadsWell (x : Read (TypeTree Unit f) n) : Prop :=
  x.value.WellFormed

/-- The strict pool accepts what a rule asks for, and what it reads is well formed. -/
abbrev Parses (x : Reading StrictM (TypeTree Unit f) n) (y : Reading Id (TypeTree Unit f) n) :
    Prop :=
  Accepts ReadsWell x y

theorem parses_nameUntilEnd {make : String → ExceptT TypeError StrictM (TypeTree Unit f)}
    {make' : String → ExceptT TypeError Id (TypeTree Unit f)}
    (hmake : ∀ n, Accepts WellFormed (make n) (make' n)) (s : List Char) :
    Parses (nameUntilEnd make s) (nameUntilEnd make' s) := by
  rcases since_eq [';'] s with h | ⟨c, r, h, hc⟩
  · rw [nameUntilEnd_of_end h, nameUntilEnd_of_end h]
    exact .throw
  · obtain rfl := List.mem_singleton.mp hc
    rw [nameUntilEnd_of_since h, nameUntilEnd_of_since h]
    apply (hmake _).adapt.bind
    intro x hx _
    exact .pure hx

theorem parses_entriesUntil (close : Char)
    {entry : (s : List Char) → Reading StrictM (TypeTree Unit f) s.length}
    {entry' : (s : List Char) → Reading Id (TypeTree Unit f) s.length} (s : List Char)
    (hentry : ∀ s' : List Char, s'.length ≤ s.length → Parses (entry s') (entry' s')) :
    Parses (entriesUntil close entry s) (entriesUntil close entry' s) := by
  match s with
  | [] =>
      rw [entriesUntil, entriesUntil]
      exact .throw
  | c :: r =>
      rw [entriesUntil, entriesUntil]
      split_ifs with hc
      · exact .pure trivial
      · apply (hentry (c :: r) (Nat.le_refl _)).bind
        rintro ⟨x, r₁, h₁⟩ hx -
        have hshorter := parses_entriesUntil close r₁ fun s' hs' => hentry s' (by omega)
        apply Accepts.bind hshorter
        rintro ⟨xs, r₂, h₂⟩ hxs -
        exact .pure ⟨hx, hxs⟩
termination_by s.length
decreasing_by exact h₁

theorem parses_someEntriesUntil (close : Char)
    {entry : (s : List Char) → Reading StrictM (TypeTree Unit f) s.length}
    {entry' : (s : List Char) → Reading Id (TypeTree Unit f) s.length}
    (hentry : ∀ s : List Char, Parses (entry s) (entry' s)) (s : List Char) :
    Parses (someEntriesUntil close entry s) (someEntriesUntil close entry' s) := by
  unfold someEntriesUntil
  apply (hentry s).bind
  rintro ⟨x, r₁, h₁⟩ hx -
  apply Accepts.bind (parses_entriesUntil close r₁ fun s' _ => hentry s')
  rintro ⟨xs, r₂, h₂⟩ hxs -
  exact .pure ⟨hx, hxs⟩

/-! ## Descriptors -/

theorem parses_classDescriptorName (s : List Char) :
    Parses (classDescriptorName s) (classDescriptorName s) :=
  parses_nameUntilEnd accepts_makeClassDescriptor s

theorem parses_classDescriptor (s : List Char) :
    Parses (Grammar.classDescriptor s) (Grammar.classDescriptor s) := by
  unfold Grammar.classDescriptor
  split
  · exact (parses_classDescriptorName _).bind fun _ hx _ => .pure hx
  · exact .throw

theorem parses_valueDescriptor (e : Expected) (s : List Char) :
    Parses (valueDescriptor e s) (valueDescriptor e s) := by
  rw [valueDescriptor.eq_def (m := StrictM), valueDescriptor.eq_def (m := Id)]
  split
  · exact .throw
  · exact (parses_classDescriptorName _).bind fun _ hx _ => .pure hx
  · rename_i r
    have hshorter : (sinceDimensions r).length < ('[' :: r).length :=
      Nat.lt_succ_of_le (length_sinceDimensions_le r)
    apply (parses_valueDescriptor .valueType (sinceDimensions r)).bind
    rintro ⟨b, r₁, h₁⟩ hb -
    exact (accepts_makeArrayDescriptor _ hb).adapt.bind fun _ ha _ => .pure ha
  · split
    · exact .pure trivial
    · exact .throw
termination_by s.length
decreasing_by
  subst_vars
  exact hshorter

theorem parses_typeDescriptor (s : List Char) :
    Parses (Grammar.typeDescriptor s) (Grammar.typeDescriptor s) := by
  unfold Grammar.typeDescriptor
  split
  · exact .pure trivial
  · exact parses_valueDescriptor _ _

theorem parses_methodDescriptor (s : List Char) :
    Parses (Grammar.methodDescriptor s) (Grammar.methodDescriptor s) := by
  unfold Grammar.methodDescriptor
  split
  · rename_i r
    apply (parses_entriesUntil ')' r fun s' _ => parses_valueDescriptor .valueType s').bind
    rintro ⟨ps, r₁, h₁⟩ hps -
    apply Accepts.bind (parses_typeDescriptor r₁)
    rintro ⟨t, r₂, h₂⟩ ht -
    exact (accepts_makeMethodDescriptor hps ht).adapt.bind fun _ hd _ => .pure hd
  · exact .throw

/-! ## Signatures -/

theorem parses_variableName (s : List Char) : Parses (variableName s) (variableName s) :=
  parses_nameUntilEnd accepts_makeFreeVariable s

mutual

theorem parses_value (e : Expected) (s : List Char) : Parses (value e s) (value e s) := by
  match s with
  | [] =>
      rw [value, value]
      exact .throw
  | c :: r =>
      rw [value, value]
      cases Primitive.ofCode? c with
      | some k => exact .pure trivial
      | none =>
          show Parses (if c = 'L' ∨ c = '[' ∨ c = 'T' then _ else _)
            (if c = 'L' ∨ c = '[' ∨ c = 'T' then _ else _)
          split_ifs with hc
          · exact (parses_reference (c :: r)).bind fun _ ht _ => .pure ht
          · exact .throw
termination_by (s.length, 2)

theorem parses_reference (s : List Char) : Parses (reference s) (reference s) := by
  rw [reference.eq_def (m := StrictM), reference.eq_def (m := Id)]
  split
  · rename_i r
    have hshorter : r.length < ('L' :: r).length := Nat.lt_succ_self _
    exact (parses_segments .topLevel trivial r).bind fun _ hc _ => .pure hc
  · rename_i r
    have hshorter : (sinceDimensions r).length < ('[' :: r).length :=
      Nat.lt_succ_of_le (length_sinceDimensions_le r)
    apply (parses_value .valueType (sinceDimensions r)).bind
    rintro ⟨b, r₁, h₁⟩ hb -
    exact (accepts_makeArrayType _ hb).adapt.bind fun _ ha _ => .pure ha
  · exact (parses_variableName _).bind fun _ hv _ => .pure hv
  · exact .throw
termination_by (s.length, 1)
decreasing_by all_goals subst_vars; exact Prod.Lex.left _ _ hshorter

theorem parses_segments (o : TypeTree Unit .enclosing) (ho : o.WellFormed) (s : List Char) :
    Parses (segments o s) (segments o s) := by
  have hle := length_since_le ['<', '.', ';'] s
  rw [segments, segments]
  split_ifs with hempty
  · exact .throw
  · apply Accepts.bind (parses_optionalArguments _)
    rintro ⟨as, r₁, h₁⟩ has -
    apply (accepts_makeClassType _ ho has).adapt.bind
    intro c hc hrun
    dsimp only
    split
    · rename_i r₂
      have hshorter : r₂.length < s.length := by
        rw [List.length_cons] at h₁
        omega
      apply (parses_segments (.nestedIn c) hc r₂).bind
      rintro ⟨d, r₃, h₃⟩ hd -
      exact .pure hd
    · exact .pure hc
    · exact .throw
termination_by (s.length, 1)
decreasing_by
  · exact Prod.Lex.right' _ hle (by omega)
  · exact Prod.Lex.left _ _ hshorter

theorem parses_optionalArguments (s : List Char) :
    Parses (optionalArguments s) (optionalArguments s) := by
  rw [optionalArguments.eq_def (m := StrictM), optionalArguments.eq_def (m := Id)]
  split
  · exact .throw
  · rename_i r _
    have hshorter : r.length < ('<' :: r).length := Nat.lt_succ_self _
    exact (parses_arguments r).bind fun _ has _ => .pure has
  · exact .pure trivial
termination_by (s.length, 0)
decreasing_by subst_vars; exact Prod.Lex.left _ _ hshorter

theorem parses_arguments (s : List Char) : Parses (arguments s) (arguments s) := by
  rw [arguments, arguments]
  apply (parses_argument s).bind
  rintro ⟨a, r₁, h₁⟩ ha -
  dsimp only
  split
  · exact .throw
  · exact .pure ⟨ha, trivial⟩
  · rename_i c r _
    have hshorter : (c :: r).length < s.length := h₁
    apply Accepts.bind (parses_arguments (c :: r))
    rintro ⟨as, r₂, h₂⟩ has -
    exact .pure ⟨ha, has⟩
termination_by (s.length, 3)
decreasing_by
  · exact Prod.Lex.right _ (by omega)
  · exact Prod.Lex.left _ _ hshorter

theorem parses_argument (s : List Char) : Parses (argument s) (argument s) := by
  rw [argument.eq_def (m := StrictM), argument.eq_def (m := Id)]
  split
  · exact .throw
  · exact .pure trivial
  · rename_i c r _
    have hshorter : r.length < (c :: r).length := Nat.lt_succ_self _
    cases Direction.ofCode? c with
    | some d =>
        apply (parses_reference r).bind
        rintro t ht -
        exact Accepts.bind (.intern ht) fun _ hb _ => .pure hb
    | none =>
        show Parses (if c = 'L' ∨ c = '[' ∨ c = 'T' then _ else _)
          (if c = 'L' ∨ c = '[' ∨ c = 'T' then _ else _)
        split_ifs with hc
        · exact (parses_reference (c :: r)).bind fun _ ht _ => .pure ht
        · exact .throw
termination_by (s.length, 2)
decreasing_by
  · subst_vars; exact Prod.Lex.right _ (by omega)
  · subst_vars; exact Prod.Lex.left _ _ hshorter

end

theorem parses_classType (s : List Char) :
    Parses (Grammar.classType s) (Grammar.classType s) := by
  unfold Grammar.classType
  split
  · rename_i r
    exact (parses_segments .topLevel trivial r).bind fun _ hc _ => .pure hc
  · exact .throw

theorem parses_typeSignature (s : List Char) :
    Parses (Grammar.typeSignature s) (Grammar.typeSignature s) := by
  unfold Grammar.typeSignature
  split
  · exact .pure trivial
  · exact parses_value _ _

/-! ## Declarations -/

theorem parses_interfaceBounds (s : List Char) :
    Parses (interfaceBounds s) (interfaceBounds s) := by
  rw [interfaceBounds.eq_def (m := StrictM), interfaceBounds.eq_def (m := Id)]
  split
  · rename_i r
    apply (parses_reference r).bind
    rintro ⟨t, r₁, h₁⟩ ht -
    have hshorter : r₁.length < (':' :: r).length := Nat.lt_succ_of_lt h₁
    apply Accepts.bind (parses_interfaceBounds r₁)
    rintro ⟨ts, r₂, h₂⟩ hts -
    exact .pure ⟨ht, hts⟩
  · exact .pure trivial
termination_by s.length
decreasing_by
  subst_vars
  exact hshorter

theorem parses_optionalClassBound (s : List Char) :
    Parses (optionalClassBound s) (optionalClassBound s) := by
  unfold optionalClassBound
  split
  · exact .pure trivial
  · rename_i c r
    split_ifs with hc
    · exact (parses_reference (c :: r)).bind fun _ ht _ => .pure ht
    · exact .pure trivial

theorem parses_typeParameter (s : List Char) :
    Parses (Grammar.typeParameter s) (Grammar.typeParameter s) := by
  by_cases h : ∃ r, since [':', '>'] s = ':' :: r
  · obtain ⟨r, h⟩ := h
    rw [typeParameter_of_since h, typeParameter_of_since h]
    apply (parses_optionalClassBound r).bind
    rintro ⟨c, r₁, h₁⟩ hc -
    apply Accepts.bind (parses_interfaceBounds r₁)
    rintro ⟨is, r₂, h₂⟩ his -
    exact (accepts_makeTypeParameter _ hc his).adapt.bind fun _ hx _ => .pure hx
  · rw [typeParameter_of_not_since (not_exists.mp h), typeParameter_of_not_since (not_exists.mp h)]
    exact .throw

theorem parses_optionalTypeParameters (s : List Char) :
    Parses (optionalTypeParameters s) (optionalTypeParameters s) := by
  unfold optionalTypeParameters
  split
  · exact .throw
  · rename_i r _
    exact (parses_someEntriesUntil '>' parses_typeParameter r).bind fun _ hps _ => .pure hps
  · exact .pure trivial

theorem parses_throwsType (s : List Char) : Parses (throwsType s) (throwsType s) := by
  unfold throwsType
  split
  · rename_i r
    exact (parses_segments .topLevel trivial r).bind fun _ hc _ => .pure hc
  · exact (parses_variableName _).bind fun _ hv _ => .pure hv
  · exact .throw

theorem parses_throwsTypes (s : List Char) : Parses (throwsTypes s) (throwsTypes s) := by
  rw [throwsTypes.eq_def (m := StrictM), throwsTypes.eq_def (m := Id)]
  split
  · rename_i r
    apply (parses_throwsType r).bind
    rintro ⟨t, r₁, h₁⟩ ht -
    have hshorter : r₁.length < ('^' :: r).length := Nat.lt_succ_of_lt h₁
    apply Accepts.bind (parses_throwsTypes r₁)
    rintro ⟨ts, r₂, h₂⟩ hts -
    exact .pure ⟨ht, hts⟩
  · exact .pure trivial
termination_by s.length
decreasing_by
  subst_vars
  exact hshorter

theorem parses_methodSignature (s : List Char) :
    Parses (Grammar.methodSignature s) (Grammar.methodSignature s) := by
  unfold Grammar.methodSignature
  apply (parses_optionalTypeParameters s).bind
  rintro ⟨ts, r, h⟩ hts -
  dsimp only
  split
  · rename_i r h
    apply Accepts.bind (parses_entriesUntil ')' r fun s' _ => parses_value .valueType s')
    rintro ⟨ps, r₁, h₁⟩ hps -
    apply Accepts.bind (parses_typeSignature r₁)
    rintro ⟨t, r₂, h₂⟩ ht -
    apply Accepts.bind (parses_throwsTypes r₂)
    rintro ⟨es, r₃, h₃⟩ hes -
    exact (accepts_makeMethodSignature hts hps ht hes).adapt.bind fun _ hd _ => .pure hd
  · exact .throw

theorem parses_interfaces (s : List Char) : Parses (interfaces s) (interfaces s) := by
  rw [interfaces.eq_def (m := StrictM), interfaces.eq_def (m := Id)]
  split
  · rename_i r
    apply (parses_segments .topLevel trivial r).bind
    rintro ⟨c, r₁, h₁⟩ hc -
    have hshorter : r₁.length < ('L' :: r).length := Nat.lt_succ_of_lt h₁
    apply Accepts.bind (parses_interfaces r₁)
    rintro ⟨cs, r₂, h₂⟩ hcs -
    exact .pure ⟨hc, hcs⟩
  · exact .pure trivial
termination_by s.length
decreasing_by
  subst_vars
  exact hshorter

theorem parses_classSignature (s : List Char) :
    Parses (Grammar.classSignature s) (Grammar.classSignature s) := by
  unfold Grammar.classSignature
  apply (parses_optionalTypeParameters s).bind
  rintro ⟨ts, r, h⟩ hts -
  apply Accepts.bind (parses_classType r)
  rintro ⟨c, r₁, h₁⟩ hc -
  apply Accepts.bind (parses_interfaces r₁)
  rintro ⟨is, r₂, h₂⟩ his -
  exact Accepts.bind (.intern ⟨hts, hc, his⟩) fun _ hd _ => .pure hd

/-- Whatever a text is read as. -/
theorem parses_rule (k : Start) (s : List Char) : Parses (rule k s) (rule k s) := by
  cases k with
  | typeDescriptor => exact parses_typeDescriptor s
  | classDescriptor => exact parses_classDescriptor s
  | methodDescriptor => exact parses_methodDescriptor s
  | typeSignature => exact parses_typeSignature s
  | referenceType => exact parses_reference s
  | classType => exact parses_classType s
  | methodSignature => exact parses_methodSignature s
  | classSignature => exact parses_classSignature s
  | typeParameter => exact parses_typeParameter s
  | typeArgument => exact parses_argument s

end Grammar

/-! ## Whole texts -/

theorem accepts_readAt (k : Start) (text : String) (start : Nat) :
    Accepts (fun x => x.1.WellFormed) (readAt k text start) (readAt k text start) := by
  unfold readAt
  dsimp only
  cases Text.dropBytes? text.toList start with
  | none => exact .throw
  | some s =>
      apply (Grammar.parses_rule k s).adapt.bind
      rintro ⟨t, r, h⟩ ht -
      exact .pure ht

theorem lookUpClass_strict (text : String) :
    (lookUpClass text : StrictM (Option (TypeTree Unit .classType))) = some none :=
  ite_self (some none : Option (Option (TypeTree Unit .classType)))

/-- A strict pool has nothing that could be found. -/
theorem lookUp_strict (k : Start) (text : String) :
    (lookUp k text : StrictM (Option (TypeTree Unit k.form))) = some none := by
  cases k with
  | typeDescriptor => exact ite_self (some none : Option (Option (TypeTree Unit .typeDescriptor)))
  | typeSignature | referenceType | classType =>
      simp only [lookUp, lookUpClass_strict]
      rfl
  | _ => rfl

theorem parseAt_strict (k : Start) (text : String) (start : Nat) :
    (parseAt k text start : ExceptT ParseError StrictM _) = readAt k text start := by
  unfold parseAt
  rw [lookUp_strict]
  split_ifs <;> rfl

theorem accepts_parseAt (k : Start) (text : String) (start : Nat) :
    Accepts (fun x => x.1.WellFormed) (parseAt k text start) (parseAt k text start) := by
  rw [parseAt_strict, parseAt_plain]
  exact accepts_readAt k text start

theorem accepts_parse (k : Start) (text : String) :
    Accepts TypeTree.WellFormed (parse k text) (parse k text) := by
  unfold parse
  apply (accepts_parseAt k text 0).bind
  rintro ⟨t, stop⟩ ht -
  dsimp only
  split_ifs
  · exact .pure ht
  · exact .throw

end ClassfileTypes
