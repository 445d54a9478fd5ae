import ClassfileTypes.Proofs.AcceptingDeclarations

/-!
# The rules without lengths

A reading carries the proof that it is shorter than its text, so that reading comes to an
end. To compare what one rule comes to on two texts, the length is dropped: an outcome is a
value with what is left of the text, or a fault. Each rule has an equation in these terms for
each way in which it goes on.
-/

namespace ClassfileTypes.Grammar

open TypeTree

variable {α β : Type} {n k : Nat} {f : Form} {s r : List Char}

/-- What a rule comes to: a value with what is left of the text, or a fault. -/
abbrev Outcome (α : Type) : Type :=
  Except Fault (α × List Char)

/-- Goes on with the value and what is left. -/
def Outcome.andThen (x : Outcome α) (F : α → List Char → Outcome β) : Outcome β :=
  match x with
  | .ok (a, r) => F a r
  | .error e => .error e

/-- What a reading comes to without a pool. -/
def outcome (x : Reading Id α n) : Outcome α :=
  x.run.map fun r => (r.value, r.rest)

/-- Goes on with what is constructed. A refusal is a fault of the first `extent` bytes of
`rest`. -/
def building (rest : List Char) (extent : Nat) (x : ExceptT TypeError Id α)
    (F : α → Outcome β) : Outcome β :=
  match x.run with
  | .ok a => F a
  | .error e => .error (.invalid rest extent e)

theorem outcome_eq_ok_iff {x : Reading Id α n} {a : α} :
    outcome x = .ok (a, r) ↔ Gives x a r := by
  unfold outcome Gives
  cases x.run with
  | ok v =>
      obtain ⟨b, w, h⟩ := v
      constructor
      · intro heq
        obtain ⟨rfl, rfl⟩ := Prod.mk.inj (Except.ok.inj heq)
        exact ⟨h, rfl⟩
      · rintro ⟨h', heq⟩
        obtain ⟨rfl, rfl⟩ := Read.mk.inj (Except.ok.inj heq)
        rfl
  | error e => exact ⟨fun heq => (nomatch heq), fun ⟨_, heq⟩ => nomatch heq⟩

/-- What is left is shorter. -/
theorem length_lt_of_outcome {x : Reading Id α n} {a : α} (h : outcome x = .ok (a, r)) :
    r.length < n :=
  (outcome_eq_ok_iff.mp h).choose

/-- Readings in sequence. -/
theorem outcome_bind {x : Reading Id α n} {g : Read α n → Reading Id β k}
    {F : α → List Char → Outcome β} (h : ∀ a r h, outcome (g ⟨a, r, h⟩) = F a r) :
    outcome (x >>= g) = (outcome x).andThen F := by
  show Except.map _ (ExceptT.bindCont g x.run : Id _) =
    Outcome.andThen (Except.map _ x.run) F
  cases x.run with
  | ok v => exact h v.value v.rest v.shorter
  | error e => rfl

/-- A step that reads nothing. -/
theorem outcome_build {x : ExceptT TypeError Id α} {g : α → Reading Id β n}
    {F : α → Outcome β} {w : List Char} {e : Nat} (h : ∀ a, outcome (g a) = F a) :
    outcome (build w e x >>= g) = building w e x F := by
  unfold building
  show Except.map _ (ExceptT.bindCont g (Except.mapError _ x.run) : Id _) = _
  cases x.run with
  | ok a => exact h a
  | error e => rfl

/-- The text does not begin with any of these characters. -/
def Avoids (l s : List Char) : Prop :=
  ∀ c ∈ s.head?, c ∉ l

theorem Avoids.head?_ne {l : List Char} {c : Char} (h : Avoids l s) (hc : c ∈ l) :
    s.head? ≠ some c :=
  fun heq => h c heq hc

/-! ## Names and lists -/

section

variable {make : String → ExceptT TypeError Id α}

theorem outcome_nameUntilEnd {name : List Char} (hname : ∀ c ∈ name, c ∉ [';'])
    (r : List Char) :
    outcome (nameUntilEnd make (name ++ ';' :: r)) =
      building (name ++ ';' :: r) (Text.byteSize name) (make (String.ofList name)) fun x =>
        .ok (x, r) := by
  have hstop : ∀ c, (';' :: r).head? = some c → c ∈ [';'] := by simp
  rw [nameUntilEnd_of_since (since_append hname hstop), before_append hname hstop]
  exact outcome_build fun _ => rfl

theorem outcome_nameUntilEnd_of_end (h : since [';'] s = []) :
    outcome (nameUntilEnd make s) = .error (.expected (.char ';') []) := by
  rw [nameUntilEnd_of_end h]
  rfl

variable {close : Char} {entry : (s : List Char) → Reading Id (TypeTree Unit f) s.length}

theorem outcome_entriesUntil_nil :
    outcome (entriesUntil close entry []) = .error (.expected (.char close) []) := by
  rw [entriesUntil]
  rfl

theorem outcome_entriesUntil_close (r : List Char) :
    outcome (entriesUntil close entry (close :: r)) = .ok (.nil, r) := by
  rw [entriesUntil, if_pos rfl]
  rfl

theorem outcome_entriesUntil_cons {c : Char} (hc : c ≠ close) (r : List Char) :
    outcome (entriesUntil close entry (c :: r)) =
      (outcome (entry (c :: r))).andThen fun x r =>
        (outcome (entriesUntil close entry r)).andThen fun xs r => .ok (.cons x xs, r) := by
  rw [entriesUntil, if_neg hc]
  exact outcome_bind fun _ _ _ => outcome_bind fun _ _ _ => rfl

theorem outcome_someEntriesUntil (s : List Char) :
    outcome (someEntriesUntil close entry s) =
      (outcome (entry s)).andThen fun x r =>
        (outcome (entriesUntil close entry r)).andThen fun xs r => .ok (.cons x xs, r) :=
  outcome_bind fun _ _ _ => outcome_bind fun _ _ _ => rfl

end

/-! ## Descriptors -/

theorem outcome_classDescriptor (r : List Char) :
    outcome (classDescriptor ('L' :: r)) =
      (outcome (classDescriptorName r)).andThen fun c r => .ok (c, r) :=
  outcome_bind fun _ _ _ => rfl

theorem outcome_classDescriptor_of_avoids (h : Avoids ['L'] s) :
    outcome (classDescriptor s) = .error (.expected .classType s) := by
  unfold classDescriptor
  split
  · exact absurd rfl (h.head?_ne (by decide))
  · rfl

/-- The letters that encode primitive types. -/
def codes : List Char :=
  Primitive.all.map Primitive.code

theorem ofCode?_of_not_mem {c : Char} (h : c ∉ codes) : Primitive.ofCode? c = none := by
  cases hcode : Primitive.ofCode? c with
  | none => rfl
  | some p =>
      obtain rfl := Primitive.code_of_ofCode? hcode
      exact absurd (List.mem_map_of_mem (by cases p <;> decide)) h

section

variable {e : Expected}

theorem outcome_valueDescriptor_class (r : List Char) :
    outcome (valueDescriptor e ('L' :: r)) =
      (outcome (classDescriptorName r)).andThen fun c r => .ok (.descClass c, r) := by
  rw [valueDescriptor]
  exact outcome_bind fun _ _ _ => rfl

theorem outcome_valueDescriptor_array (r : List Char) :
    outcome (valueDescriptor e ('[' :: r)) =
      (outcome (valueDescriptor .valueType (sinceDimensions r))).andThen fun b w =>
        building ('[' :: r) (dimensions r + 1) (makeArrayDescriptor (dimensions r + 1) b) fun a =>
          .ok (.descArray a, w) := by
  rw [valueDescriptor]
  exact outcome_bind fun _ _ _ => outcome_build fun _ => rfl

theorem outcome_valueDescriptor_primitive (p : Primitive) (r : List Char) :
    outcome (valueDescriptor e (p.code :: r)) = .ok (.descPrimitive p, r) := by
  cases p <;> (rw [valueDescriptor.eq_def]; rfl)

theorem outcome_valueDescriptor_of_avoids (h : Avoids ('L' :: '[' :: codes) s) :
    outcome (valueDescriptor e s) = .error (.expected e s) := by
  rw [valueDescriptor.eq_def]
  split
  · rfl
  · exact absurd rfl (h.head?_ne (by decide))
  · exact absurd rfl (h.head?_ne (by decide))
  · rename_i c r _ _
    have hnone : Primitive.ofCode? c = none := by
      refine ofCode?_of_not_mem fun hc => h c rfl ?_
      exact List.mem_cons_of_mem _ (List.mem_cons_of_mem _ hc)
    rw [hnone]
    rfl

end

theorem outcome_typeDescriptor_void (r : List Char) :
    outcome (typeDescriptor ('V' :: r)) = .ok (.descVoid, r) :=
  rfl

theorem typeDescriptor_of_avoids (h : Avoids ['V'] s) :
    typeDescriptor (m := Id) (ι := Unit) s = valueDescriptor .typeDescriptor s := by
  unfold typeDescriptor
  split
  · exact absurd rfl (h.head?_ne (by decide))
  · rfl

theorem outcome_methodDescriptor (r : List Char) :
    outcome (methodDescriptor ('(' :: r)) =
      (outcome (entriesUntil ')' (valueDescriptor .valueType) r)).andThen fun ps r₁ =>
        (outcome (typeDescriptor r₁)).andThen fun t r₂ =>
          building ('(' :: r) (Text.byteSize ('(' :: r) - Text.byteSize r₂)
            (makeMethodDescriptor ps t) fun d => .ok (d, r₂) :=
  outcome_bind fun _ _ _ => outcome_bind fun _ _ _ => outcome_build fun _ => rfl

theorem outcome_methodDescriptor_of_avoids (h : Avoids ['('] s) :
    outcome (methodDescriptor s) = .error (.expected (.char '(') s) := by
  unfold methodDescriptor
  split
  · exact absurd rfl (h.head?_ne (by decide))
  · rfl

/-! ## Types -/

/-- The letters that a class, an array or a type variable begins with. -/
def openings : List Char :=
  ['L', '[', 'T']

section

variable {e : Expected} {c : Char}

theorem outcome_value_primitive (p : Primitive) (r : List Char) :
    outcome (value e (p.code :: r)) = .ok (.sigPrimitive p, r) := by
  cases p <;> (rw [value]; rfl)

theorem outcome_value_reference (hc : c ∈ openings) (r : List Char) :
    outcome (value e (c :: r)) =
      (outcome (reference (c :: r))).andThen fun t r => .ok (.sigReference t, r) := by
  have hnone : Primitive.ofCode? c = none := by
    simp only [openings, List.mem_cons, List.not_mem_nil, or_false] at hc
    rcases hc with rfl | rfl | rfl <;> rfl
  rw [value, hnone]
  show outcome (if c = 'L' ∨ c = '[' ∨ c = 'T' then _ else _) = _
  rw [if_pos (by simpa [openings] using hc)]
  exact outcome_bind fun _ _ _ => rfl

theorem outcome_value_of_avoids (h : Avoids (openings ++ codes) s) :
    outcome (value e s) = .error (.expected e s) := by
  cases s with
  | nil =>
      rw [value]
      rfl
  | cons c r =>
      have hc := h c rfl
      rw [List.mem_append, not_or] at hc
      rw [value, ofCode?_of_not_mem hc.2]
      show outcome (if c = 'L' ∨ c = '[' ∨ c = 'T' then _ else _) = _
      rw [if_neg (by simpa [openings] using hc.1)]
      rfl

end

theorem outcome_reference_class (r : List Char) :
    outcome (reference ('L' :: r)) =
      (outcome (segments .topLevel r)).andThen fun c r => .ok (.refClass c, r) := by
  rw [reference]
  exact outcome_bind fun _ _ _ => rfl

theorem outcome_reference_array (r : List Char) :
    outcome (reference ('[' :: r)) =
      (outcome (value .valueType (sinceDimensions r))).andThen fun b w =>
        building ('[' :: r) (dimensions r + 1) (makeArrayType (dimensions r + 1) b) fun a =>
          .ok (.refArray a, w) := by
  rw [reference]
  exact outcome_bind fun _ _ _ => outcome_build fun _ => rfl

theorem outcome_reference_variable (r : List Char) :
    outcome (reference ('T' :: r)) =
      (outcome (variableName r)).andThen fun v r => .ok (.refVariable v, r) := by
  rw [reference]
  exact outcome_bind fun _ _ _ => rfl

theorem outcome_reference_of_avoids (h : Avoids openings s) :
    outcome (reference s) = .error (.expected .referenceType s) := by
  rw [reference.eq_def]
  split
  · exact absurd rfl (h.head?_ne (by decide))
  · exact absurd rfl (h.head?_ne (by decide))
  · exact absurd rfl (h.head?_ne (by decide))
  · rfl

/-- What follows a segment: a segment inside it, or the end of the class. -/
def segmentEnd (c : TypeTree Unit .classType) : List Char → Outcome (TypeTree Unit .classType)
  | '.' :: r => (outcome (segments (.nestedIn c) r)).andThen fun c r => .ok (c, r)
  | ';' :: r => .ok (c, r)
  | r => .error (.expected (.char ';') r)

theorem segmentEnd_of_avoids {c : TypeTree Unit .classType} (h : Avoids ['.', ';'] s) :
    segmentEnd c s = .error (.expected (.char ';') s) := by
  unfold segmentEnd
  split
  · exact absurd rfl (h.head?_ne (by decide))
  · exact absurd rfl (h.head?_ne (by decide))
  · rfl

theorem outcome_segments_of_since {o : TypeTree Unit .enclosing}
    (hs : since ['<', '.', ';'] s ≠ []) :
    outcome (segments o s) =
      (outcome (optionalArguments (since ['<', '.', ';'] s))).andThen fun as w =>
        building s (Text.byteSize (before ['<', '.', ';'] s))
          (makeClassType o (String.ofList (before ['<', '.', ';'] s)) as) fun d =>
            segmentEnd d w := by
  rw [segments]
  split_ifs with hempty
  · exact absurd (List.isEmpty_iff.mp hempty) hs
  · refine outcome_bind fun as w h => outcome_build fun d => ?_
    dsimp only
    split
    · exact outcome_bind fun _ _ _ => rfl
    · rfl
    · rename_i hdot hend
      unfold segmentEnd
      split
      · exact absurd rfl (hdot _)
      · exact absurd rfl (hend _)
      · rfl

theorem outcome_segments {o : TypeTree Unit .enclosing} {name : List Char}
    (hname : ∀ c ∈ name, c ∉ ['<', '.', ';']) {c : Char} (hc : c ∈ ['<', '.', ';'])
    (r : List Char) :
    outcome (segments o (name ++ c :: r)) =
      (outcome (optionalArguments (c :: r))).andThen fun as w =>
        building (name ++ c :: r) (Text.byteSize name)
          (makeClassType o (String.ofList name) as) fun d => segmentEnd d w := by
  have hstop : ∀ d, (c :: r).head? = some d → d ∈ ['<', '.', ';'] := by
    intro d hd
    obtain rfl := Option.some.inj hd
    exact hc
  have hsince := since_append hname hstop
  rw [outcome_segments_of_since (by simp [hsince]), hsince, before_append hname hstop]

theorem outcome_segments_of_end {o : TypeTree Unit .enclosing}
    (hs : since ['<', '.', ';'] s = []) :
    outcome (segments o s) = .error (.expected (.char ';') []) := by
  rw [segments]
  split_ifs with hempty
  · rw [hs]
    rfl
  · exact absurd (List.isEmpty_iff.mpr hs) hempty

theorem outcome_optionalArguments_empty (r : List Char) :
    outcome (optionalArguments ('<' :: '>' :: r)) = .error (.emptyList ('<' :: '>' :: r)) := by
  rw [optionalArguments]
  rfl

theorem outcome_optionalArguments (hr : Avoids ['>'] r) :
    outcome (optionalArguments ('<' :: r)) =
      (outcome (arguments r)).andThen fun as r => .ok (as, r) := by
  rw [optionalArguments]
  · exact outcome_bind fun _ _ _ => rfl
  · intro w hw
    exact absurd (congrArg List.head? hw) (hr.head?_ne (by decide))

theorem outcome_optionalArguments_of_avoids (h : Avoids ['<'] s) :
    outcome (optionalArguments s) = .ok (.nil, s) := by
  rw [optionalArguments.eq_def]
  split
  · exact absurd rfl (h.head?_ne (by decide))
  · exact absurd rfl (h.head?_ne (by decide))
  · rfl

/-- What follows an argument: the end of the list, or more arguments. -/
def argumentEnd (a : TypeTree Unit .typeArgument) :
    List Char → Outcome (TypeTree Unit (.list .typeArgument))
  | [] => .error (.expected (.char '>') [])
  | '>' :: r => .ok (.cons a .nil, r)
  | c :: r => (outcome (arguments (c :: r))).andThen fun as r => .ok (.cons a as, r)

theorem argumentEnd_of_ne {a : TypeTree Unit .typeArgument} {c : Char} (hc : c ≠ '>')
    (r : List Char) :
    argumentEnd a (c :: r) =
      (outcome (arguments (c :: r))).andThen fun as r => .ok (.cons a as, r) := by
  rw [argumentEnd]
  simpa using hc

theorem outcome_arguments (s : List Char) :
    outcome (arguments s) = (outcome (argument s)).andThen argumentEnd := by
  rw [arguments]
  refine outcome_bind fun a r h => ?_
  dsimp only
  split
  · rfl
  · rfl
  · rename_i hclose
    unfold argumentEnd
    split
    · rename_i heq
      exact absurd heq (List.cons_ne_nil _ _)
    · rename_i heq
      exact (hclose (List.cons.inj heq).1).elim
    · rename_i heq
      obtain ⟨rfl, rfl⟩ := List.cons.inj heq
      exact outcome_bind fun _ _ _ => rfl

theorem outcome_argument_wildcard (r : List Char) :
    outcome (argument ('*' :: r)) = .ok (.wildcard, r) := by
  rw [argument]
  rfl

theorem outcome_argument_bounded (d : Direction) (r : List Char) :
    outcome (argument (d.code :: r)) =
      (outcome (reference r)).andThen fun t r =>
        .ok (.argBounded (.boundedArgument () d t), r) := by
  cases d <;>
  · rw [argument.eq_def]
    exact outcome_bind fun _ _ _ => rfl

theorem outcome_argument_reference {c : Char} (hc : c ∈ openings) (r : List Char) :
    outcome (argument (c :: r)) =
      (outcome (reference (c :: r))).andThen fun t r => .ok (.argReference t, r) := by
  simp only [openings, List.mem_cons, List.not_mem_nil, or_false] at hc
  rcases hc with rfl | rfl | rfl <;>
  · rw [argument.eq_def]
    exact outcome_bind fun _ _ _ => rfl

theorem outcome_argument_of_avoids (h : Avoids ('*' :: '+' :: '-' :: openings) s) :
    outcome (argument s) = .error (.expected .typeArgument s) := by
  rw [argument.eq_def]
  split
  · rfl
  · exact absurd rfl (h.head?_ne (by decide))
  · rename_i c r _
    have hc := h c rfl
    simp only [openings, List.mem_cons, List.not_mem_nil, or_false, not_or] at hc
    obtain ⟨-, hplus, hminus, hopening⟩ := hc
    have hnone : Direction.ofCode? c = none := by
      unfold Direction.ofCode?
      split
      · exact absurd rfl hplus
      · exact absurd rfl hminus
      · rfl
    rw [hnone]
    show outcome (if c = 'L' ∨ c = '[' ∨ c = 'T' then _ else _) = _
    rw [if_neg (by tauto)]
    rfl

/-! ## Declarations -/

theorem outcome_classType (r : List Char) :
    outcome (classType ('L' :: r)) =
      (outcome (segments .topLevel r)).andThen fun c r => .ok (c, r) :=
  outcome_bind fun _ _ _ => rfl

theorem outcome_classType_of_avoids (h : Avoids ['L'] s) :
    outcome (classType s) = .error (.expected .classType s) := by
  unfold classType
  split
  · exact absurd rfl (h.head?_ne (by decide))
  · rfl

theorem outcome_typeSignature_void (r : List Char) :
    outcome (typeSignature ('V' :: r)) = .ok (.sigVoid, r) :=
  rfl

theorem outcome_typeSignature_of_avoids (h : Avoids ['V'] s) :
    outcome (typeSignature s) = outcome (value .typeSignature s) := by
  unfold typeSignature
  split
  · exact absurd rfl (h.head?_ne (by decide))
  · rfl

theorem outcome_interfaceBounds (r : List Char) :
    outcome (interfaceBounds (':' :: r)) =
      (outcome (reference r)).andThen fun t r =>
        (outcome (interfaceBounds r)).andThen fun ts r => .ok (.cons t ts, r) := by
  rw [interfaceBounds]
  exact outcome_bind fun _ _ _ => outcome_bind fun _ _ _ => rfl

theorem outcome_interfaceBounds_of_avoids (h : Avoids [':'] s) :
    outcome (interfaceBounds s) = .ok (.nil, s) := by
  rw [interfaceBounds.eq_def]
  split
  · exact absurd rfl (h.head?_ne (by decide))
  · rfl

theorem outcome_optionalClassBound {c : Char} (hc : c ∈ openings) (r : List Char) :
    outcome (optionalClassBound (c :: r)) =
      (outcome (reference (c :: r))).andThen fun t r => .ok (.boundedBy t, r) := by
  unfold optionalClassBound
  dsimp only
  rw [if_pos (by simpa [openings] using hc)]
  exact outcome_bind fun _ _ _ => rfl

theorem outcome_optionalClassBound_of_avoids (h : Avoids openings s) :
    outcome (optionalClassBound s) = .ok (.noClassBound, s) := by
  cases s with
  | nil => rfl
  | cons c r =>
      unfold optionalClassBound
      dsimp only
      rw [if_neg (by simpa [openings] using h c rfl)]
      rfl

theorem outcome_typeParameter {name : List Char} (hname : ∀ c ∈ name, c ∉ [':', '>'])
    (r : List Char) :
    outcome (typeParameter (name ++ ':' :: r)) =
      (outcome (optionalClassBound r)).andThen fun c r₁ =>
        (outcome (interfaceBounds r₁)).andThen fun is r₂ =>
          building (name ++ ':' :: r) (Text.byteSize name)
            (makeTypeParameter (String.ofList name) c is) fun p => .ok (p, r₂) := by
  have hstop : ∀ c, (':' :: r).head? = some c → c ∈ [':', '>'] := by simp
  rw [typeParameter_of_since (since_append hname hstop), before_append hname hstop]
  exact outcome_bind fun _ _ _ => outcome_bind fun _ _ _ => outcome_build fun _ => rfl

theorem outcome_typeParameter_of_ne (hs : (since [':', '>'] s).head? ≠ some ':') :
    outcome (typeParameter s) = .error (.expected (.char ':') (since [':', '>'] s)) := by
  rw [typeParameter_of_not_since fun r hr => hs (by rw [hr]; rfl)]
  rfl

theorem outcome_optionalTypeParameters_empty (r : List Char) :
    outcome (optionalTypeParameters ('<' :: '>' :: r)) =
      .error (.emptyList ('<' :: '>' :: r)) :=
  rfl

theorem outcome_optionalTypeParameters (hr : Avoids ['>'] r) :
    outcome (optionalTypeParameters ('<' :: r)) =
      (outcome (someEntriesUntil '>' typeParameter r)).andThen fun ps r => .ok (ps, r) := by
  rw [optionalTypeParameters]
  · exact outcome_bind fun _ _ _ => rfl
  · intro w hw
    exact absurd (congrArg List.head? hw) (hr.head?_ne (by decide))

theorem outcome_optionalTypeParameters_of_avoids (h : Avoids ['<'] s) :
    outcome (optionalTypeParameters s) = .ok (.nil, s) := by
  unfold optionalTypeParameters
  split
  · exact absurd rfl (h.head?_ne (by decide))
  · exact absurd rfl (h.head?_ne (by decide))
  · rfl

theorem outcome_throwsType_class (r : List Char) :
    outcome (throwsType ('L' :: r)) =
      (outcome (segments .topLevel r)).andThen fun c r => .ok (.throwsClass c, r) :=
  outcome_bind fun _ _ _ => rfl

theorem outcome_throwsType_variable (r : List Char) :
    outcome (throwsType ('T' :: r)) =
      (outcome (variableName r)).andThen fun v r => .ok (.throwsVariable v, r) :=
  outcome_bind fun _ _ _ => rfl

theorem outcome_throwsType_of_avoids (h : Avoids ['L', 'T'] s) :
    outcome (throwsType s) = .error (.expected .throwsType s) := by
  unfold throwsType
  split
  · exact absurd rfl (h.head?_ne (by decide))
  · exact absurd rfl (h.head?_ne (by decide))
  · rfl

theorem outcome_throwsTypes (r : List Char) :
    outcome (throwsTypes ('^' :: r)) =
      (outcome (throwsType r)).andThen fun t r =>
        (outcome (throwsTypes r)).andThen fun ts r => .ok (.cons t ts, r) := by
  rw [throwsTypes]
  exact outcome_bind fun _ _ _ => outcome_bind fun _ _ _ => rfl

theorem outcome_throwsTypes_of_avoids (h : Avoids ['^'] s) :
    outcome (throwsTypes s) = .ok (.nil, s) := by
  rw [throwsTypes.eq_def]
  split
  · exact absurd rfl (h.head?_ne (by decide))
  · rfl

/-- What follows the type parameters of a method, where the signature begins with `s`. -/
def methodEnd (s : List Char) (ts : TypeTree Unit (.list .typeParameter)) :
    List Char → Outcome (TypeTree Unit .methodSignature)
  | '(' :: r =>
      (outcome (entriesUntil ')' (value .valueType) r)).andThen fun ps r₁ =>
        (outcome (typeSignature r₁)).andThen fun t r₂ =>
          (outcome (throwsTypes r₂)).andThen fun es r₃ =>
            building s (Text.byteSize s - Text.byteSize r₃) (makeMethodSignature ts ps t es)
              fun d => .ok (d, r₃)
  | r => .error (.expected (.char '(') r)

theorem methodEnd_of_avoids {ts : TypeTree Unit (.list .typeParameter)} (h : Avoids ['('] r) :
    methodEnd s ts r = .error (.expected (.char '(') r) := by
  unfold methodEnd
  split
  · exact absurd rfl (h.head?_ne (by decide))
  · rfl

theorem outcome_methodSignature (s : List Char) :
    outcome (methodSignature s) =
      (outcome (optionalTypeParameters s)).andThen (methodEnd s) := by
  refine outcome_bind fun ts r h => ?_
  dsimp only
  split
  · exact outcome_bind fun _ _ _ => outcome_bind fun _ _ _ => outcome_bind fun _ _ _ =>
      outcome_build fun _ => rfl
  · rename_i hopen
    unfold methodEnd
    split
    · exact (hopen _ h rfl HEq.rfl).elim
    · rfl

theorem outcome_interfaces (r : List Char) :
    outcome (interfaces ('L' :: r)) =
      (outcome (segments .topLevel r)).andThen fun c r =>
        (outcome (interfaces r)).andThen fun cs r => .ok (.cons c cs, r) := by
  rw [interfaces]
  exact outcome_bind fun _ _ _ => outcome_bind fun _ _ _ => rfl

theorem outcome_interfaces_of_avoids (h : Avoids ['L'] s) :
    outcome (interfaces s) = .ok (.nil, s) := by
  rw [interfaces.eq_def]
  split
  · exact absurd rfl (h.head?_ne (by decide))
  · rfl

theorem outcome_classSignature (s : List Char) :
    outcome (classSignature s) =
      (outcome (optionalTypeParameters s)).andThen fun ts r =>
        (outcome (classType r)).andThen fun c r =>
          (outcome (interfaces r)).andThen fun is r => .ok (.classSignature () ts c is, r) :=
  outcome_bind fun _ _ _ => outcome_bind fun _ _ _ => outcome_bind fun _ _ _ => rfl

end ClassfileTypes.Grammar
