import ClassfileTypes.Proofs.CursorPlaces

/-!
# The rules over bytes are the rules

Each rule over bytes comes to the outcome that the rule over characters has, from wherever the
text stands. The rules call each other on shorter texts, or on the same one in an order, which
is why four levels for each character that is left, and four, are deep enough.
-/

namespace ClassfileTypes.Tracks

open Grammar TypeTree

variable {text : String} {start : Nat} {α : Type} {f : Form} {s r : List Char}

/-! ## Lists and names -/

/-- An outcome that is handed on as it is. -/
theorem andThen_ok (o : Outcome α) : (o.andThen fun a r => .ok (a, r)) = o := by
  cases o <;> rfl

/-- What is made of what was read, as something else. -/
theorem andThen_building {β γ : Type} (o : Outcome α) (make : α → ExceptT TypeError Id β)
    (w : List Char) (extent : Nat) (g : β → γ) :
    ((o.andThen fun a r => building w extent (make a) fun b => .ok (b, r)).andThen
      fun b r => .ok (g b, r)) =
    o.andThen fun a r => building w extent (make a) fun b => .ok (g b, r) := by
  cases o with
  | ok v => exact building_andThen
  | error e => rfl

theorem nameUntilEnd {lead : Char} {make : String → ExceptT TypeError Id α}
    (hlead : lead :: s <:+ text.toList) :
    Tracks text start (Scanner.nameUntilEnd lead make) s
      (outcome (Grammar.nameUntilEnd make s)) := by
  rcases cut [';'] s with h | ⟨name, c, r, hname, hc, rfl⟩
  · rw [outcome_nameUntilEnd_of_end h]
    exact bind_ok (takeUntil_of_end (by decide) h) (bind_error (expect_of_avoids (by decide) nofun))
  · obtain rfl := List.mem_singleton.mp hc
    rw [outcome_nameUntilEnd hname]
    refine bind_ok (takeUntil_append (by decide) hname hc r) ?_
    exact bind_ok (expect (by decide)) (construct hlead hname hc)

theorem entriesUntil {close : Char} (hclose : close.toNat < 128)
    {x : Nat → Scanner (TypeTree Unit f)}
    {entry : (s : List Char) → Reading Id (TypeTree Unit f) s.length}
    (hentry : ∀ n s, 4 * s.length + 4 ≤ n → Tracks text start (x n) s (outcome (entry s)))
    {n : Nat} (hn : 4 * s.length + 5 ≤ n) :
    Tracks text start (Scanner.entriesUntil close x n) s
      (outcome (Grammar.entriesUntil close entry s)) := by
  induction n generalizing s with
  | zero => omega
  | succ n ih =>
      cases s with
      | nil =>
          rw [outcome_entriesUntil_nil]
          exact bind_ok (eat_of_avoids hclose nofun) (bind_ok atEnd wanted)
      | cons c r =>
          by_cases hc : c = close
          · subst hc
            rw [outcome_entriesUntil_close]
            exact bind_ok (eat hclose) pure
          · have havoids : Avoids [close] (c :: r) := avoids_cons (by simpa using hc) r
            rw [outcome_entriesUntil_cons hc]
            refine bind_ok (eat_of_avoids hclose havoids) (bind_ok atEnd ?_)
            refine bind (hentry n (c :: r) (by omega)) fun y w hy => ?_
            have hw := length_lt_of_outcome hy
            exact bind (ih (by omega)) fun _ _ _ => pure

/-- Entries behind a letter each. -/
theorem entriesAfter {lead : Char} (hlead : lead.toNat < 128)
    {x : Nat → Scanner (TypeTree Unit f)} {k : List Char → Nat}
    {entry : (s : List Char) → Reading Id (TypeTree Unit f) s.length}
    {list : (s : List Char) → Reading Id (TypeTree Unit (.list f)) (k s)}
    (hcons : ∀ r, outcome (list (lead :: r)) = (outcome (entry r)).andThen fun x r =>
      (outcome (list r)).andThen fun xs r => .ok (.cons x xs, r))
    (hnil : ∀ s, Avoids [lead] s → outcome (list s) = .ok (.nil, s))
    (hentry : ∀ n s, 4 * s.length + 4 ≤ n → Tracks text start (x n) s (outcome (entry s)))
    {n : Nat} (hn : 4 * s.length + 4 ≤ n) :
    Tracks text start (Scanner.entriesAfter lead x n) s (outcome (list s)) := by
  induction n generalizing s with
  | zero => omega
  | succ n ih =>
      rcases begins_with lead s with ⟨r, rfl⟩ | h
      · rw [List.length_cons] at hn
        rw [hcons]
        refine bind_ok (eat hlead) (bind (hentry n r (by omega)) fun y w hy => ?_)
        have hw := length_lt_of_outcome hy
        exact bind (ih (by omega)) fun _ _ _ => pure
      · rw [hnil s h]
        exact bind_ok (eat_of_avoids hlead h) pure

/-! ## Descriptors -/

theorem classDescriptor_of_lead :
    Tracks text start Scanner.classDescriptor ('L' :: r) (outcome (classDescriptorName r)) :=
  of_suffix fun h => bind_ok (eat (by decide)) (nameUntilEnd h)

theorem classDescriptor (s : List Char) :
    Tracks text start Scanner.classDescriptor s (outcome (Grammar.classDescriptor s)) := by
  rcases begins_with 'L' s with ⟨r, rfl⟩ | h
  · rw [outcome_classDescriptor, andThen_ok]
    exact classDescriptor_of_lead
  · rw [outcome_classDescriptor_of_avoids h]
    exact bind_ok (eat_of_avoids (by decide) h) wanted

/-- The outcome of brackets with what they are in front of. -/
theorem arrayDescriptor_of_base {n : Nat} (hn : s.length < n)
    {o : Outcome (TypeTree Unit .typeDescriptor)}
    (hbase : Tracks text start (Scanner.valueDescriptor .valueType n) (sinceDimensions s) o) :
    Tracks text start (Scanner.arrayDescriptor (n + 1)) s (o.andThen fun b w =>
      building s (Grammar.dimensions s) (makeArrayDescriptor (Grammar.dimensions s) b) fun a =>
        .ok (a, w)) := by
  refine bind_ok position (bind_ok (dimensions hn) ?_)
  exact bind hbase fun b w _ => check rfl (Nat.add_sub_cancel_left _ _)

theorem valueDescriptor (e : Expected) : ∀ (n : Nat) (s : List Char), 4 * s.length + 3 ≤ n →
    Tracks text start (Scanner.valueDescriptor e n) s (outcome (Grammar.valueDescriptor e s))
  | 0, _, hn | 1, _, hn => by omega
  | n + 2, s, hn => by
    rcases begins ('L' :: '[' :: codes) s with ⟨c, hc, r, rfl⟩ | h
    · rcases List.mem_cons.mp hc with rfl | hc
      · rw [outcome_valueDescriptor_class]
        exact bind_ok (primitive_of_avoids (avoids_cons (by decide) r))
          (bind_ok peek (map classDescriptor_of_lead))
      rcases List.mem_cons.mp hc with rfl | hc
      · have hlength := length_sinceDimensions_le r
        rw [List.length_cons] at hn
        have hbase := valueDescriptor .valueType n (sinceDimensions r) (by omega)
        have hbrackets : ('[' :: r).length < n := by rw [List.length_cons]; omega
        rw [outcome_valueDescriptor_array, ← andThen_building]
        exact bind_ok (primitive_of_avoids (avoids_cons (by decide) r))
          (bind_ok peek (map (arrayDescriptor_of_base hbrackets hbase)))
      · obtain ⟨p, -, rfl⟩ := List.mem_map.mp hc
        rw [outcome_valueDescriptor_primitive]
        exact bind_ok (primitive p) pure
    · have hletters : Avoids ['L', '['] s := h.mono (by simp)
      rw [outcome_valueDescriptor_of_avoids h]
      refine bind_ok (primitive_of_avoids (h.mono (by simp))) ?_
      refine peek_of_avoids (by decide) (by decide) hletters fun c hc => ?_
      split
      · simp at hc
      · simp at hc
      · exact wanted

theorem typeDescriptor (n : Nat) (s : List Char) (hn : 4 * s.length + 4 ≤ n) :
    Tracks text start (Scanner.typeDescriptor n) s (outcome (Grammar.typeDescriptor s)) := by
  rcases begins_with 'V' s with ⟨r, rfl⟩ | h
  · rw [outcome_typeDescriptor_void]
    exact bind_ok (eat (by decide)) pure
  · rw [typeDescriptor_of_avoids h]
    exact bind_ok (eat_of_avoids (by decide) h) (valueDescriptor _ n s (by omega))

/-- The bytes between two rests of the text. -/
theorem place_sub (hs : s <:+ text.toList) (hr : r <:+ text.toList) :
    Text.place text r - Text.place text s = Text.byteSize s - Text.byteSize r := by
  have hsize : ∀ {w : List Char}, w <:+ text.toList →
      Text.byteSize w ≤ Text.byteSize text.toList := by
    rintro w ⟨v, hv⟩
    rw [← hv, Text.byteSize_append]
    omega
  have hs := hsize hs
  have hr := hsize hr
  unfold Text.place
  omega

theorem methodDescriptor (n : Nat) (s : List Char) (hn : 4 * s.length + 4 ≤ n) :
    Tracks text start (Scanner.methodDescriptor n) s (outcome (Grammar.methodDescriptor s)) := by
  refine of_suffix fun hs => bind_ok position ?_
  rcases begins_with '(' s with ⟨r, rfl⟩ | h
  · rw [List.length_cons] at hn
    rw [outcome_methodDescriptor]
    refine bind_ok (expect (by decide)) ?_
    refine bind (entriesUntil (by decide)
      (fun n s hn => valueDescriptor .valueType n s (by omega)) (by omega)) fun ps r₁ hps => ?_
    have hr₁ := length_lt_of_outcome hps
    refine bind (typeDescriptor n r₁ (by omega)) fun t r₂ _ => ?_
    exact of_suffix fun hr₂ => bind_ok position (check rfl (place_sub hs hr₂))
  · rw [outcome_methodDescriptor_of_avoids h]
    exact bind_error (expect_of_avoids (by decide) h)

/-! ## Types -/

theorem typeVariable_of_lead :
    Tracks text start Scanner.typeVariable ('T' :: r) (outcome (variableName r)) :=
  of_suffix fun h => bind_ok (expect (by decide)) (nameUntilEnd h)

/-- A class type is its segments. -/
theorem classType_of_segments {n : Nat} {o : Outcome (TypeTree Unit .classType)}
    (h : 'L' :: r <:+ text.toList → Tracks text start (Scanner.segments .topLevel n) r o) :
    Tracks text start (Scanner.classType (n + 1)) ('L' :: r) o :=
  of_suffix fun hs => bind_ok (eat (by decide)) (h hs)

theorem arrayType_of_base {n : Nat} (hn : s.length < n)
    {o : Outcome (TypeTree Unit .typeSignature)}
    (hbase : Tracks text start (Scanner.valueSignature .valueType n) (sinceDimensions s) o) :
    Tracks text start (Scanner.arrayType (n + 1)) s (o.andThen fun b w =>
      building s (Grammar.dimensions s) (makeArrayType (Grammar.dimensions s) b) fun a =>
        .ok (a, w)) := by
  refine bind_ok position (bind_ok (dimensions hn) ?_)
  exact bind hbase fun b w _ => check rfl (Nat.add_sub_cancel_left _ _)

theorem typeArguments_of_lead {n : Nat}
    (hmore : Tracks text start (Scanner.moreArguments n) r (outcome (arguments r))) :
    Tracks text start (Scanner.typeArguments (n + 1)) ('<' :: r)
      (outcome (Grammar.optionalArguments ('<' :: r))) := by
  refine of_suffix fun hs => bind_ok (expect (by decide)) ?_
  rcases begins_with '>' r with ⟨w, rfl⟩ | hr
  · rw [outcome_optionalArguments_empty]
    exact bind_ok (eat (by decide)) (emptyList hs)
  · rw [outcome_optionalArguments hr, andThen_ok]
    exact bind_ok (eat_of_avoids (by decide) hr) hmore

/-- A bounded argument is what it is bounded by. -/
theorem typeArgument_of_bound {n : Nat} (d : Direction)
    (hbound : Tracks text start (Scanner.referenceType n) r (outcome (reference r))) :
    Tracks text start (Scanner.typeArgument (n + 1)) (d.code :: r)
      (outcome (argument (d.code :: r))) := by
  rw [outcome_argument_bounded]
  cases d <;>
  exact bind_ok peek (bind_ok (advance (by decide)) (bind hbound fun _ _ _ => pure))

/-- A letter that is no direction. -/
theorem ofCode?_of_ne {c : Char} (hplus : c ≠ '+') (hminus : c ≠ '-') :
    Direction.ofCode? c = none := by
  unfold Direction.ofCode?
  split
  · exact absurd rfl hplus
  · exact absurd rfl hminus
  · rfl

-- The rules that the others are called from: what each needs beyond four levels for each
-- character that is left is one more than what it calls in front of the same character.
mutual

theorem valueSignature (e : Expected) : ∀ (n : Nat) (s : List Char), 4 * s.length + 3 ≤ n →
    Tracks text start (Scanner.valueSignature e n) s (outcome (value e s))
  | 0, _, hn => by omega
  | n + 1, s, hn => by
    rcases begins (openings ++ codes) s with ⟨c, hc, r, rfl⟩ | h
    · rcases List.mem_append.mp hc with hc | hc
      · have hreference := referenceType n (c :: r) (by omega)
        rw [outcome_value_reference hc]
        simp only [openings, List.mem_cons, List.not_mem_nil, or_false] at hc
        rcases hc with rfl | rfl | rfl <;>
        exact bind_ok (primitive_of_avoids (avoids_cons (by decide) r))
          (bind_ok peek (map hreference))
      · obtain ⟨p, -, rfl⟩ := List.mem_map.mp hc
        rw [outcome_value_primitive]
        exact bind_ok (primitive p) pure
    · have hletters : Avoids openings s := h.mono (by simp)
      rw [outcome_value_of_avoids h]
      refine bind_ok (primitive_of_avoids (h.mono (by simp))) ?_
      refine peek_of_avoids ascii_openings (by decide) hletters fun c hc => ?_
      rw [if_neg hc]
      exact wanted

theorem referenceType : ∀ (n : Nat) (s : List Char), 4 * s.length + 2 ≤ n →
    Tracks text start (Scanner.referenceType n) s (outcome (reference s))
  | 0, _, hn | 1, _, hn => by omega
  | n + 2, s, hn => by
    rcases begins openings s with ⟨c, hc, r, rfl⟩ | h
    · rw [List.length_cons] at hn
      simp only [openings, List.mem_cons, List.not_mem_nil, or_false] at hc
      rcases hc with rfl | rfl | rfl
      · rw [outcome_reference_class]
        exact bind_ok peek
          (map (classType_of_segments fun hs => segments .topLevel n r (by omega) hs))
      · have hlength := length_sinceDimensions_le r
        have hbase := valueSignature .valueType n (sinceDimensions r) (by omega)
        have hbrackets : ('[' :: r).length < n := by rw [List.length_cons]; omega
        rw [outcome_reference_array, ← andThen_building]
        exact bind_ok peek (map (arrayType_of_base hbrackets hbase))
      · rw [outcome_reference_variable]
        exact bind_ok peek (map typeVariable_of_lead)
    · rw [outcome_reference_of_avoids h]
      refine peek_of_avoids ascii_openings (by decide) h fun c hc => ?_
      split
      · simp [openings] at hc
      · simp [openings] at hc
      · simp [openings] at hc
      · exact wanted

theorem segments (o : TypeTree Unit .enclosing) : ∀ (n : Nat) (s : List Char),
    4 * s.length + 3 ≤ n → Scanner.leadOf o :: s <:+ text.toList →
    Tracks text start (Scanner.segments o n) s (outcome (Grammar.segments o s))
  | 0, _, hn, _ => by omega
  | n + 1, s, hn, hs => by
    rcases cut ['<', '.', ';'] s with h | ⟨name, c, r, hname, hc, rfl⟩
    · rw [outcome_segments_of_end h]
      exact bind_ok (takeUntil_of_end (by decide) h) (bind_ok atEnd wanted)
    · rw [List.length_append] at hn
      rw [outcome_segments hname hc]
      refine bind_ok (takeUntil_append (by decide) hname hc r) (bind_ok atEnd ?_)
      refine bind (optionalArguments n (c :: r) (by omega)) fun as w has => ?_
      rw [← building_andThen (F := fun d w => segmentEnd d w)]
      refine bind (construct hs hname hc) fun d w' hd => ?_
      obtain rfl := rest_of_building hd
      have hw := length_lt_of_outcome has
      rcases begins_with '.' w' with ⟨v, rfl⟩ | hdot
      · show Tracks text start _ _
          ((outcome (Grammar.segments (.nestedIn d) v)).andThen fun c r => .ok (c, r))
        rw [List.length_cons] at hw
        rw [andThen_ok]
        exact of_suffix fun hv =>
          bind_ok (eat (by decide)) (segments (.nestedIn d) n v (by omega) hv)
      · refine bind_ok (eat_of_avoids (by decide) hdot) ?_
        rcases begins_with ';' w' with ⟨v, rfl⟩ | hend
        · exact bind_ok (expect (by decide)) pure
        · rw [segmentEnd_of_avoids (hdot.append hend)]
          exact bind_error (expect_of_avoids (by decide) hend)

theorem optionalArguments : ∀ (n : Nat) (s : List Char), 4 * s.length + 2 ≤ n →
    Tracks text start (Scanner.optionalArguments n) s (outcome (Grammar.optionalArguments s))
  | 0, _, hn | 1, _, hn => by omega
  | n + 2, s, hn => by
    rcases begins_with '<' s with ⟨r, rfl⟩ | h
    · rw [List.length_cons] at hn
      exact bind_ok peek (typeArguments_of_lead (moreArguments n r (by omega)))
    · rw [outcome_optionalArguments_of_avoids h]
      refine peek_of_avoids (by decide) (by decide) h fun c hc => ?_
      rw [if_neg (by simpa using hc)]
      exact pure

theorem moreArguments : ∀ (n : Nat) (s : List Char), 4 * s.length + 4 ≤ n →
    Tracks text start (Scanner.moreArguments n) s (outcome (arguments s))
  | 0, _, hn => by omega
  | n + 1, s, hn => by
    rw [outcome_arguments]
    refine bind (typeArgument n s (by omega)) fun a w ha => ?_
    have hw := length_lt_of_outcome ha
    cases w with
    | nil => exact bind_ok (eat_of_avoids (by decide) nofun) (bind_ok atEnd wanted)
    | cons c v =>
        by_cases hc : c = '>'
        · subst hc
          exact bind_ok (eat (by decide)) pure
        · rw [argumentEnd_of_ne hc]
          refine bind_ok (eat_of_avoids (by decide) (avoids_cons (by simpa using hc) v)) ?_
          exact bind_ok atEnd (map (moreArguments n (c :: v) (by omega)))

theorem typeArgument : ∀ (n : Nat) (s : List Char), 4 * s.length + 3 ≤ n →
    Tracks text start (Scanner.typeArgument n) s (outcome (argument s))
  | 0, _, hn => by omega
  | n + 1, s, hn => by
    rcases begins ('*' :: '+' :: '-' :: openings) s with ⟨c, hc, r, rfl⟩ | h
    · rcases List.mem_cons.mp hc with rfl | hc
      · rw [outcome_argument_wildcard]
        exact bind_ok peek (bind_ok (advance (by decide)) pure)
      have hreference := referenceType n (c :: r) (by omega)
      rw [List.length_cons] at hn
      have hbound := referenceType n r (by omega)
      rcases List.mem_cons.mp hc with rfl | hc
      · exact typeArgument_of_bound .upper hbound
      rcases List.mem_cons.mp hc with rfl | hc
      · exact typeArgument_of_bound .lower hbound
      · rw [outcome_argument_reference hc]
        simp only [openings, List.mem_cons, List.not_mem_nil, or_false] at hc
        rcases hc with rfl | rfl | rfl <;>
        exact bind_ok peek (map hreference)
    · rw [outcome_argument_of_avoids h]
      refine peek_of_avoids (by decide) (by decide) h fun c hc => ?_
      simp only [List.mem_cons, not_or] at hc
      obtain ⟨hstar, hplus, hminus, hopening⟩ := hc
      rw [if_neg hstar, ofCode?_of_ne hplus hminus]
      show Tracks text start (if _ then _ else _) s _
      rw [if_neg hopening]
      exact wanted

end

theorem classType : ∀ (n : Nat) (s : List Char), 4 * s.length + 4 ≤ n →
    Tracks text start (Scanner.classType n) s (outcome (Grammar.classType s))
  | 0, _, hn => by omega
  | n + 1, s, hn => by
    rcases begins_with 'L' s with ⟨r, rfl⟩ | h
    · rw [List.length_cons] at hn
      rw [outcome_classType, andThen_ok]
      exact classType_of_segments (segments .topLevel n r (by omega))
    · rw [outcome_classType_of_avoids h]
      exact bind_ok (eat_of_avoids (by decide) h) wanted

theorem typeSignature (n : Nat) (s : List Char) (hn : 4 * s.length + 4 ≤ n) :
    Tracks text start (Scanner.typeSignature n) s (outcome (Grammar.typeSignature s)) := by
  rcases begins_with 'V' s with ⟨r, rfl⟩ | h
  · rw [outcome_typeSignature_void]
    exact bind_ok (eat (by decide)) pure
  · rw [outcome_typeSignature_of_avoids h]
    exact bind_ok (eat_of_avoids (by decide) h) (valueSignature _ n s (by omega))

/-! ## Declarations -/

theorem optionalClassBound (n : Nat) (s : List Char) (hn : 4 * s.length + 4 ≤ n) :
    Tracks text start (Scanner.optionalClassBound n) s
      (outcome (Grammar.optionalClassBound s)) := by
  rcases begins openings s with ⟨c, hc, r, rfl⟩ | h
  · rw [outcome_optionalClassBound hc]
    refine bind_ok peek ?_
    rw [Text.first_of_ascii (ascii_openings c hc), if_pos hc]
    exact map (referenceType n (c :: r) (by omega))
  · rw [outcome_optionalClassBound_of_avoids h]
    refine peek_of_avoids ascii_openings (by decide) h fun c hc => ?_
    rw [if_neg hc]
    exact pure

theorem typeParameter (n : Nat) (s : List Char) (hn : 4 * s.length + 4 ≤ n) :
    Tracks text start (Scanner.typeParameter n) s (outcome (Grammar.typeParameter s)) := by
  rcases cut [':', '>'] s with h | ⟨name, c, r, hname, hc, rfl⟩
  · rw [outcome_typeParameter_of_ne (by simp [h]), h]
    refine bind_ok (takeUntil_of_end (by decide) h) ?_
    exact bind_ok (eat_of_avoids (by decide) nofun) wanted
  · have hsince : since [':', '>'] (name ++ c :: r) = c :: r :=
      since_append hname (by rintro d ⟨⟩; exact hc)
    rw [List.length_append, List.length_cons] at hn
    refine of_suffix fun hs => bind_ok (takeUntil_append (by decide) hname hc r) ?_
    simp only [List.mem_cons, List.not_mem_nil, or_false] at hc
    rcases hc with rfl | rfl
    · have hcolon : ∀ d ∈ name, d ∉ [':'] := fun d hd h => hname d hd (by simp_all)
      have hopening : (none : Option Char).toList ++ (name ++ ':' :: r) <:+ text.toList := hs
      rw [outcome_typeParameter hname]
      refine bind_ok (eat (by decide)) ?_
      refine bind (optionalClassBound n r (by omega)) fun c r₁ hc => ?_
      have hr₁ := length_lt_of_outcome hc
      refine bind (entriesAfter (by decide) outcome_interfaceBounds
        (fun _ => outcome_interfaceBounds_of_avoids)
        (fun n s hn => referenceType n s (by omega)) (by omega)) fun is r₂ _ => ?_
      exact construct hopening hcolon List.mem_cons_self
    · rw [outcome_typeParameter_of_ne (by simp [hsince]), hsince]
      exact bind_ok (eat_of_avoids (by decide) (avoids_cons (by decide) r)) wanted

theorem typeParameters_of_lead {n : Nat} (hn : 4 * ('<' :: r).length + 4 ≤ n) :
    Tracks text start (Scanner.typeParameters n) ('<' :: r)
      (outcome (Grammar.optionalTypeParameters ('<' :: r))) := by
  refine of_suffix fun hs => bind_ok (expect (by decide)) ?_
  rcases begins_with '>' r with ⟨w, rfl⟩ | hr
  · rw [outcome_optionalTypeParameters_empty]
    exact bind_ok (eat (by decide)) (emptyList hs)
  · rw [List.length_cons] at hn
    rw [outcome_optionalTypeParameters hr, andThen_ok, outcome_someEntriesUntil]
    refine bind_ok (eat_of_avoids (by decide) hr) ?_
    refine bind (typeParameter n r (by omega)) fun p w hp => ?_
    have hw := length_lt_of_outcome hp
    exact bind (entriesUntil (by decide) typeParameter (by omega)) fun _ _ _ => pure

theorem optionalTypeParameters (n : Nat) (s : List Char) (hn : 4 * s.length + 4 ≤ n) :
    Tracks text start (Scanner.optionalTypeParameters n) s
      (outcome (Grammar.optionalTypeParameters s)) := by
  rcases begins_with '<' s with ⟨r, rfl⟩ | h
  · exact bind_ok peek (typeParameters_of_lead hn)
  · rw [outcome_optionalTypeParameters_of_avoids h]
    refine peek_of_avoids (by decide) (by decide) h fun c hc => ?_
    rw [if_neg (by simpa using hc)]
    exact pure

theorem throwsType : ∀ (n : Nat) (s : List Char), 4 * s.length + 4 ≤ n →
    Tracks text start (Scanner.throwsType n) s (outcome (Grammar.throwsType s))
  | 0, _, hn => by omega
  | n + 1, s, hn => by
    rcases begins ['L', 'T'] s with ⟨c, hc, r, rfl⟩ | h
    · rw [List.length_cons] at hn
      simp only [List.mem_cons, List.not_mem_nil, or_false] at hc
      rcases hc with rfl | rfl
      · rw [outcome_throwsType_class]
        exact bind_ok peek (map (classType_of_segments (segments .topLevel n r (by omega))))
      · rw [outcome_throwsType_variable]
        exact bind_ok peek (map typeVariable_of_lead)
    · rw [outcome_throwsType_of_avoids h]
      refine peek_of_avoids (by decide) (by decide) h fun c hc => ?_
      split
      · simp at hc
      · simp at hc
      · exact wanted

theorem methodSignature (n : Nat) (s : List Char) (hn : 4 * s.length + 4 ≤ n) :
    Tracks text start (Scanner.methodSignature n) s (outcome (Grammar.methodSignature s)) := by
  rw [outcome_methodSignature]
  refine of_suffix fun hs => bind_ok position ?_
  refine bind (optionalTypeParameters n s hn) fun ts r hts => ?_
  have hr := length_lt_of_outcome hts
  rcases begins_with '(' r with ⟨w, rfl⟩ | h
  · rw [List.length_cons] at hr
    refine bind_ok (expect (by decide)) ?_
    refine bind (entriesUntil (by decide)
      (fun n s hn => valueSignature .valueType n s (by omega)) (by omega)) fun ps r₁ hps => ?_
    have hr₁ := length_lt_of_outcome hps
    refine bind (typeSignature n r₁ (by omega)) fun t r₂ ht => ?_
    have hr₂ := length_lt_of_outcome ht
    refine bind (entriesAfter (by decide) outcome_throwsTypes
      (fun _ => outcome_throwsTypes_of_avoids) throwsType (by omega)) fun es r₃ _ => ?_
    exact of_suffix fun hr₃ => bind_ok position (check rfl (place_sub hs hr₃))
  · rw [methodEnd_of_avoids h]
    exact bind_error (expect_of_avoids (by decide) h)

theorem classTypes : ∀ (n : Nat) (s : List Char), 4 * s.length + 4 ≤ n →
    Tracks text start (Scanner.classTypes n) s (outcome (interfaces s))
  | 0, _, hn | 1, _, hn => by omega
  | n + 2, s, hn => by
    rcases begins_with 'L' s with ⟨r, rfl⟩ | h
    · rw [List.length_cons] at hn
      rw [outcome_interfaces]
      refine bind_ok peek ?_
      refine bind (classType_of_segments (segments .topLevel n r (by omega))) fun c w hc => ?_
      have hw := length_lt_of_outcome hc
      exact bind (classTypes (n + 1) w (by omega)) fun _ _ _ => pure
    · rw [outcome_interfaces_of_avoids h]
      refine peek_of_avoids (by decide) (by decide) h fun c hc => ?_
      rw [if_neg (by simpa using hc)]
      exact pure

theorem classSignature (n : Nat) (s : List Char) (hn : 4 * s.length + 4 ≤ n) :
    Tracks text start (Scanner.classSignature n) s (outcome (Grammar.classSignature s)) := by
  rw [outcome_classSignature]
  refine bind (optionalTypeParameters n s hn) fun ts r hts => ?_
  have hr := length_lt_of_outcome hts
  refine bind (classType n r (by omega)) fun c r₁ hc => ?_
  have hr₁ := length_lt_of_outcome hc
  exact bind (classTypes n r₁ (by omega)) fun is r₂ _ => pure

/-! ## All rules -/

/-- **The rules over bytes are the rules.** -/
theorem rule (k : Start) (s : List Char) :
    Tracks text start k.scanner s (outcome (Grammar.rule k s)) := by
  cases k with
  | typeDescriptor => exact deeply fun n hn => typeDescriptor n s hn
  | classDescriptor => exact classDescriptor s
  | methodDescriptor => exact deeply fun n hn => methodDescriptor n s hn
  | typeSignature => exact deeply fun n hn => typeSignature n s hn
  | referenceType => exact deeply fun n hn => referenceType n s (by omega)
  | classType => exact deeply fun n hn => classType n s hn
  | methodSignature => exact deeply fun n hn => methodSignature n s hn
  | classSignature => exact deeply fun n hn => classSignature n s hn
  | typeParameter => exact deeply fun n hn => typeParameter n s hn
  | typeArgument => exact deeply fun n hn => typeArgument n s (by omega)

/-- Every production comes to an outcome, also where no text is read by it alone. -/
theorem exists_of_production (p : Production) (s : List Char) :
    ∃ o, Tracks text start p.scanner s o := by
  cases p with
  | typeDescriptor => exact ⟨_, rule .typeDescriptor s⟩
  | valueDescriptor e => exact ⟨_, deeply fun n hn => valueDescriptor e n s (by omega)⟩
  | classDescriptor => exact ⟨_, classDescriptor s⟩
  | arrayDescriptor =>
      have hlength := length_sinceDimensions_le s
      exact ⟨_, deeply_succ fun n hn => arrayDescriptor_of_base (by omega)
        (valueDescriptor .valueType n (sinceDimensions s) (by omega))⟩
  | methodDescriptor => exact ⟨_, rule .methodDescriptor s⟩
  | typeSignature => exact ⟨_, rule .typeSignature s⟩
  | valueSignature e => exact ⟨_, deeply fun n hn => valueSignature e n s (by omega)⟩
  | referenceType => exact ⟨_, rule .referenceType s⟩
  | classType => exact ⟨_, rule .classType s⟩
  | typeArguments =>
      rcases begins_with '<' s with ⟨r, rfl⟩ | h
      · refine ⟨outcome (Grammar.optionalArguments ('<' :: r)), deeply_succ fun n hn => ?_⟩
        rw [List.length_cons] at hn
        exact typeArguments_of_lead (moreArguments n r (by omega))
      · exact ⟨_, deeply_succ fun n _ => bind_error (expect_of_avoids (by decide) h)⟩
  | typeArgument => exact ⟨_, rule .typeArgument s⟩
  | arrayType =>
      have hlength := length_sinceDimensions_le s
      exact ⟨_, deeply_succ fun n hn => arrayType_of_base (by omega)
        (valueSignature .valueType n (sinceDimensions s) (by omega))⟩
  | typeVariable =>
      rcases begins_with 'T' s with ⟨r, rfl⟩ | h
      · exact ⟨_, typeVariable_of_lead⟩
      · exact ⟨_, bind_error (expect_of_avoids (by decide) h)⟩
  | typeParameters =>
      rcases begins_with '<' s with ⟨r, rfl⟩ | h
      · exact ⟨_, deeply fun n hn => typeParameters_of_lead hn⟩
      · exact ⟨_, deeply fun n _ => bind_error (expect_of_avoids (by decide) h)⟩
  | typeParameter => exact ⟨_, rule .typeParameter s⟩
  | throwsType => exact ⟨_, deeply fun n hn => throwsType n s hn⟩
  | methodSignature => exact ⟨_, rule .methodSignature s⟩
  | classSignature => exact ⟨_, rule .classSignature s⟩

end ClassfileTypes.Tracks
