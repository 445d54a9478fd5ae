import ClassfileTypes.Proofs.Lookahead

/-!
# Every rule looks one character ahead

Rule by rule. Where a rule looks at the next character, the characters that it tells apart are
ASCII, and where it looks for a stop, the stops are.
-/

namespace ClassfileTypes

/-! ## Refusals -/

section

variable {ε α β : Type}

theorem run_bind_eq_error {x : ExceptT ε Id α} {k : α → ExceptT ε Id β} {e : ε}
    (h : (x >>= k).run = .error e) :
    x.run = .error e ∨ ∃ a, x.run = .ok a ∧ (k a).run = .error e := by
  change (ExceptT.bindCont k x.run : Id _) = _ at h
  cases hx : x.run with
  | ok a =>
      rw [hx] at h
      exact Or.inr ⟨a, rfl, h⟩
  | error e' =>
      rw [hx] at h
      exact Or.inl (congrArg _ (Except.error.inj h))

end

namespace TypeTree

variable {name : String} {e : TypeError}

theorem run_checked_eq_error {α : Type} {x : Except ConstructionError α}
    (h : (checked x : ExceptT TypeError Id α).run = .error e) :
    ∃ c, x = .error c ∧ e = .construction c := by
  cases x with
  | ok a => exact nomatch h
  | error c => exact ⟨c, rfl, (Except.error.inj h).symm⟩

theorem rejects_of_classNameOf {c : ConstructionError}
    (h : Name.classNameOf name = .error c) : Rejects name (.construction c) := by
  dsimp only [Name.classNameOf] at h
  split_ifs at h <;>
  · obtain rfl := Except.error.inj h
    exact .name _

theorem rejects_of_simpleNameOf {c : ConstructionError}
    (h : Name.simpleNameOf name = .error c) : Rejects name (.construction c) := by
  dsimp only [Name.simpleNameOf] at h
  split_ifs at h <;>
  · obtain rfl := Except.error.inj h
    exact .name _

theorem rejects_of_makeClassDescriptor
    (h : (makeClassDescriptor name : ExceptT TypeError Id
      (TypeTree Unit .classDescriptor)).run = .error e) : Rejects name e := by
  rcases run_bind_eq_error h with h | ⟨n, -, h⟩
  · obtain ⟨c, hc, rfl⟩ := run_checked_eq_error h
    exact rejects_of_classNameOf hc
  · exact nomatch h

theorem rejects_of_makeFreeVariable
    (h : (makeFreeVariable name : ExceptT TypeError Id
      (TypeTree Unit .typeVariable)).run = .error e) : Rejects name e := by
  rcases run_bind_eq_error h with h | ⟨n, -, h⟩
  · obtain ⟨c, hc, rfl⟩ := run_checked_eq_error h
    exact rejects_of_simpleNameOf hc
  · exact nomatch h

theorem rejects_of_makeClassType {o : TypeTree Unit .enclosing}
    {as : TypeTree Unit (.list .typeArgument)}
    (h : (makeClassType o name as : ExceptT TypeError Id _).run = .error e) :
    Rejects name e := by
  cases o with
  | topLevel =>
      rcases run_bind_eq_error h with h | ⟨n, -, h⟩
      · obtain ⟨c, hc, rfl⟩ := run_checked_eq_error h
        exact rejects_of_classNameOf hc
      · exact nomatch h
  | nestedIn o =>
      rcases run_bind_eq_error h with h | ⟨n, -, h⟩
      · obtain ⟨c, hc, rfl⟩ := run_checked_eq_error h
        exact rejects_of_simpleNameOf hc
      · exact nomatch h

theorem rejects_of_makeTypeParameter {c : TypeTree Unit .classBound}
    {is : TypeTree Unit (.list .referenceType)}
    (h : (makeTypeParameter name c is : ExceptT TypeError Id _).run = .error e) :
    Rejects name e := by
  rcases run_bind_eq_error h with h | ⟨n, hn, h⟩
  · obtain ⟨c, hc, rfl⟩ := run_checked_eq_error h
    exact rejects_of_simpleNameOf hc
  · obtain ⟨rfl, -⟩ := Name.simpleNameOf_eq_ok_iff.mp (run_checked_eq_ok.mp hn)
    cases c with
    | noClassBound =>
        cases is with
        | nil =>
            obtain rfl := Except.error.inj h
            exact .bounds
        | cons t ts => exact nomatch h
    | boundedBy r => exact nomatch h

/-- An array of a base is refused for its own dimensions only. -/
theorem rejects_of_checkDimension {α : Type} {g : Nat → α} {d : Nat} {c : ConstructionError}
    (hd : 1 ≤ d) (h : g <$> checkDimension d = .error c) :
    Rejects (String.ofList (List.replicate d '[')) (.construction c) := by
  unfold checkDimension at h
  split_ifs at h with hallowed
  · exact nomatch h
  · obtain rfl := Except.error.inj h
    exact .dimension (by omega) (String.toList_ofList)

theorem rejects_of_makeArrayDescriptor {d : Nat} {b : TypeTree Unit .typeDescriptor}
    (hd : 1 ≤ d) (hb : b.IsBase)
    (h : (makeArrayDescriptor d b : ExceptT TypeError Id _).run = .error e) :
    Rejects (String.ofList (List.replicate d '[')) e := by
  rcases run_bind_eq_error h with h | ⟨n, -, h⟩
  · obtain ⟨c, hc, rfl⟩ := run_checked_eq_error h
    rw [flatDescriptor_of_isBase hb] at hc
    exact rejects_of_checkDimension hd hc
  · exact nomatch h

theorem rejects_of_makeArrayType {d : Nat} {b : TypeTree Unit .typeSignature}
    (hd : 1 ≤ d) (hb : b.IsBase)
    (h : (makeArrayType d b : ExceptT TypeError Id _).run = .error e) :
    Rejects (String.ofList (List.replicate d '[')) e := by
  rcases run_bind_eq_error h with h | ⟨n, -, h⟩
  · obtain ⟨c, hc, rfl⟩ := run_checked_eq_error h
    rw [flatType_of_isBase hb] at hc
    exact rejects_of_checkDimension hd hc
  · exact nomatch h

end TypeTree

namespace Grammar

open TypeTree

variable {f : Form} {s r : List Char}

/-! ## Names and lists -/

/-- A text has no stop, or it is cut at the first one. -/
theorem cut (stops s : List Char) : since stops s = [] ∨
    ∃ name c r, (∀ d ∈ name, d ∉ stops) ∧ c ∈ stops ∧ s = name ++ c :: r := by
  rcases since_eq stops s with h | ⟨c, r, h, hc⟩
  · exact Or.inl h
  · refine Or.inr ⟨before stops s, c, r, fun d hd => not_mem_of_mem_before hd, hc, ?_⟩
    rw [← h, before_append_since]

/-- A text begins with one of these characters, or with none. -/
theorem begins (l s : List Char) : (∃ c ∈ l, ∃ r, s = c :: r) ∨ Avoids l s := by
  cases s with
  | nil => exact Or.inr fun c hc => nomatch hc
  | cons c r =>
      by_cases hc : c ∈ l
      · exact Or.inl ⟨c, hc, r, rfl⟩
      · refine Or.inr fun d hd => ?_
        obtain rfl := Option.some.inj hd
        exact hc

theorem ascii_openings : Ascii openings := by
  decide

theorem begins_with (c : Char) (s : List Char) : (∃ r, s = c :: r) ∨ Avoids [c] s := by
  rcases begins [c] s with ⟨d, hd, r, rfl⟩ | h
  · obtain rfl := List.mem_singleton.mp hd
    exact Or.inl ⟨r, rfl⟩
  · exact Or.inr h

theorem alike_nameUntilEnd {α : Type} {make : String → ExceptT TypeError Id α}
    (hmake : ∀ name e, (make name).run = .error e → Rejects name e)
    (s : List Char) :
    Alike s s (outcome (nameUntilEnd make s)) fun s' => outcome (nameUntilEnd make s') := by
  rcases cut [';'] s with h | ⟨name, c, r, hname, hc, rfl⟩
  · rw [outcome_nameUntilEnd_of_end h]
    exact .atEnd
  · obtain rfl := List.mem_singleton.mp hc
    refine .skip name (.next ';' ?_)
    simp only [outcome_nameUntilEnd hname]
    exact .building (fun e he => .invalid (List.suffix_refl _) (hmake _ e he))
      fun x _ => .stay fun _ _ => rfl

section

variable {close : Char} {entry : (s : List Char) → Reading Id (TypeTree Unit f) s.length}

theorem alike_entriesUntil (hclose : Ascii [close])
    (hentry : ∀ s, Alike s s (outcome (entry s)) fun s' => outcome (entry s')) (s : List Char) :
    Alike s s (outcome (entriesUntil close entry s)) fun s' =>
      outcome (entriesUntil close entry s') := by
  cases s with
  | nil =>
      rw [outcome_entriesUntil_nil]
      exact .atEnd
  | cons c r =>
      by_cases hc : c = close
      · subst hc
        refine .next c ?_
        simp only [outcome_entriesUntil_close]
        exact .stay fun _ _ => rfl
      · rw [outcome_entriesUntil_cons hc]
        refine .congr (.andThen (hentry (c :: r)) fun x r₁ hx hr₁ s' =>
          .map ((alike_entriesUntil hclose hentry r₁).widen hr₁) _) fun s' hs' => ?_
        cases hs' with
        | cons hres =>
            exact outcome_entriesUntil_cons (hres.ne hclose hc) _
termination_by s.length
decreasing_by exact length_lt_of_outcome hx

end

theorem alike_someEntriesUntil {close : Char}
    {entry : (s : List Char) → Reading Id (TypeTree Unit f) s.length}
    (hclose : Ascii [close])
    (hentry : ∀ s, Alike s s (outcome (entry s)) fun s' => outcome (entry s')) (s : List Char) :
    Alike s s (outcome (someEntriesUntil close entry s)) fun s' =>
      outcome (someEntriesUntil close entry s') := by
  simp only [outcome_someEntriesUntil]
  exact .andThen (hentry s) fun x r₁ _ hr₁ s' =>
    .map ((alike_entriesUntil hclose hentry r₁).widen hr₁) _

/-- What each entry is, all of them are. -/
theorem forall_of_entriesUntil {close : Char}
    {entry : (s : List Char) → Reading Id (TypeTree Unit f) s.length} {P : TypeTree Unit f → Prop}
    (hentry : ∀ s x r, Gives (entry s) x r → P x) {s r : List Char}
    {xs : TypeTree Unit (.list f)} (h : Gives (entriesUntil close entry s) xs r) :
    ∀ x ∈ xs.entries, P x := by
  match s with
  | [] =>
      rw [entriesUntil] at h
      exact (Gives.not_wanted h).elim
  | c :: w =>
      rw [entriesUntil] at h
      split_ifs at h with hc
      · obtain ⟨rfl, -⟩ := h.of_pure
        exact fun x hx => absurd hx List.not_mem_nil
      · obtain ⟨x, r₁, h₁, hx, h⟩ := h.of_bind
        obtain ⟨xs', r₂, h₂, hxs, h⟩ := h.of_bind
        obtain ⟨rfl, -⟩ := h.of_pure
        exact List.forall_mem_cons.mpr ⟨hentry _ x r₁ hx, forall_of_entriesUntil hentry hxs⟩
termination_by s.length
decreasing_by exact h₁

/-! ## Arrays -/

theorem byteSize_replicate (d : Nat) : Text.byteSize (List.replicate d '[') = d := by
  induction d with
  | zero => rfl
  | succ d ih =>
      rw [List.replicate_succ, Text.byteSize, ih, Nat.add_comm]
      rfl

theorem replicate_succ_dimensions (r : List Char) :
    List.replicate (dimensions r + 1) '[' ++ sinceDimensions r = '[' :: r := by
  rw [List.replicate_succ, List.cons_append, replicate_dimensions]

/-- The brackets are read to the last one, as the next character is seen not to be another. -/
theorem Alike.dimensions {α : Type} {whole : List Char} {x : Outcome α}
    {Y Z : List Char → Outcome α} (h : Alike whole (sinceDimensions r) x Z)
    (hY : ∀ c s', c ≠ '[' →
      Y ('[' :: (List.replicate (Grammar.dimensions r) '[' ++ c :: s')) = Z (c :: s')) :
    Alike whole ('[' :: r) x Y := by
  rw [← replicate_succ_dimensions r]
  refine .skip _ (.congr h fun s' hs' => ?_)
  have hne := head?_sinceDimensions_ne r
  generalize sinceDimensions r = w at hs' hne
  cases hs' with
  | cons hres w w' =>
      rw [List.replicate_succ, List.cons_append]
      exact hY _ w' (hres.ne (by decide) fun heq => hne (congrArg some heq))

/-- Too many dimensions are the brackets. -/
theorem shows_of_dimensions {e : TypeError} {s : List Char}
    (h : Rejects (String.ofList (List.replicate (dimensions r + 1) '[')) e) :
    (Fault.invalid ('[' :: r) (dimensions r + 1) e).Shows ('[' :: r) s := by
  have hshows : (Fault.invalid (List.replicate (dimensions r + 1) '[' ++ sinceDimensions r)
      (Text.byteSize (List.replicate (dimensions r + 1) '[')) e).Shows ('[' :: r) s :=
    .invalid ⟨[], replicate_succ_dimensions r⟩ h
  rwa [byteSize_replicate, replicate_succ_dimensions] at hshows

theorem dimensions_replicate_cons {c : Char} (hc : c ≠ '[') (d : Nat) (s : List Char) :
    dimensions (List.replicate d '[' ++ c :: s) = d ∧
      sinceDimensions (List.replicate d '[' ++ c :: s) = c :: s :=
  ⟨dimensions_replicate d ⟨c, rfl, hc⟩, sinceDimensions_replicate d ⟨c, rfl, hc⟩⟩

/-! ## Descriptors -/

theorem alike_classDescriptorName (s : List Char) :
    Alike s s (outcome (classDescriptorName s)) fun s' => outcome (classDescriptorName s') :=
  alike_nameUntilEnd (fun _ _ => rejects_of_makeClassDescriptor) s

theorem alike_classDescriptor (s : List Char) :
    Alike s s (outcome (classDescriptor s)) fun s' => outcome (classDescriptor s') := by
  rcases begins_with 'L' s with ⟨r, rfl⟩ | h
  · refine .next 'L' ?_
    simp only [outcome_classDescriptor]
    exact .map ((alike_classDescriptorName r).widen (List.suffix_cons _ _)) _
  · rw [outcome_classDescriptor_of_avoids h]
    exact .wanted fun s' hs' => outcome_classDescriptor_of_avoids (hs'.avoids (by decide) h)

theorem alike_valueDescriptor (e : Expected) (s : List Char) :
    Alike s s (outcome (valueDescriptor e s)) fun s' => outcome (valueDescriptor e s') := by
  rcases begins ('L' :: '[' :: codes) s with ⟨c, hc, r, rfl⟩ | h
  · rcases List.mem_cons.mp hc with rfl | hc
    · refine .next 'L' ?_
      simp only [outcome_valueDescriptor_class]
      exact .map ((alike_classDescriptorName r).widen (List.suffix_cons _ _)) _
    rcases List.mem_cons.mp hc with rfl | hc
    · have hbase := alike_valueDescriptor .valueType (sinceDimensions r)
      rw [outcome_valueDescriptor_array]
      refine .dimensions (Z := fun s' =>
        (outcome (valueDescriptor .valueType s')).andThen fun b w =>
          building ('[' :: (List.replicate (dimensions r) '[' ++ s')) (dimensions r + 1)
            (makeArrayDescriptor (dimensions r + 1) b) fun a => .ok (.descArray a, w))
        (.andThen (hbase.widen ?_) fun b w hb _ s' =>
          .building (fun e he => ?_) fun a _ => .stay fun _ _ => rfl) fun c s' hc => ?_
      · exact (List.dropWhile_suffix _).trans (List.suffix_cons _ _)
      · obtain ⟨hspells, hvoid⟩ := spells_valueDescriptor (outcome_eq_ok_iff.mp hb)
        exact shows_of_dimensions (rejects_of_makeArrayDescriptor (Nat.le_add_left _ _)
          (isBase_of_spells_descriptor hspells hvoid) he)
      · obtain ⟨hd, hs⟩ := dimensions_replicate_cons hc (dimensions r) s'
        rw [outcome_valueDescriptor_array, hd, hs]
    · obtain ⟨p, -, rfl⟩ := List.mem_map.mp hc
      refine .next p.code ?_
      simp only [outcome_valueDescriptor_primitive]
      exact .stay fun _ _ => rfl
  · rw [outcome_valueDescriptor_of_avoids h]
    exact .wanted fun s' hs' => outcome_valueDescriptor_of_avoids (hs'.avoids (by decide) h)
termination_by s.length
decreasing_by
  subst_vars
  exact Nat.lt_succ_of_le (length_sinceDimensions_le r)

theorem alike_typeDescriptor (s : List Char) :
    Alike s s (outcome (typeDescriptor s)) fun s' => outcome (typeDescriptor s') := by
  rcases begins_with 'V' s with ⟨r, rfl⟩ | h
  · refine .next 'V' ?_
    simp only [outcome_typeDescriptor_void]
    exact .stay fun _ _ => rfl
  · rw [typeDescriptor_of_avoids h]
    refine .congr (alike_valueDescriptor .typeDescriptor s) fun s' hs' => ?_
    rw [typeDescriptor_of_avoids (hs'.avoids (by decide) h)]

theorem alike_methodDescriptor (s : List Char) :
    Alike s s (outcome (methodDescriptor s)) fun s' => outcome (methodDescriptor s') := by
  rcases begins_with '(' s with ⟨r, rfl⟩ | h
  · refine .next '(' ?_
    have hr : r <:+ '(' :: r := List.suffix_cons _ _
    simp only [outcome_methodDescriptor]
    refine .andThen ((alike_entriesUntil (by decide) (alike_valueDescriptor .valueType) r).widen hr)
      fun ps r₁ hps hr₁ s' => .andThen ((alike_typeDescriptor r₁).widen (hr₁.trans hr))
        fun t r₂ _ _ s'' => .building (fun e he => ?_) fun d _ => .stay fun _ _ => rfl
    -- No parameter is `void`.
    have hvoid := forall_of_entriesUntil (fun _ _ _ h => (spells_valueDescriptor h).2)
      (outcome_eq_ok_iff.mp hps)
    unfold makeMethodDescriptor at he
    rw [checkParameters_of_no_void hvoid] at he
    exact nomatch he
  · rw [outcome_methodDescriptor_of_avoids h]
    exact .wanted fun s' hs' => outcome_methodDescriptor_of_avoids (hs'.avoids (by decide) h)

/-! ## Types -/

theorem alike_variableName (s : List Char) :
    Alike s s (outcome (variableName s)) fun s' => outcome (variableName s') :=
  alike_nameUntilEnd (fun _ _ => rejects_of_makeFreeVariable) s

mutual

theorem alike_value (e : Expected) (s : List Char) :
    Alike s s (outcome (value e s)) fun s' => outcome (value e s') := by
  rcases begins (openings ++ codes) s with ⟨c, hc, r, rfl⟩ | h
  · rcases List.mem_append.mp hc with hc | hc
    · rw [outcome_value_reference hc]
      refine .congr (.map (alike_reference (c :: r)) _) fun s' hs' => ?_
      obtain ⟨r', rfl⟩ := hs'.exists_eq_cons (ascii_openings _ hc)
      exact outcome_value_reference hc r'
    · obtain ⟨p, -, rfl⟩ := List.mem_map.mp hc
      refine .next p.code ?_
      simp only [outcome_value_primitive]
      exact .stay fun _ _ => rfl
  · rw [outcome_value_of_avoids h]
    exact .wanted fun s' hs' => outcome_value_of_avoids (hs'.avoids (by decide) h)
termination_by (s.length, 2)
decreasing_by
  subst_vars
  exact Prod.Lex.right _ (by omega)

theorem alike_reference (s : List Char) :
    Alike s s (outcome (reference s)) fun s' => outcome (reference s') := by
  rcases begins openings s with ⟨c, hc, r, rfl⟩ | h
  · have hr : r <:+ c :: r := List.suffix_cons _ _
    simp only [openings, List.mem_cons, List.not_mem_nil, or_false] at hc
    rcases hc with rfl | rfl | rfl
    · refine .next 'L' ?_
      simp only [outcome_reference_class]
      exact .map ((alike_segments .topLevel r).widen hr) _
    · have hbase := alike_value .valueType (sinceDimensions r)
      rw [outcome_reference_array]
      refine .dimensions (Z := fun s' =>
        (outcome (value .valueType s')).andThen fun b w =>
          building ('[' :: (List.replicate (dimensions r) '[' ++ s')) (dimensions r + 1)
            (makeArrayType (dimensions r + 1) b) fun a => .ok (.refArray a, w))
        (.andThen (hbase.widen ((List.dropWhile_suffix _).trans hr)) fun b w hb _ s' =>
          .building (fun e he => ?_) fun a _ => .stay fun _ _ => rfl) fun c s' hc => ?_
      · obtain ⟨hspells, hvoid⟩ := spells_value (outcome_eq_ok_iff.mp hb)
        exact shows_of_dimensions (rejects_of_makeArrayType (Nat.le_add_left _ _)
          (isBase_of_spells_type hspells hvoid) he)
      · obtain ⟨hd, hs⟩ := dimensions_replicate_cons hc (dimensions r) s'
        rw [outcome_reference_array, hd, hs]
    · refine .next 'T' ?_
      simp only [outcome_reference_variable]
      exact .map ((alike_variableName r).widen hr) _
  · rw [outcome_reference_of_avoids h]
    exact .wanted fun s' hs' => outcome_reference_of_avoids (hs'.avoids (by decide) h)
termination_by (s.length, 1)
decreasing_by
  all_goals subst_vars
  · exact Prod.Lex.left _ _ (Nat.lt_succ_self _)
  · exact Prod.Lex.left _ _ (Nat.lt_succ_of_le (length_sinceDimensions_le r))

theorem alike_segments (o : TypeTree Unit .enclosing) (s : List Char) :
    Alike s s (outcome (segments o s)) fun s' => outcome (segments o s') := by
  rcases cut ['<', '.', ';'] s with h | ⟨name, c', r, hname, hc, rfl⟩
  · rw [outcome_segments_of_end h]
    exact .atEnd
  · have hr : c' :: r <:+ name ++ c' :: r := List.suffix_append _ _
    rw [outcome_segments hname hc]
    refine .skip name (.congr (Z := fun s' =>
      (outcome (optionalArguments s')).andThen fun as w =>
        building (name ++ s') (Text.byteSize name) (makeClassType o (String.ofList name) as)
          fun d => segmentEnd d w)
      (.andThen ((alike_optionalArguments (c' :: r)).widen hr) fun as w has hw s' =>
        .building (fun e he => .invalid (List.suffix_refl _) (rejects_of_makeClassType he))
          fun d _ => ?_) fun s' hs' => ?_)
    · rcases begins ['.', ';'] w with ⟨c, hc, v, rfl⟩ | h
      · have hv : v <:+ name ++ c' :: r := ((List.suffix_cons _ _).trans hw).trans hr
        simp only [List.mem_cons, List.not_mem_nil, or_false] at hc
        have hlt : v.length < (name ++ c' :: r).length :=
          Nat.lt_of_lt_of_le (Nat.lt_succ_self _) (hw.trans hr).length_le
        rcases hc with rfl | rfl
        · exact .next '.' (.map ((alike_segments (.nestedIn d) v).widen hv) _)
        · exact .next ';' (.stay fun _ _ => rfl)
      · rw [segmentEnd_of_avoids h]
        exact .wanted fun s' hs' => segmentEnd_of_avoids (hs'.avoids (by decide) h)
    · have hstops : Ascii ['<', '.', ';'] := by decide
      obtain ⟨r', rfl⟩ := hs'.exists_eq_cons (hstops _ hc)
      exact outcome_segments hname hc r'
termination_by (s.length, 1)
decreasing_by
  all_goals subst_vars
  · exact Prod.Lex.right' _ hr.length_le (by omega)
  · exact Prod.Lex.left _ _ hlt

theorem alike_optionalArguments (s : List Char) :
    Alike s s (outcome (optionalArguments s)) fun s' => outcome (optionalArguments s') := by
  rcases begins_with '<' s with ⟨r, rfl⟩ | h
  · rcases begins_with '>' r with ⟨w, rfl⟩ | hr
    · rw [outcome_optionalArguments_empty]
      exact .empty outcome_optionalArguments_empty
    · rw [outcome_optionalArguments hr]
      have hs := (alike_arguments r).widen (List.suffix_cons '<' r)
      refine .next '<' (.congr (.map hs _) fun s' hs' => ?_)
      exact outcome_optionalArguments (hs'.avoids (by decide) hr)
  · rw [outcome_optionalArguments_of_avoids h]
    exact .stay fun s' hs' => outcome_optionalArguments_of_avoids (hs'.avoids (by decide) h)
termination_by (s.length, 0)
decreasing_by
  subst_vars
  exact Prod.Lex.left _ _ (Nat.lt_succ_self _)

theorem alike_arguments (s : List Char) :
    Alike s s (outcome (arguments s)) fun s' => outcome (arguments s') := by
  simp only [outcome_arguments]
  refine .andThen (alike_argument s) fun a w ha hw _ => ?_
  cases w with
  | nil => exact .atEnd
  | cons c v =>
      by_cases hc : c = '>'
      · subst hc
        exact .next '>' (.stay fun _ _ => rfl)
      · rw [argumentEnd_of_ne hc]
        refine .congr (.map ((alike_arguments (c :: v)).widen hw) _) fun s' hs' => ?_
        cases hs' with
        | cons hres =>
            exact argumentEnd_of_ne (hres.ne (by decide) hc) _
termination_by (s.length, 3)
decreasing_by
  · exact Prod.Lex.right _ (by omega)
  · exact Prod.Lex.left _ _ (length_lt_of_outcome ha)

theorem alike_argument (s : List Char) :
    Alike s s (outcome (argument s)) fun s' => outcome (argument s') := by
  rcases begins ('*' :: '+' :: '-' :: openings) s with ⟨c, hc, r, rfl⟩ | h
  · have hr : r <:+ c :: r := List.suffix_cons _ _
    have hbounded : ∀ d : Direction, Alike (d.code :: r) (d.code :: r)
        (outcome (argument (d.code :: r))) fun s' => outcome (argument s') := by
      intro d
      refine .next d.code ?_
      simp only [outcome_argument_bounded]
      exact .map ((alike_reference r).widen (List.suffix_cons _ _)) _
    rcases List.mem_cons.mp hc with rfl | hc
    · refine .next '*' ?_
      simp only [outcome_argument_wildcard]
      exact .stay fun _ _ => rfl
    rcases List.mem_cons.mp hc with rfl | hc
    · exact hbounded .upper
    rcases List.mem_cons.mp hc with rfl | hc
    · exact hbounded .lower
    · rw [outcome_argument_reference hc]
      refine .congr (.map (alike_reference (c :: r)) _) fun s' hs' => ?_
      obtain ⟨r', rfl⟩ := hs'.exists_eq_cons (ascii_openings _ hc)
      exact outcome_argument_reference hc r'
  · rw [outcome_argument_of_avoids h]
    exact .wanted fun s' hs' => outcome_argument_of_avoids (hs'.avoids (by decide) h)
termination_by (s.length, 2)
decreasing_by
  all_goals subst_vars
  · exact Prod.Lex.left _ _ (Nat.lt_succ_self _)
  · exact Prod.Lex.right _ (by omega)

end

/-! ## Declarations -/

theorem alike_classType (s : List Char) :
    Alike s s (outcome (classType s)) fun s' => outcome (classType s') := by
  rcases begins_with 'L' s with ⟨r, rfl⟩ | h
  · refine .next 'L' ?_
    simp only [outcome_classType]
    exact .map ((alike_segments .topLevel r).widen (List.suffix_cons _ _)) _
  · rw [outcome_classType_of_avoids h]
    exact .wanted fun s' hs' => outcome_classType_of_avoids (hs'.avoids (by decide) h)

theorem alike_typeSignature (s : List Char) :
    Alike s s (outcome (typeSignature s)) fun s' => outcome (typeSignature s') := by
  rcases begins_with 'V' s with ⟨r, rfl⟩ | h
  · refine .next 'V' ?_
    simp only [outcome_typeSignature_void]
    exact .stay fun _ _ => rfl
  · rw [outcome_typeSignature_of_avoids h]
    exact .congr (alike_value .typeSignature s) fun s' hs' =>
      outcome_typeSignature_of_avoids (hs'.avoids (by decide) h)

theorem alike_interfaceBounds (s : List Char) :
    Alike s s (outcome (interfaceBounds s)) fun s' => outcome (interfaceBounds s') := by
  rcases begins_with ':' s with ⟨r, rfl⟩ | h
  · have hr : r <:+ ':' :: r := List.suffix_cons _ _
    refine .next ':' ?_
    simp only [outcome_interfaceBounds]
    exact .andThen ((alike_reference r).widen hr) fun t w ht hw _ =>
      .map ((alike_interfaceBounds w).widen (hw.trans hr)) _
  · rw [outcome_interfaceBounds_of_avoids h]
    exact .stay fun s' hs' => outcome_interfaceBounds_of_avoids (hs'.avoids (by decide) h)
termination_by s.length
decreasing_by
  subst_vars
  exact Nat.lt_succ_of_le hw.length_le

theorem alike_optionalClassBound (s : List Char) :
    Alike s s (outcome (optionalClassBound s)) fun s' => outcome (optionalClassBound s') := by
  rcases begins openings s with ⟨c, hc, r, rfl⟩ | h
  · rw [outcome_optionalClassBound hc]
    refine .congr (.map (alike_reference (c :: r)) _) fun s' hs' => ?_
    obtain ⟨r', rfl⟩ := hs'.exists_eq_cons (ascii_openings _ hc)
    exact outcome_optionalClassBound hc r'
  · rw [outcome_optionalClassBound_of_avoids h]
    exact .stay fun s' hs' => outcome_optionalClassBound_of_avoids (hs'.avoids (by decide) h)

theorem alike_typeParameter (s : List Char) :
    Alike s s (outcome (typeParameter s)) fun s' => outcome (typeParameter s') := by
  rcases cut [':', '>'] s with h | ⟨name, c, r, hname, hc, rfl⟩
  · rw [outcome_typeParameter_of_ne (by simp [h]), h]
    exact .atEnd
  · simp only [List.mem_cons, List.not_mem_nil, or_false] at hc
    rcases hc with rfl | rfl
    · have hr : r <:+ name ++ ':' :: r := (List.suffix_cons _ _).trans (List.suffix_append _ _)
      refine .skip name (.next ':' ?_)
      simp only [outcome_typeParameter hname]
      exact .andThen ((alike_optionalClassBound r).widen hr) fun c r₁ _ hr₁ _ =>
        .andThen ((alike_interfaceBounds r₁).widen (hr₁.trans hr)) fun is r₂ _ _ _ =>
          .building (fun e he => .invalid (List.suffix_refl _) (rejects_of_makeTypeParameter he))
            fun p _ => .stay fun _ _ => rfl
    · have hsince : ∀ r, since [':', '>'] (name ++ '>' :: r) = '>' :: r := fun r =>
        since_append hname (by simp)
      have hwanted : ∀ r, outcome (typeParameter (name ++ '>' :: r)) =
          .error (.expected (.char ':') ('>' :: r)) := by
        intro r
        rw [outcome_typeParameter_of_ne (by simp [hsince]), hsince]
      rw [hwanted]
      refine .skip name (.wanted fun s' hs' => ?_)
      obtain ⟨r', rfl⟩ := hs'.exists_eq_cons (by decide)
      exact hwanted r'

theorem alike_optionalTypeParameters (s : List Char) :
    Alike s s (outcome (optionalTypeParameters s)) fun s' =>
      outcome (optionalTypeParameters s') := by
  rcases begins_with '<' s with ⟨r, rfl⟩ | h
  · rcases begins_with '>' r with ⟨w, rfl⟩ | hr
    · rw [outcome_optionalTypeParameters_empty]
      exact .empty outcome_optionalTypeParameters_empty
    · have hps := alike_someEntriesUntil (show Ascii ['>'] by decide) alike_typeParameter r
      rw [outcome_optionalTypeParameters hr]
      refine .next '<' (.congr (.map (hps.widen (List.suffix_cons _ _)) _) fun s' hs' => ?_)
      exact outcome_optionalTypeParameters (hs'.avoids (by decide) hr)
  · rw [outcome_optionalTypeParameters_of_avoids h]
    exact .stay fun s' hs' => outcome_optionalTypeParameters_of_avoids (hs'.avoids (by decide) h)

theorem alike_throwsType (s : List Char) :
    Alike s s (outcome (throwsType s)) fun s' => outcome (throwsType s') := by
  rcases begins ['L', 'T'] s with ⟨c, hc, r, rfl⟩ | h
  · have hr : r <:+ c :: r := List.suffix_cons _ _
    simp only [List.mem_cons, List.not_mem_nil, or_false] at hc
    rcases hc with rfl | rfl
    · refine .next 'L' ?_
      simp only [outcome_throwsType_class]
      exact .map ((alike_segments .topLevel r).widen hr) _
    · refine .next 'T' ?_
      simp only [outcome_throwsType_variable]
      exact .map ((alike_variableName r).widen hr) _
  · rw [outcome_throwsType_of_avoids h]
    exact .wanted fun s' hs' => outcome_throwsType_of_avoids (hs'.avoids (by decide) h)

theorem alike_throwsTypes (s : List Char) :
    Alike s s (outcome (throwsTypes s)) fun s' => outcome (throwsTypes s') := by
  rcases begins_with '^' s with ⟨r, rfl⟩ | h
  · have hr : r <:+ '^' :: r := List.suffix_cons _ _
    refine .next '^' ?_
    simp only [outcome_throwsTypes]
    exact .andThen ((alike_throwsType r).widen hr) fun t w ht hw _ =>
      .map ((alike_throwsTypes w).widen (hw.trans hr)) _
  · rw [outcome_throwsTypes_of_avoids h]
    exact .stay fun s' hs' => outcome_throwsTypes_of_avoids (hs'.avoids (by decide) h)
termination_by s.length
decreasing_by
  subst_vars
  exact Nat.lt_succ_of_le hw.length_le

theorem alike_methodSignature (s : List Char) :
    Alike s s (outcome (methodSignature s)) fun s' => outcome (methodSignature s') := by
  simp only [outcome_methodSignature]
  refine .andThen (alike_optionalTypeParameters s) fun ts r _ hr s' => ?_
  rcases begins_with '(' r with ⟨w, rfl⟩ | h
  · have hw : w <:+ s := (List.suffix_cons _ _).trans hr
    have hps := alike_entriesUntil (show Ascii [')'] by decide) (alike_value .valueType) w
    refine .next '(' ?_
    simp only [methodEnd]
    refine .andThen (hps.widen hw) fun ps r₁ hps hr₁ _ =>
      .andThen ((alike_typeSignature r₁).widen (hr₁.trans hw)) fun t r₂ _ hr₂ _ =>
        .andThen ((alike_throwsTypes r₂).widen (hr₂.trans (hr₁.trans hw))) fun es r₃ _ _ _ =>
          .building (fun e he => ?_) fun d _ => .stay fun _ _ => rfl
    -- No parameter is `void`.
    have hvoid := forall_of_entriesUntil (fun _ _ _ h => (spells_value h).2)
      (outcome_eq_ok_iff.mp hps)
    unfold makeMethodSignature at he
    rw [checkParameters_of_no_void hvoid] at he
    exact nomatch he
  · rw [methodEnd_of_avoids h]
    exact .wanted fun s' hs' => methodEnd_of_avoids (hs'.avoids (by decide) h)

theorem alike_interfaces (s : List Char) :
    Alike s s (outcome (interfaces s)) fun s' => outcome (interfaces s') := by
  rcases begins_with 'L' s with ⟨r, rfl⟩ | h
  · have hr : r <:+ 'L' :: r := List.suffix_cons _ _
    refine .next 'L' ?_
    simp only [outcome_interfaces]
    exact .andThen ((alike_segments .topLevel r).widen hr) fun c w hc hw _ =>
      .map ((alike_interfaces w).widen (hw.trans hr)) _
  · rw [outcome_interfaces_of_avoids h]
    exact .stay fun s' hs' => outcome_interfaces_of_avoids (hs'.avoids (by decide) h)
termination_by s.length
decreasing_by
  subst_vars
  exact Nat.lt_succ_of_le hw.length_le

theorem alike_classSignature (s : List Char) :
    Alike s s (outcome (classSignature s)) fun s' => outcome (classSignature s') := by
  simp only [outcome_classSignature]
  exact .andThen (alike_optionalTypeParameters s) fun ts r _ hr _ =>
    .andThen ((alike_classType r).widen hr) fun c w _ hw _ =>
      .map ((alike_interfaces w).widen (hw.trans hr)) _

/-- **Every rule looks one character ahead.** -/
theorem alike_rule (k : Start) (s : List Char) :
    Alike s s (outcome (rule k s)) fun s' => outcome (rule k s') := by
  cases k with
  | typeDescriptor => exact alike_typeDescriptor s
  | classDescriptor => exact alike_classDescriptor s
  | methodDescriptor => exact alike_methodDescriptor s
  | typeSignature => exact alike_typeSignature s
  | referenceType => exact alike_reference s
  | classType => exact alike_classType s
  | methodSignature => exact alike_methodSignature s
  | classSignature => exact alike_classSignature s
  | typeParameter => exact alike_typeParameter s
  | typeArgument => exact alike_argument s

end Grammar

end ClassfileTypes
