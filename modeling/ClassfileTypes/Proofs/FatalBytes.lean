import ClassfileTypes.Proofs.Quotations

/-!
# Errors are at the fatal byte

Where a text should have continued otherwise, the error is at the first byte that is wrong:
whatever comes after it, a text with the same bytes up to this one has the same error at the
same place. So no other continuation would have helped. Where a list is empty, the same holds
of the two brackets. And a text with something after its tree has the error there, whatever it
is. This is so in any two sessions, since what a session has seen does not show.
-/

namespace ClassfileTypes

open Grammar (Parting Resembles SameStart)

/-! ## The same bytes -/

namespace Text

/-- The first `n` bytes of the texts are the same. -/
def SameBytes (n : Nat) (text text' : String) : Prop :=
  (toBytes text'.toList).take n = (toBytes text.toList).take n

instance (n : Nat) (text text' : String) : Decidable (SameBytes n text text') :=
  inferInstanceAs (Decidable (_ = _))

variable {n : Nat} {text text' : String} {before after : List Char}

/-- What lies within the bytes is the same, and so are the rest of the bytes. -/
theorem SameBytes.exists_append (h : SameBytes n text text') (htext : text.toList = before ++ after)
    (hn : byteSize before ≤ n) :
    ∃ after', text'.toList = before ++ after' ∧
      (toBytes after').take (n - byteSize before) =
        (toBytes after).take (n - byteSize before) := by
  have htake : ∀ ds, (toBytes (before ++ ds)).take n =
      toBytes before ++ (toBytes ds).take (n - byteSize before) := by
    intro ds
    rw [toBytes_append, List.take_append, length_toBytes,
      List.take_of_length_le (by rw [length_toBytes]; exact hn)]
  have hbytes := h
  unfold SameBytes at hbytes
  rw [htext, htake] at hbytes
  have hprefix := List.take_prefix n (toBytes text'.toList)
  rw [hbytes] at hprefix
  obtain ⟨after', hafter⟩ := prefix_of_toBytes ((List.prefix_append _ _).trans hprefix)
  rw [← hafter, htake] at hbytes
  exact ⟨after', hafter.symm, List.append_cancel_left hbytes⟩

/-- The first byte of a character is enough to know what it resembles. -/
theorem SameBytes.exists_resembling {c : Char} (htext : text.toList = before ++ c :: after)
    (h : SameBytes (byteSize before + 1) text text') :
    ∃ c' after', text'.toList = before ++ c' :: after' ∧ Resembles c c' := by
  obtain ⟨after', htext', hbytes⟩ := h.exists_append htext (Nat.le_succ _)
  rw [Nat.add_sub_cancel_left] at hbytes
  obtain ⟨b, bs, hc, hlead⟩ := exists_lead c
  cases after' with
  | nil =>
      rw [toBytes, toBytes, List.flatMap_cons, hc] at hbytes
      exact absurd hbytes.symm (List.cons_ne_nil _ _)
  | cons c' after' =>
      obtain ⟨b', bs', hc', hlead'⟩ := exists_lead c'
      rw [toBytes, toBytes, List.flatMap_cons, List.flatMap_cons, hc, hc'] at hbytes
      obtain rfl : b' = b := (List.cons.inj hbytes).1
      refine ⟨c', after', htext', ?_⟩
      by_cases hsmall : c.toNat < 128
      · exact Or.inl (Char.toNat_inj.mp (by omega))
      · exact Or.inr (by omega)

theorem SameBytes.exists_sameStart (hafter : after ≠ []) (htext : text.toList = before ++ after)
    (h : SameBytes (byteSize before + 1) text text') :
    ∃ after', text'.toList = before ++ after' ∧ SameStart after after' := by
  cases after with
  | nil => exact absurd rfl hafter
  | cons c w =>
      obtain ⟨c', w', htext', hc⟩ := h.exists_resembling htext
      exact ⟨c' :: w', htext', .cons hc w w'⟩

end Text

/-! ## Failing alike -/

/-- The reading fails as `e` says: the same is wrong at the same place. -/
def FailsLike {α : Type} (x : Except ParseError α) (e : ParseError) : Prop :=
  ∃ e', x = .error e' ∧ e'.kind = e.kind ∧ e'.offset = e.offset

/-- Where `read` fails on a text, `read'` fails on every text that is the same up to there:
up to the byte that another continuation was expected for, or up to the end of the brackets
with nothing between them. -/
structure FailAlike {α β : Type} (read : String → Except ParseError α)
    (read' : String → Except ParseError β) : Prop where
  expected : ∀ text text' e x, read text = .error e → e.kind = .expected x →
    e.offset < Text.byteSize text.toList → Text.SameBytes (e.offset + 1) text text' →
      FailsLike (read' text') e
  emptyList : ∀ text text' e, read text = .error e → e.kind = .emptyList →
    Text.SameBytes (e.offset + 2) text text' → FailsLike (read' text') e

/-- Other readings with the same errors fail alike, too. -/
theorem FailAlike.congr {α β γ δ : Type} {read : String → Except ParseError α}
    {read' : String → Except ParseError β} {other : String → Except ParseError γ}
    {other' : String → Except ParseError δ} (h : FailAlike read read')
    (hread : ∀ text e, other text = .error e ↔ read text = .error e)
    (hread' : ∀ text e, other' text = .error e ↔ read' text = .error e) :
    FailAlike other other' where
  expected text text' e x he hkind hinside hbytes := by
    obtain ⟨e', he', hlike⟩ :=
      h.expected text text' e x ((hread text e).mp he) hkind hinside hbytes
    exact ⟨e', (hread' text' e').mpr he', hlike⟩
  emptyList text text' e he hkind hbytes := by
    obtain ⟨e', he', hlike⟩ := h.emptyList text text' e ((hread text e).mp he) hkind hbytes
    exact ⟨e', (hread' text' e').mpr he', hlike⟩

section

variable {k : Start} {text text' : String} {before v r' : List Char} {start : Nat}

/-- If the beginning is between characters, what is wrong is a fault of what stands there. -/
theorem exists_fault {e : ParseError}
    (h : (readAt k text start : ExceptT ParseError Id _).run = .error e)
    (hkind : e.kind ≠ .invalidOffset) :
    ∃ before v f, text.toList = before ++ (v ++ f.rest) ∧ Text.byteSize before = start ∧
      Grammar.outcome (Grammar.rule k (v ++ f.rest)) = .error f ∧ e = .ofFault text f := by
  cases hdrop : Text.dropBytes? text.toList start with
  | none =>
      unfold readAt at h
      rw [hdrop] at h
      obtain rfl := Except.error.inj h
      exact absurd rfl hkind
  | some s =>
      obtain ⟨before, htext, rfl⟩ := Text.eq_append_of_dropBytes? hdrop
      obtain ⟨f, hf, he⟩ := exists_fault_of_readAt htext h
      obtain ⟨v, rfl⟩ := ((Grammar.alike_rule k s).shows f hf).suffix
      exact ⟨before, v, f, htext, rfl, hf, he⟩

/-- A fault that is seen in another text is the same fault there. -/
theorem failsLike_of_sameStart {f : Fault} (htext : text.toList = before ++ (v ++ f.rest))
    (hf : Grammar.outcome (Grammar.rule k (v ++ f.rest)) = .error f)
    (htext' : text'.toList = before ++ (v ++ r')) (hstart : SameStart f.rest r')
    (hseen : f.SeenIn r') :
    FailsLike (readAt k text' (Text.byteSize before) : ExceptT ParseError Id _).run
      (.ofFault text f) := by
  have hf' := (Grammar.alike_rule k (v ++ f.rest)).error f (v ++ r') r' hf hseen
    ⟨v, rfl, rfl, hstart⟩
  refine ⟨.ofFault text' { f with rest := r' }, ?_, rfl, ?_⟩
  · rw [run_readAt k htext', hf']
  · rw [← List.append_assoc] at htext htext'
    rw [ParseError.offset_ofFault htext, ParseError.offset_ofFault htext']

/-- **Reading decides at the fatal byte.** -/
theorem failAlike_readAt (k : Start) (start : Nat) :
    FailAlike (fun text => (readAt k text start : ExceptT ParseError Id _).run)
      (fun text => (readAt k text start : ExceptT ParseError Id _).run) where
  expected text text' e x h hkind hinside hbytes := by
    obtain ⟨before, v, f, htext, rfl, hf, rfl⟩ := exists_fault h (by rw [hkind]; exact nofun)
    have hcut : text.toList = (before ++ v) ++ f.rest := by rw [htext, List.append_assoc]
    rw [ParseError.offset_ofFault hcut] at hinside hbytes
    have hrest : f.rest ≠ [] := by
      intro hnil
      rw [hcut, hnil, List.append_nil] at hinside
      exact Nat.lt_irrefl _ hinside
    obtain ⟨r', htext', hstart⟩ := hbytes.exists_sameStart hrest hcut
    have hseen : f.SeenIn r' := by
      have hfault : f.kind = .expected x := hkind
      unfold Fault.SeenIn
      rw [hfault]
      trivial
    exact failsLike_of_sameStart htext hf (by rw [htext', List.append_assoc]) hstart hseen
  emptyList text text' e h hkind hbytes := by
    obtain ⟨before, v, f, htext, rfl, hf, rfl⟩ := exists_fault h (by rw [hkind]; exact nofun)
    obtain ⟨r, hrest⟩ := ((Grammar.alike_rule k _).shows f hf).exists_rest_of_emptyList hkind
    have hcut : text.toList = (before ++ v) ++ f.rest := by rw [htext, List.append_assoc]
    rw [ParseError.offset_ofFault hcut] at hbytes
    rw [hrest] at hcut
    have hbrackets : text.toList = (before ++ v ++ ['<', '>']) ++ r := by
      rw [hcut, List.append_assoc _ _ r]
      rfl
    obtain ⟨r', htext', -⟩ := hbytes.exists_append hbrackets
      (by rw [Text.byteSize_append]; exact Nat.le_refl _)
    have hstart : SameStart f.rest ('<' :: '>' :: r') := by
      rw [hrest]
      exact .cons (Or.inl rfl) _ _
    have hseen : f.SeenIn ('<' :: '>' :: r') := by
      have hfault : f.kind = .emptyList := hkind
      unfold Fault.SeenIn
      rw [hfault]
      exact List.prefix_append ['<', '>'] r'
    refine failsLike_of_sameStart htext hf ?_ hstart hseen
    rw [htext', List.append_assoc, List.append_assoc]
    rfl

/-! ## Whole texts -/

theorem run_readAt_zero (k : Start) (text : String) :
    (readAt k text 0 : ExceptT ParseError Id _).run =
      match Grammar.outcome (Grammar.rule k text.toList) with
      | .ok (t, r) => .ok (t, Text.byteSize text.toList - Text.byteSize r)
      | .error f => .error (.ofFault text f) :=
  run_readAt k (List.nil_append text.toList).symm

/-- What is wrong from the beginning is wrong with the whole text. -/
theorem run_parse_of_error {e : ParseError}
    (h : (readAt k text 0 : ExceptT ParseError Id _).run = .error e) :
    (parse k text : ExceptT ParseError Id _).run = .error e := by
  unfold parse
  rw [parseAt_plain]
  show ExceptT.bindCont _ (readAt k text 0 : ExceptT ParseError Id _).run = _
  rw [h]
  rfl

/-- A tree with nothing after it is what is read, and anything after it is an error. -/
theorem run_parse_of_outcome {t : TypeTree Unit k.form} {w r : List Char}
    (htext : text.toList = w ++ r)
    (h : Grammar.outcome (Grammar.rule k text.toList) = .ok (t, r)) :
    (parse k text : ExceptT ParseError Id _).run =
      if r = [] then .ok t
      else .error (.quoting text (.expected .endOfInput) (Text.byteSize w) Fault.quotation) := by
  have hread := run_readAt_zero k text
  have hsize : Text.byteSize text.toList = Text.byteSize w + Text.byteSize r := by
    rw [htext, Text.byteSize_append]
  rw [h] at hread
  dsimp only at hread
  rw [hsize, Nat.add_sub_cancel] at hread
  unfold parse
  rw [parseAt_plain]
  show ExceptT.bindCont _ (readAt k text 0 : ExceptT ParseError Id _).run = _
  rw [hread]
  show (if Text.byteSize w = Text.byteSize text.toList then _ else _ :
    ExceptT ParseError Id _).run = _
  by_cases hr : r = []
  · rw [if_pos hr, if_pos (by rw [hsize, hr]; rfl)]
    rfl
  · have hpos := Text.byteSize_pos hr
    rw [if_neg hr, if_neg (by omega)]
    rfl

/-- A whole text is read from its beginning, and is wrong where that is, or it has something
after what is read. -/
theorem run_parse_eq_error {e : ParseError}
    (h : (parse k text : ExceptT ParseError Id _).run = .error e) :
    (readAt k text 0 : ExceptT ParseError Id _).run = .error e ∨
      ∃ t w r, text.toList = w ++ r ∧ r ≠ [] ∧
        Grammar.outcome (Grammar.rule k text.toList) = .ok (t, r) ∧
          e = .quoting text (.expected .endOfInput) (Text.byteSize w) Fault.quotation := by
  cases houtcome : Grammar.outcome (Grammar.rule k text.toList) with
  | error f =>
      have hread := run_readAt_zero k text
      rw [houtcome] at hread
      rw [run_parse_of_error hread] at h
      obtain rfl := Except.error.inj h
      exact Or.inl hread
  | ok v =>
      obtain ⟨t, r⟩ := v
      obtain ⟨w, hw⟩ := (Grammar.alike_rule k text.toList).rest t r houtcome
      rw [run_parse_of_outcome hw.symm houtcome] at h
      split_ifs at h with hr
      exact Or.inr ⟨t, w, r, hw.symm, hr, rfl, (Except.error.inj h).symm⟩

theorem FailsLike.parse {e : ParseError}
    (h : FailsLike (readAt k text 0 : ExceptT ParseError Id _).run e) :
    FailsLike (parse k text : ExceptT ParseError Id _).run e := by
  obtain ⟨e', hread, hlike⟩ := h
  exact ⟨e', run_parse_of_error hread, hlike⟩

/-- **Reading whole texts decides at the fatal byte, too.** -/
theorem failAlike_parse (k : Start) :
    FailAlike (fun text => (parse k text : ExceptT ParseError Id _).run)
      (fun text => (parse k text : ExceptT ParseError Id _).run) where
  expected text text' e x h hkind hinside hbytes := by
    rcases run_parse_eq_error h with h | ⟨t, w, r, htext, hr, houtcome, rfl⟩
    · exact ((failAlike_readAt k 0).expected text text' e x h hkind hinside hbytes).parse
    · -- Something comes after the tree in the other text, too.
      obtain ⟨r', htext', hstart⟩ := hbytes.exists_sameStart hr htext
      have hr' : r' ≠ [] := by
        rintro rfl
        exact nomatch hstart
      have houtcome' := (Grammar.alike_rule k text.toList).ok t r text'.toList r' houtcome
        ⟨w, htext, htext', hstart⟩
      refine ⟨.quoting text' (.expected .endOfInput) (Text.byteSize w) Fault.quotation, ?_,
        rfl, rfl⟩
      rw [run_parse_of_outcome htext' houtcome', if_neg hr']
  emptyList text text' e h hkind hbytes := by
    rcases run_parse_eq_error h with h | ⟨t, w, r, -, -, -, rfl⟩
    · exact ((failAlike_readAt k 0).emptyList text text' e h hkind hbytes).parse
    · exact nomatch hkind

end

/-! ## In sessions -/

namespace Session

/-- **Errors are at the fatal byte.** In any two sessions, for every form: where a text should
have continued otherwise, and something else stands there, every text that is the same up to
the first byte of it fails at the same place, since the same is wrong. Where brackets have
nothing between them, so does every text that is the same up to the end of the brackets. This
holds of reading from any place and of reading whole texts. -/
theorem failAlike_of_sessions (c c' : Intern.Config) (steps steps' : List Step) (k : Start) :
    let p := ((Session.start c).after steps).pool
    let p' := ((Session.start c').after steps').pool
    (∀ start, FailAlike
      (fun text => ((parseAt k text start : ExceptT ParseError PoolM _).run p).1)
      (fun text => ((parseAt k text start : ExceptT ParseError PoolM _).run p').1)) ∧
    FailAlike
      (fun text => ((parse k text : ExceptT ParseError PoolM _).run p).1)
      (fun text => ((parse k text : ExceptT ParseError PoolM _).run p').1) := by
  intro p p'
  have hs : Pool.Sound False p := (valid_after_start c steps).sound
  have hs' : Pool.Sound False p' := (valid_after_start c' steps').sound
  refine ⟨fun start => ?_, ?_⟩
  · exact (failAlike_readAt k start).congr
      (fun text _ => Pool.parseAt_eq_error_iff hs k text start)
      (fun text _ => Pool.parseAt_eq_error_iff hs' k text start)
  · exact (failAlike_parse k).congr (fun text _ => (Pool.refines_parse k text).eq_error_iff hs)
      (fun text _ => (Pool.refines_parse k text).eq_error_iff hs')

/-- Two characters of two bytes with the same first byte, where a parameter should stand and
after a whole class, and brackets with nothing between them. -/
theorem failAlike_of_sessions_after_lead :
    let steps : List Step := [.value (.parse .methodDescriptor "(I)V") (some "m")]
    let p' := ((start {}).after steps).pool
    let e : ParseError := ⟨.expected .valueType, 2, "é", "(Ié"⟩
    let e' : ParseError := ⟨.expected .endOfInput, 3, "é", "La;é"⟩
    let e'' : ParseError := ⟨.emptyList, 0, "<>", "<>()V"⟩
    FailsLike ((parseAt .methodDescriptor "(Iü)V" 0 : ExceptT ParseError PoolM _).run p').1 e ∧
      FailsLike ((parse .classDescriptor "La;ü" : ExceptT ParseError PoolM _).run p').1 e' ∧
        FailsLike ((parseAt .methodSignature "<>é" 0 : ExceptT ParseError PoolM _).run p').1
          e'' := by
  intro steps p' e e' e''
  obtain ⟨hmethod, -⟩ := failAlike_of_sessions {} {} [] steps .methodDescriptor
  obtain ⟨-, hclass⟩ := failAlike_of_sessions {} {} [] steps .classDescriptor
  obtain ⟨hsignature, -⟩ := failAlike_of_sessions {} {} [] steps .methodSignature
  refine ⟨?_, ?_, ?_⟩
  · exact (hmethod 0).expected "(Ié" "(Iü)V" e .valueType (by decide +kernel) rfl (by decide)
      (by decide)
  · exact hclass.expected "La;é" "La;ü" e' .endOfInput (by decide +kernel) rfl (by decide)
      (by decide)
  · exact (hsignature 0).emptyList "<>()V" "<>é" e'' (by decide +kernel) rfl (by decide)

end Session

end ClassfileTypes
