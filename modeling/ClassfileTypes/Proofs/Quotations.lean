import ClassfileTypes.Proofs.Bytes
import ClassfileTypes.Proofs.LookaheadRules
import ClassfileTypes.Proofs.Texts

/-!
# What errors quote

An error says where in the text it is and quotes what stands there. The place is not before
the one that reading began at. Where the text should have continued otherwise, the quotation
is the bytes from there on; where a list is empty, it is the two brackets; and where a tree
was refused, it is the name or the dimensions that it was refused for, which are all that a
tree can be refused for when its parts were read from a text.
-/

namespace ClassfileTypes

namespace Text

/-- The text `found` stands at the byte offset `n` of `text`. -/
def StandsAt (text found : String) (n : Nat) : Prop :=
  ∃ before after : String, text = before ++ found ++ after ∧ byteSize before.toList = n

theorem StandsAt.of_toList {text : String} {before found after : List Char}
    (h : text.toList = before ++ found ++ after) :
    StandsAt text (String.ofList found) (byteSize before) := by
  refine ⟨String.ofList before, String.ofList after, ?_, ?_⟩
  · rw [← String.toList_inj, h]
    simp
  · rw [String.toList_ofList]

end Text

/-! ## Reading from inside a text -/

section

variable {k : Start} {text : String} {before s : List Char}

/-- Reading from a place in a text is applying the rule to what stands there. -/
theorem run_readAt (k : Start) (htext : text.toList = before ++ s) :
    (readAt k text (Text.byteSize before) : ExceptT ParseError Id _).run =
      match Grammar.outcome (Grammar.rule k s) with
      | .ok (t, r) => .ok (t, Text.byteSize text.toList - Text.byteSize r)
      | .error f => .error (.ofFault text f) := by
  unfold readAt
  rw [htext, Text.dropBytes?_append, ← htext]
  show ExceptT.bindCont _ (Except.mapError _ (Grammar.rule k s : Grammar.Reading Id _ _).run) = _
  unfold Grammar.outcome
  cases (Grammar.rule k s : Grammar.Reading Id _ _).run <;> rfl

/-- An error of reading from a place in a text is a fault of what stands there. -/
theorem exists_fault_of_readAt {e : ParseError} (htext : text.toList = before ++ s)
    (h : (readAt k text (Text.byteSize before) : ExceptT ParseError Id _).run = .error e) :
    ∃ f, Grammar.outcome (Grammar.rule k s) = .error f ∧ e = .ofFault text f := by
  rw [run_readAt k htext] at h
  split at h
  · exact nomatch h
  · rename_i f hf
    exact ⟨f, hf, (Except.error.inj h).symm⟩

end

/-! ## Quotations -/

namespace ParseError

variable {text : String} {before found after : List Char}

/-- The offset of a fault is the size of what stands before it. -/
theorem offset_ofFault {f : Fault} (htext : text.toList = before ++ f.rest) :
    (ofFault text f).offset = Text.byteSize before := by
  show Text.byteSize text.toList - Text.byteSize f.rest = _
  rw [htext, Text.byteSize_append, Nat.add_sub_cancel]

/-- So many bytes as a fault extends over are quoted, and they stand at its offset. -/
theorem found_ofFault {f : Fault} (htext : text.toList = before ++ f.rest)
    (hrest : f.rest = found ++ after) (hextent : f.extent = Text.byteSize found) :
    (ofFault text f).found = String.ofList found ∧
      Text.StandsAt text (ofFault text f).found (ofFault text f).offset := by
  have hbytes : Text.toBytes text.toList =
      Text.toBytes before ++ (Text.toBytes found ++ Text.toBytes after) := by
    rw [htext, hrest, Text.toBytes_append, Text.toBytes_append]
  have hoffset := offset_ofFault htext
  have hfound : (ofFault text f).found = String.ofList found := by
    show String.ofList (Text.decodeLossy
      (((Text.toBytes text.toList).drop (ofFault text f).offset).take f.extent)) = _
    rw [hoffset, hextent, hbytes, ← Text.length_toBytes before, List.drop_left,
      ← Text.length_toBytes found, List.take_left, Text.decodeLossy_toBytes]
  refine ⟨hfound, ?_⟩
  rw [hfound, hoffset]
  exact .of_toList (by rw [htext, hrest, List.append_assoc])

/-- No more bytes are quoted than there are. -/
theorem found_ofFault_expected (x : Expected) (rest : List Char) :
    let e := ofFault text (.expected x rest)
    e.found.toList = Text.decodeLossy ((Text.toBytes text.toList).extract e.offset
      (min (e.offset + 32) (Text.byteSize text.toList))) := by
  intro e
  obtain ⟨n, hn⟩ : ∃ n, e.offset = n := ⟨_, rfl⟩
  have hlength : ((Text.toBytes text.toList).drop n).length = Text.byteSize text.toList - n := by
    rw [List.length_drop, Text.length_toBytes]
  have hfound : e.found.toList =
      Text.decodeLossy (((Text.toBytes text.toList).drop n).take 32) := by
    rw [← hn]
    exact String.toList_ofList
  rw [hfound, hn, List.extract_eq_take_drop]
  congr 1
  rw [List.take_eq_take_iff, hlength]
  omega

/-- What an error of reading `text` from the byte offset `start` says. Where the text should
have continued otherwise, the bytes need not end between characters, so they are read back as
far as they go. -/
structure Quotes (e : ParseError) (text : String) (start : Nat) : Prop where
  whole : e.text = text
  inside : start ≤ e.offset ∧ e.offset ≤ Text.byteSize text.toList
  kind : e.kind ≠ .invalidOffset
  expected : ∀ x, e.kind = .expected x → e.found.toList = Text.decodeLossy
    ((Text.toBytes text.toList).extract e.offset
      (min (e.offset + 32) (Text.byteSize text.toList)))
  emptyList : e.kind = .emptyList → e.found = "<>" ∧ Text.StandsAt text e.found e.offset
  invalid : ∀ c, e.kind = .invalid c →
    Rejects e.found c ∧ Text.StandsAt text e.found e.offset

/-- **What a fault shows is quoted.** -/
theorem quotes_of_shows {s : List Char} {f : Fault} (htext : text.toList = before ++ s)
    (h : f.Shows s s) : (ofFault text f).Quotes text (Text.byteSize before) := by
  obtain ⟨v, hv⟩ := h.suffix
  have hrest : text.toList = (before ++ v) ++ f.rest := by rw [List.append_assoc, hv, htext]
  have hinside : Text.byteSize before ≤ (ofFault text f).offset ∧
      (ofFault text f).offset ≤ Text.byteSize text.toList := by
    rw [offset_ofFault hrest, hrest, Text.byteSize_append, Text.byteSize_append,
      Text.byteSize_append]
    omega
  cases h with
  | expected x h =>
      exact ⟨rfl, hinside, nofun, fun _ _ => found_ofFault_expected x _, nofun, nofun⟩
  | @emptyList r h =>
      have hfound := found_ofFault hrest (show _ = ['<', '>'] ++ r from rfl) rfl
      exact ⟨rfl, hinside, nofun, nofun, fun _ => hfound, nofun⟩
  | invalid h he =>
      obtain ⟨hfound, hstands⟩ := found_ofFault hrest rfl rfl
      refine ⟨rfl, hinside, nofun, nofun, nofun, fun c hc => ⟨?_, hstands⟩⟩
      obtain rfl := FaultKind.invalid.inj hc
      rw [hfound]
      exact he

end ParseError

/-! ## In sessions -/

namespace Pool

variable {canonical : Prop} {p : Pool}

/-- What refines a plain computation has its errors. -/
theorem Refines.eq_error_iff {ε α β : Type} {R : Pool → α → β → Prop}
    {x : ExceptT ε PoolM α} {y : ExceptT ε Id β} (h : Refines canonical R p x y)
    (hs : Sound canonical p) {e : ε} : (x.run p).1 = .error e ↔ y.run = .error e := by
  obtain ⟨-, -, hR⟩ := h hs
  revert hR
  cases (x.run p).1 with
  | ok a =>
      cases y.run with
      | ok b => exact fun _ => ⟨nofun, nofun⟩
      | error e' => exact False.elim
  | error e₁ =>
      cases y.run with
      | ok b => exact False.elim
      | error e₂ =>
          rintro rfl
          exact ⟨fun h => congrArg _ (Except.error.inj h),
            fun h => congrArg _ (Except.error.inj h)⟩

/-- With a pool and without one, reading fails alike. -/
theorem parseAt_eq_error_iff (hs : Sound canonical p) (k : Start) (text : String) (start : Nat)
    {e : ParseError} :
    ((parseAt k text start : ExceptT ParseError PoolM _).run p).1 = .error e ↔
      (readAt k text start : ExceptT ParseError Id _).run = .error e := by
  rw [(refines_parseAt k text start).eq_error_iff hs, parseAt_plain]

end Pool

namespace Session

/-- **Errors quote what was rejected.** In every session, whatever is read from between two
characters of a text: an error is at a place from there on in this text. Where the text should
have continued otherwise it quotes at most 32 bytes, where a list is empty the brackets, and
where a tree is refused the name or the dimensions that were refused; and a tree is refused
for nothing else. -/
theorem quotes_of_parseAt (c : Intern.Config) (steps : List Step) (k : Start)
    (before after : String) {e : ParseError} :
    let text := before ++ after
    let start := Text.byteSize before.toList
    ((parseAt k text start : ExceptT ParseError PoolM _).run
      ((Session.start c).after steps).pool).1 = .error e → e.Quotes text start := by
  intro text start h
  have hs : Pool.Sound False ((Session.start c).after steps).pool :=
    (valid_after_start c steps).sound
  have htext : text.toList = before.toList ++ after.toList := String.toList_append
  rw [Pool.parseAt_eq_error_iff hs] at h
  obtain ⟨f, hf, rfl⟩ := exists_fault_of_readAt htext h
  exact ParseError.quotes_of_shows htext ((Grammar.alike_rule k after.toList).shows f hf)

/-- A parameter of a method has a class name with an empty segment. The character before the
method and the last one of the name are two bytes each. -/
theorem quotes_of_parseAt_in_parameter :
    let steps : List Step := [.value (.unconstrained "E") (some "e")]
    let text := "é" ++ "(ILa//ü;)V"
    let e : ParseError :=
      ⟨.invalid (.construction (.invalidName "a//ü" .emptySegment)), 5, "a//ü", text⟩
    ((parseAt .methodDescriptor text 2 : ExceptT ParseError PoolM _).run
      ((start {}).after steps).pool).1 = .error e ∧ e.Quotes text 2 := by
  intro steps text e
  have h : ((parseAt .methodDescriptor text 2 : ExceptT ParseError PoolM _).run
      ((start {}).after steps).pool).1 = .error e := by decide +kernel
  exact ⟨h, quotes_of_parseAt {} steps .methodDescriptor "é" "(ILa//ü;)V" h⟩

end Session

end ClassfileTypes
