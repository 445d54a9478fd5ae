import ClassfileTypes.Proofs.ByteRules
import ClassfileTypes.Proofs.Displacement

/-!
# Where the cursor is

All that the rules look for is ASCII, and a byte of a character that is not ASCII is not the
byte of one that is. So if the cursor is between two characters, looking at a byte is looking
at a character, and going over a byte that was looked for is going over a character.

A computation with a cursor is therefore told by what it does to the rest of the text: from
wherever this rest stands, it ends, and it comes to the outcome that a rule has for the rest.
On the way it has been between characters only.
-/

namespace ClassfileTypes

/-! ## Bytes and characters -/

namespace Text

variable {c : Char} {cs ds es : List Char}

theorem toNat_ofUInt8 (b : UInt8) : (Char.ofUInt8 b).toNat = b.toNat :=
  rfl

theorem utf8EncodeChar_of_ascii (h : c.toNat < 128) :
    String.utf8EncodeChar c = [.ofNat c.toNat] := by
  rw [utf8EncodeChar_eq, if_pos (by omega)]

theorem ofUInt8_of_ascii (h : c.toNat < 128) : Char.ofUInt8 (.ofNat c.toNat) = c := by
  rw [← Char.toNat_inj, toNat_ofUInt8, toNat_ofNat (by omega)]

/-- A byte of a character that is not ASCII is none. -/
theorem toNat_of_mem_utf8EncodeChar (h : 128 ≤ c.toNat) :
    ∀ b ∈ String.utf8EncodeChar c, 128 ≤ b.toNat := by
  have hlead : ∀ n m, m + 128 ≤ n → n < 256 → 128 ≤ (UInt8.ofNat n).toNat := by
    intro n m hm hn
    rw [toNat_ofNat hn]
    omega
  have hcontinuation : ∀ n, 128 ≤ (continuation n).toNat := by
    intro n
    rw [toNat_continuation]
    omega
  rw [utf8EncodeChar_eq]
  split_ifs with h₁ h₂ h₃
  · omega
  · simpa [hcontinuation] using hlead _ 64 (by omega) (by omega)
  · simpa [hcontinuation] using hlead _ 96 (by omega) (by omega)
  · simpa [hcontinuation] using hlead _ 112 (by omega) (by omega)

theorem utf8Size_of_ascii (h : c.toNat < 128) : c.utf8Size = 1 := by
  rw [← String.length_utf8EncodeChar, utf8EncodeChar_of_ascii h, List.length_singleton]

theorem length_le_byteSize (cs : List Char) : cs.length ≤ byteSize cs := by
  induction cs with
  | nil => exact Nat.le_refl _
  | cons c cs ih =>
      have hpos := c.utf8Size_pos
      rw [List.length_cons, byteSize]
      omega

theorem toBytes_cons (c : Char) (cs : List Char) :
    toBytes (c :: cs) = String.utf8EncodeChar c ++ toBytes cs :=
  List.flatMap_cons

/-- No byte of a character is an ASCII character other than itself. -/
theorem ofUInt8_not_mem {l : List Char} (hl : Grammar.Ascii l) (hc : c ∉ l) {b : UInt8}
    (hb : b ∈ String.utf8EncodeChar c) : Char.ofUInt8 b ∉ l := by
  rcases Nat.lt_or_ge c.toNat 128 with h | h
  · rw [utf8EncodeChar_of_ascii h, List.mem_singleton] at hb
    rwa [hb, ofUInt8_of_ascii h]
  · intro hmem
    have hlt := hl _ hmem
    have hge := toNat_of_mem_utf8EncodeChar h b hb
    rw [toNat_ofUInt8] at hlt
    omega

/-- Up to the first stop among the bytes is up to the first stop among the characters. -/
theorem findIdx_toBytes {stops : List Char} (hstops : Grammar.Ascii stops) (cs : List Char) :
    (toBytes cs).findIdx (stops.contains <| .ofUInt8 ·) = byteSize (Grammar.before stops cs) := by
  induction cs with
  | nil => rfl
  | cons c cs ih =>
      rw [toBytes_cons]
      by_cases hc : c ∈ stops
      · have hascii := hstops c hc
        rw [utf8EncodeChar_of_ascii hascii, List.singleton_append, List.findIdx_cons,
          ofUInt8_of_ascii hascii]
        simp [Grammar.before, hc, byteSize]
      · have hnone : ∀ b ∈ String.utf8EncodeChar c, stops.contains (Char.ofUInt8 b) = false :=
          fun b hb => by simpa using ofUInt8_not_mem hstops hc hb
        have hlength : (String.utf8EncodeChar c).findIdx (stops.contains <| .ofUInt8 ·) =
            c.utf8Size := by
          rw [List.findIdx_eq_length_of_false hnone, String.length_utf8EncodeChar]
        rw [List.findIdx_append, hlength, String.length_utf8EncodeChar, if_neg (Nat.lt_irrefl _),
          ih, Nat.add_comm]
        simp [Grammar.before, hc, byteSize]

/-- What is between the offsets of two parts of a text is cut out. -/
theorem slice?_append (cs ds es : List Char) :
    slice? (cs ++ (ds ++ es)) (byteSize cs) (byteSize cs + byteSize ds) = some ds := by
  have hstop : dropBytes? (cs ++ (ds ++ es)) (byteSize cs + byteSize ds) = some es := by
    rw [← byteSize_append, ← List.append_assoc, dropBytes?_append]
  unfold slice?
  rw [if_pos (Nat.le_add_right _ _), dropBytes?_append, hstop]
  simp

theorem isBoundary_append (cs ds : List Char) : IsBoundary (cs ++ ds) (byteSize cs) := by
  rw [IsBoundary, dropBytes?_append]
  rfl

/-- The first byte of what is left, as a character. -/
def first (cs : List Char) : Char :=
  .ofUInt8 ((toBytes cs).head?.getD 0)

theorem first_of_ascii (h : c.toNat < 128) (cs : List Char) : first (c :: cs) = c := by
  rw [first, toBytes_cons, utf8EncodeChar_of_ascii h]
  exact ofUInt8_of_ascii h

theorem first_cons_not_mem {l : List Char} (hl : Grammar.Ascii l) (hc : c ∉ l)
    (cs : List Char) : first (c :: cs) ∉ l := by
  obtain ⟨b, bs, hbytes, -⟩ := exists_lead c
  have hmem : b ∈ String.utf8EncodeChar c := hbytes ▸ List.mem_cons_self
  rw [first, toBytes_cons, hbytes]
  exact ofUInt8_not_mem hl hc hmem

theorem first_not_mem {l : List Char} (hl : Grammar.Ascii l) (hnul : '\x00' ∉ l)
    (h : Grammar.Avoids l cs) : first cs ∉ l := by
  cases cs with
  | nil => exact hnul
  | cons c cs => exact first_cons_not_mem hl (h c rfl) cs

/-- The byte offset where a rest of the text begins. -/
def place (text : String) (cs : List Char) : Nat :=
  byteSize text.toList - byteSize cs

theorem place_of_eq {text : String} (h : text.toList = cs ++ ds) : place text ds = byteSize cs := by
  rw [place, h, byteSize_append, Nat.add_sub_cancel]

end Text

namespace Grammar

theorem avoids_cons {l : List Char} {c : Char} (hc : c ∉ l) (s : List Char) :
    Avoids l (c :: s) := by
  rintro d ⟨⟩
  exact hc

theorem mem_of_head?_since {stops s : List Char} : ∀ c ∈ (since stops s).head?, c ∈ stops := by
  intro c hc
  have hnot := List.head?_dropWhile_not (!stops.contains ·) s
  rw [show (s.dropWhile (!stops.contains ·)).head? = some c from hc] at hnot
  simpa using hnot

theorem Avoids.mono {l l' s : List Char} (h : Avoids l s) (hl : l' ⊆ l) : Avoids l' s :=
  fun c hc hmem => h c hc (hl hmem)

theorem Avoids.append {l l' s : List Char} (h : Avoids l s) (h' : Avoids l' s) :
    Avoids (l ++ l') s :=
  fun c hc hmem => (List.mem_append.mp hmem).elim (h c hc) (h' c hc)

end Grammar

/-! ## What a run has done -/

/-- The mark is not behind the position, both are in the part of the text that is read, and
both are between characters. -/
structure Cursor.Sound (text : String) (start : Nat) (c : Cursor) : Prop where
  whole : c.text = text
  from_mark : start ≤ c.mark
  mark_le : c.mark ≤ c.pos
  pos_le : c.pos ≤ Text.byteSize text.toList
  mark : Text.IsBoundary text.toList c.mark
  pos : Text.IsBoundary text.toList c.pos

/-- What was cut out is what stands between the offsets, which are between characters. It has
no stop in it, and behind it there is one or the end of the text. -/
structure Piece.Exact (text : String) (p : Piece) : Prop where
  slice : Text.slice? text.toList p.start p.stop = some p.content.toList
  clean : ∀ c ∈ p.content.toList, c ∉ p.stops
  stop : ∃ rest, Text.dropBytes? text.toList p.stop = some rest ∧ ∀ c ∈ rest.head?, c ∈ p.stops

/-- The name stands in the text between its delimiters. -/
structure Named.Between (text : String) (n : Named) : Prop where
  stands : ∃ before after, text.toList = before ++ (n.name.toList ++ after) ∧
    Text.byteSize before = n.start ∧ (∀ c ∈ n.opening, before.getLast? = some c) ∧
    ∃ c ∈ n.closing, after.head? = some c
  clean : ∀ c ∈ n.name.toList, c ∉ n.closing

/-- The cursor has been between characters only, and what was cut out and handed on is what
stands in the text. -/
structure Journey.Sound (text : String) (start : Nat) (j : Journey) : Prop where
  places : ∀ c ∈ j.places, c.Sound text start
  pieces : ∀ p ∈ j.pieces, p.Exact text
  names : ∀ n ∈ j.names, n.Between text

/-- The cursor stands before this rest of the text. -/
structure Journey.At (text : String) (start : Nat) (s : List Char) (j : Journey) : Prop where
  sound : j.Sound text start
  stands : ∃ before, text.toList = before ++ s ∧ j.cursor.pos = Text.byteSize before

namespace Journey.At

open Text Grammar

variable {text : String} {start : Nat} {s r : List Char} {j : Journey} {c : Char}

theorem cursor_sound (h : j.At text start s) : j.cursor.Sound text start :=
  h.sound.places _ List.mem_cons_self

theorem suffix (h : j.At text start s) : s <:+ text.toList := by
  obtain ⟨before, htext, -⟩ := h.stands
  exact ⟨before, htext.symm⟩

theorem pos_eq (h : j.At text start s) : j.cursor.pos = place text s := by
  obtain ⟨before, htext, hpos⟩ := h.stands
  rw [hpos, place_of_eq htext]

/-- The bytes that are left are those of the rest. -/
theorem drop_bytes (h : j.At text start s) : j.cursor.bytes.drop j.cursor.pos = toBytes s := by
  obtain ⟨before, htext, hpos⟩ := h.stands
  rw [Cursor.bytes, h.cursor_sound.whole, htext, toBytes_append, hpos, ← length_toBytes,
    List.drop_left]

theorem current_eq (h : j.At text start s) : Char.ofUInt8 j.cursor.current = first s := by
  rw [Cursor.current, first, ← h.drop_bytes, List.head?_drop]

theorem isEnd_eq (h : j.At text start s) : j.cursor.isEnd = s.isEmpty := by
  rw [Cursor.isEnd, Bool.eq_iff_iff, decide_eq_true_iff, ← List.drop_eq_nil_iff, h.drop_bytes,
    ← List.length_eq_zero_iff, length_toBytes, List.isEmpty_iff]
  cases s with
  | nil => exact ⟨fun _ => rfl, fun _ => rfl⟩
  | cons c s =>
      have hpos := c.utf8Size_pos
      rw [byteSize]
      exact ⟨fun h => by omega, fun h => absurd h (List.cons_ne_nil c s)⟩

/-- Calls may be nested deep enough for every character that is left. -/
theorem le_depth (h : j.At text start s) : 4 * s.length + 4 ≤ j.cursor.depth := by
  have hleft : j.cursor.bytes.length - j.cursor.pos = byteSize s := by
    rw [← List.length_drop, h.drop_bytes, length_toBytes]
  have hlength := length_le_byteSize s
  rw [Cursor.depth, hleft]
  omega

/-- A move to another rest of the text. -/
theorem moved (h : j.At text start s) {g : Cursor → Cursor} {before : List Char}
    (hsound : (g j.cursor).Sound text start) (htext : text.toList = before ++ r)
    (hpos : (g j.cursor).pos = byteSize before) : (j.move g).At text start r :=
  ⟨⟨List.forall_mem_cons.mpr ⟨hsound, h.sound.places⟩, h.sound.pieces, h.sound.names⟩,
    before, htext, hpos⟩

/-- Over a character of one byte. -/
theorem next (h : j.At text start (c :: r)) (hc : c.toNat < 128) :
    (j.move .next).At text start r := by
  obtain ⟨before, htext, hpos⟩ := h.stands
  have hcursor := h.cursor_sound
  have htext' : text.toList = (before ++ [c]) ++ r := by simpa using htext
  have hpos' : j.cursor.next.pos = byteSize (before ++ [c]) := by
    rw [byteSize_append, byteSize, byteSize, utf8Size_of_ascii hc, ← hpos]
    rfl
  refine h.moved ?_ htext' hpos'
  refine ⟨hcursor.whole, hcursor.from_mark, Nat.le_succ_of_le hcursor.mark_le, ?_, hcursor.mark, ?_⟩
  · rw [hpos', htext', byteSize_append _ r]
    exact Nat.le_add_right _ _
  · rw [hpos', htext']
    exact isBoundary_append _ _

theorem atMark (h : j.At text start s) : (j.move .atMark).At text start s := by
  obtain ⟨before, htext, hpos⟩ := h.stands
  have hcursor := h.cursor_sound
  refine h.moved ?_ htext hpos
  exact ⟨hcursor.whole, hcursor.from_mark.trans hcursor.mark_le, Nat.le_refl _, hcursor.pos_le,
    hcursor.pos, hcursor.pos⟩

theorem pos_untilStop (h : j.At text start s) {stops : List Char} (hstops : Ascii stops) :
    (j.cursor.untilStop stops).pos = j.cursor.pos + byteSize (before stops s) := by
  rw [← findIdx_toBytes hstops, ← h.drop_bytes]
  rfl

theorem untilStop (h : j.At text start s) {stops : List Char} (hstops : Ascii stops) :
    (j.move (.untilStop stops)).At text start (since stops s) := by
  obtain ⟨front, htext, hpos⟩ := h.stands
  have hcursor := h.cursor_sound
  have htext' : text.toList = (front ++ before stops s) ++ since stops s := by
    rw [List.append_assoc, before_append_since, htext]
  have hpos' : (j.cursor.untilStop stops).pos = byteSize (front ++ before stops s) := by
    rw [h.pos_untilStop hstops, hpos, byteSize_append]
  refine h.moved ?_ htext' hpos'
  refine ⟨hcursor.whole, hcursor.from_mark, Nat.le_add_right_of_le hcursor.mark_le, ?_,
    hcursor.mark, ?_⟩
  · rw [hpos', htext', byteSize_append _ (since stops s)]
    exact Nat.le_add_right _ _
  · rw [hpos', htext']
    exact isBoundary_append _ _

/-- **What stands up to a stop** is all of the text up to the first one, or to the end. -/
theorem exact_untilStop (h : j.At text start s) {stops : List Char} (hstops : Ascii stops) :
    Piece.Exact text
      ⟨stops, j.cursor.pos, (j.cursor.untilStop stops).pos, .ofList (before stops s)⟩ := by
  obtain ⟨front, htext, hpos⟩ := h.stands
  obtain ⟨front', htext', hpos'⟩ := (h.untilStop hstops).stands
  have hparts : text.toList = front ++ (before stops s ++ since stops s) := by
    rw [before_append_since, htext]
  have hrest : dropBytes? text.toList (j.cursor.untilStop stops).pos = some (since stops s) := by
    rw [show (j.cursor.untilStop stops).pos = byteSize front' from hpos', htext',
      dropBytes?_append]
  refine ⟨?_, ?_, _, hrest, mem_of_head?_since⟩
  · rw [String.toList_ofList, h.pos_untilStop hstops, hpos, hparts, slice?_append]
  · rw [String.toList_ofList]
    exact fun c hc => not_mem_of_mem_before hc

theorem cut (h : j.At text start s) {p : Piece} (hp : p.Exact text) :
    (j.cut p).At text start s :=
  ⟨⟨h.sound.places, List.forall_mem_cons.mpr ⟨hp, h.sound.pieces⟩, h.sound.names⟩, h.stands⟩

theorem name (h : j.At text start s) {m : Named} (hm : m.Between text) :
    (j.name m).At text start s :=
  ⟨⟨h.sound.places, h.sound.pieces, List.forall_mem_cons.mpr ⟨hm, h.sound.names⟩⟩, h.stands⟩

end Journey.At

/-! ## Computations on a rest of the text -/

/-- A computation that is run has come to this outcome: to a value, and then the cursor is
before what is left, or to a fault, which it has turned into an error. -/
inductive Ends (text : String) (start : Nat) {α : Type} :
    Grammar.Outcome α → Option (Except ParseError α × Journey) → Prop
  | ok {a : α} {r : List Char} {j : Journey} (h : j.At text start r) :
      Ends text start (.ok (a, r)) (some (.ok a, j))
  | error {f : Fault} {j : Journey} (h : j.Sound text start) :
      Ends text start (.error f) (some (.error (.ofFault text f), j))

/-- From wherever `s` is left of the text, the computation comes to this outcome. -/
def Tracks (text : String) (start : Nat) {α : Type} (x : Scanner α) (s : List Char)
    (o : Grammar.Outcome α) : Prop :=
  ∀ j : Journey, j.At text start s → Ends text start o (x.run.run j)

namespace Tracks

open Text Grammar

variable {text : String} {start : Nat} {α β : Type} {s r w : List Char} {c : Char}
  {x : Scanner α} {o : Outcome α}

theorem pure {a : α} : Tracks text start (Pure.pure a) s (.ok (a, s)) :=
  fun _ hj => .ok hj

/-- Computations in sequence. -/
theorem bind {F : α → Scanner β} {G : α → List Char → Outcome β} (hx : Tracks text start x s o)
    (hF : ∀ a r, o = .ok (a, r) → Tracks text start (F a) r (G a r)) :
    Tracks text start (x >>= F) s (o.andThen G) := by
  intro j hj
  have h := hx j hj
  show Ends text start (o.andThen G) (((x.run.run j).bind fun (res, j') =>
    (ExceptT.bindCont F res : StateT Journey Option _).run j'))
  generalize x.run.run j = res at h
  cases h with
  | ok h => exact hF _ _ rfl _ h
  | error h => exact .error h

theorem bind_ok {F : α → Scanner β} {a : α} {o : Outcome β}
    (hx : Tracks text start x s (.ok (a, r))) (hF : Tracks text start (F a) r o) :
    Tracks text start (x >>= F) s o := by
  refine bind (G := fun _ _ => o) hx fun a' r' h => ?_
  obtain ⟨rfl, rfl⟩ := Prod.mk.inj (Except.ok.inj h)
  exact hF

theorem bind_error {F : α → Scanner β} {f : Fault} (hx : Tracks text start x s (.error f)) :
    Tracks text start (x >>= F) s (.error f) :=
  bind (G := fun _ _ => .error f) hx fun _ _ h => nomatch h

theorem map {g : α → β} (hx : Tracks text start x s o) :
    Tracks text start (g <$> x) s (o.andThen fun a r => .ok (g a, r)) := by
  rw [← bind_pure_comp]
  exact bind hx fun _ _ _ => pure

/-- What is left of a text is a part of it. -/
theorem of_suffix (h : s <:+ text.toList → Tracks text start x s o) : Tracks text start x s o :=
  fun j hj => h hj.suffix j hj

/-- What can do with four levels for each character that is left, and four, has as many. -/
theorem deeply {x : Nat → Scanner α}
    (h : ∀ n, 4 * s.length + 4 ≤ n → Tracks text start (x n) s o) :
    Tracks text start (Scanner.deeply x) s o :=
  fun j hj => h j.cursor.depth hj.le_depth j hj

theorem deeply_succ {x : Nat → Scanner α}
    (h : ∀ n, 4 * s.length + 3 ≤ n → Tracks text start (x (n + 1)) s o) :
    Tracks text start (Scanner.deeply x) s o :=
  deeply fun
    | 0, hn => by omega
    | n + 1, hn => h n (by omega)

/-! ## Looking and moving -/

theorem position : Tracks text start Scanner.position s (.ok (place text s, s)) := by
  intro j hj
  rw [← hj.pos_eq]
  exact .ok hj

theorem atEnd : Tracks text start Scanner.atEnd s (.ok (s.isEmpty, s)) := by
  intro j hj
  rw [← hj.isEnd_eq]
  exact .ok hj

theorem peek : Tracks text start Scanner.peek s (.ok (first s, s)) := by
  intro j hj
  rw [← hj.current_eq]
  exact .ok hj

/-- Whatever letter is next, it is none of those that are avoided. -/
theorem peek_of_avoids {l : List Char} {F : Char → Scanner α} (hl : Ascii l) (hnul : '\x00' ∉ l)
    (h : Avoids l s) (hF : ∀ c, c ∉ l → Tracks text start (F c) s o) :
    Tracks text start (Scanner.peek >>= F) s o :=
  bind_ok peek (hF _ (first_not_mem hl hnul h))

theorem advance (hc : c.toNat < 128) :
    Tracks text start Scanner.advance (c :: r) (.ok ((), r)) := by
  intro j hj
  have hnext : (if j.cursor.isEnd then j else j.move .next) = j.move .next := by
    rw [hj.isEnd_eq]
    rfl
  show Ends text start _ (some (.ok (), if j.cursor.isEnd then j else j.move .next))
  rw [hnext]
  exact .ok (hj.next hc)

theorem eat (hc : c.toNat < 128) :
    Tracks text start (Scanner.eat c) (c :: r) (.ok (true, r)) := by
  intro j hj
  have hnext : (!j.cursor.isEnd && Char.ofUInt8 j.cursor.current == c) = true := by
    rw [hj.isEnd_eq, hj.current_eq, first_of_ascii hc]
    simp
  show Ends text start _ ((if _ then _ else _ : Scanner Bool).run.run j)
  rw [if_pos hnext]
  exact .ok (hj.next hc)

theorem eat_of_avoids (hc : c.toNat < 128) (h : Avoids [c] s) :
    Tracks text start (Scanner.eat c) s (.ok (false, s)) := by
  intro j hj
  have hstay : ¬(!j.cursor.isEnd && Char.ofUInt8 j.cursor.current == c) = true := by
    rw [hj.isEnd_eq, hj.current_eq]
    cases s with
    | nil => simp
    | cons d s =>
        have hfirst := first_cons_not_mem (List.forall_mem_singleton.mpr hc) (h d rfl) s
        simpa using hfirst
  show Ends text start _ ((if _ then _ else _ : Scanner Bool).run.run j)
  rw [if_neg hstay]
  exact .ok hj

/-! ## Cutting out -/

/-- **Up to a stop.** What is cut out is all of the text up to the first stop, or to the end. -/
theorem takeUntil {stops : List Char} (hstops : Ascii stops) :
    Tracks text start (Scanner.takeUntil stops) s
      (.ok ((String.ofList (before stops s), place text s), since stops s)) := by
  intro j hj
  have hstop := hj.atMark.untilStop hstops
  have hexact := hj.exact_untilStop hstops
  have hslice : slice? text.toList j.cursor.pos (j.cursor.untilStop stops).pos =
      some (before stops s) := by
    rw [hexact.slice, String.toList_ofList]
  have hmarked : ((j.move .atMark).move (.untilStop stops)).cursor.marked =
      .ofList (before stops s) := by
    rw [Cursor.marked, hstop.cursor_sound.whole]
    exact congrArg (Option.elim · "" String.ofList) hslice
  show Ends text start _ (some (.ok (_, j.cursor.pos), Journey.cut ⟨stops, j.cursor.pos,
    (j.cursor.untilStop stops).pos, _⟩ ((j.move .atMark).move (.untilStop stops))))
  rw [hmarked, ← hj.pos_eq]
  exact .ok (hstop.cut hexact)

theorem takeUntil_append {stops name : List Char} (hstops : Ascii stops)
    (hname : ∀ d ∈ name, d ∉ stops) (hc : c ∈ stops) (r : List Char) :
    Tracks text start (Scanner.takeUntil stops) (name ++ c :: r)
      (.ok ((String.ofList name, place text (name ++ c :: r)), c :: r)) := by
  have hhead : ∀ d, (c :: r).head? = some d → d ∈ stops := by
    rintro d ⟨⟩
    exact hc
  have h : Tracks text start (Scanner.takeUntil stops) (name ++ c :: r) _ := takeUntil hstops
  rwa [before_append hname hhead, since_append hname hhead] at h

theorem takeUntil_of_end {stops : List Char} (hstops : Ascii stops) (hs : since stops s = []) :
    Tracks text start (Scanner.takeUntil stops) s
      (.ok ((String.ofList (before stops s), place text s), [])) := by
  have h : Tracks text start (Scanner.takeUntil stops) s _ := takeUntil hstops
  rwa [hs] at h

/-! ## Giving up -/

theorem fail {kind : FaultKind} {extent offset : Nat} (hoffset : offset = place text w) :
    Tracks text start (Scanner.fail kind offset extent : Scanner α) s
      (.error ⟨kind, w, extent⟩) := by
  intro j hj
  have herror : ParseError.quoting j.cursor.text kind offset extent =
      .ofFault text ⟨kind, w, extent⟩ := by
    rw [hj.cursor_sound.whole, hoffset]
    rfl
  show Ends text start _ (some (.error (.quoting j.cursor.text kind offset extent), j))
  rw [herror]
  exact .error hj.sound

theorem wanted {e : Expected} :
    Tracks text start (Scanner.wanted e : Scanner α) s (.error (.expected e s)) :=
  bind_ok position (fail rfl)

theorem expect (hc : c.toNat < 128) : Tracks text start (Scanner.expect c) (c :: r) (.ok ((), r)) :=
  bind_ok (eat hc) pure

theorem expect_of_avoids (hc : c.toNat < 128) (h : Avoids [c] s) :
    Tracks text start (Scanner.expect c) s (.error (.expected (.char c) s)) :=
  bind_ok (eat_of_avoids hc h) wanted

theorem emptyList (h : '<' :: '>' :: r <:+ text.toList) :
    Tracks text start (Scanner.emptyList : Scanner α) r
      (.error (.emptyList ('<' :: '>' :: r))) := by
  refine bind_ok position (fail ?_)
  obtain ⟨front, htext⟩ := h
  have htext' : text.toList = (front ++ ['<', '>']) ++ r := by simp [← htext]
  rw [place_of_eq htext.symm, place_of_eq htext', byteSize_append]
  rfl

/-! ## Constructions -/

theorem building_andThen {extent : Nat} {x : ExceptT TypeError Id α}
    {F : α → List Char → Outcome β} :
    (building w extent x fun a => .ok (a, s)).andThen F = building w extent x fun a => F a s := by
  unfold building
  cases x.run <;> rfl

theorem rest_of_building {extent : Nat} {x : ExceptT TypeError Id α} {a : α}
    (h : (building w extent x fun a => .ok (a, s)) = .ok (a, r)) : r = s := by
  unfold building at h
  cases hx : x.run with
  | ok b =>
      rw [hx] at h
      exact (Prod.mk.inj (Except.ok.inj h)).2.symm
  | error e =>
      rw [hx] at h
      exact nomatch h

theorem check {x : ExceptT TypeError Id α} {front stop extent : Nat}
    (hfront : front = place text w) (hextent : stop - front = extent) :
    Tracks text start (Scanner.check front stop x) s
      (building w extent x fun a => .ok (a, s)) := by
  unfold Scanner.check building
  cases x.run with
  | ok a => exact pure
  | error e =>
      rw [← hextent]
      exact fail hfront

/-- **A name that is handed on** stands where it was cut out, between its delimiters. -/
theorem construct {make : String → ExceptT TypeError Id α} {opening : Option Char}
    {closing name : List Char} (hopening : opening.toList ++ (name ++ c :: r) <:+ text.toList)
    (hname : ∀ d ∈ name, d ∉ closing) (hc : c ∈ closing) :
    Tracks text start
      (Scanner.construct ⟨opening, closing, place text (name ++ c :: r), .ofList name⟩ make) s
      (building (name ++ c :: r) (byteSize name) (make (.ofList name)) fun a => .ok (a, s)) := by
  obtain ⟨front, htext⟩ := hopening
  rw [← List.append_assoc] at htext
  have hbetween : Named.Between text
      ⟨opening, closing, place text (name ++ c :: r), String.ofList name⟩ := by
    rw [place_of_eq htext.symm]
    refine ⟨⟨front ++ opening.toList, c :: r, ?_, rfl, ?_, c, hc, rfl⟩, ?_⟩
    · rw [String.toList_ofList, htext]
    · rintro d ⟨⟩
      simp
    · rwa [String.toList_ofList]
  intro j hj
  have hcheck : Tracks text start _ s _ :=
    check (x := make (.ofList name)) (w := name ++ c :: r) rfl
      (Nat.add_sub_cancel_left _ (byteSize name))
  have hrun := hcheck (j.name _) (hj.name hbetween)
  unfold Scanner.construct
  rw [String.toList_ofList]
  exact hrun

/-! ## Letters -/

theorem ascii_codes : Ascii codes := by
  decide

theorem primitive (p : Primitive) :
    Tracks text start Scanner.primitive (p.code :: r) (.ok (some p, r)) := by
  have hascii : p.code.toNat < 128 := by cases p <;> decide
  have hcode : Primitive.ofCode? p.code = some p := by cases p <;> rfl
  refine bind_ok atEnd (bind_ok peek ?_)
  rw [first_of_ascii hascii, hcode]
  exact bind_ok (advance hascii) pure

theorem primitive_of_avoids (h : Avoids codes s) :
    Tracks text start Scanner.primitive s (.ok (none, s)) := by
  refine bind_ok atEnd ?_
  split
  · exact pure
  · refine bind_ok peek ?_
    rw [ofCode?_of_not_mem (first_not_mem ascii_codes (by decide) h)]
    exact pure

/-- All brackets are counted. -/
theorem dimensions {n : Nat} (hn : s.length < n) :
    Tracks text start (Scanner.dimensions n) s
      (.ok (Grammar.dimensions s, sinceDimensions s)) := by
  induction n generalizing s with
  | zero => exact absurd hn (Nat.not_lt_zero _)
  | succ n ih =>
      rcases begins_with '[' s with ⟨r, rfl⟩ | h
      · exact bind_ok (eat (by decide)) (bind_ok (ih (Nat.lt_of_succ_lt_succ hn)) pure)
      · have hnone : Grammar.dimensions s = 0 ∧ sinceDimensions s = s := by
          cases s with
          | nil => exact ⟨rfl, rfl⟩
          | cons c s =>
              have hc : c ≠ '[' := by simpa using h c rfl
              simp [Grammar.dimensions, sinceDimensions, hc]
        rw [hnone.1, hnone.2]
        exact bind_ok (eat_of_avoids (by decide) h) pure

end Tracks

end ClassfileTypes
