import ClassfileTypes.Proofs.CursorRules
import Mathlib

/-!
# A text is cut between characters only

A text that is read byte by byte is read as it is character by character: with the same tree
and the same end, or with the same error. So the bytes that the cursor goes over are the bytes
of the characters that the rules read, and it never stops inside one of them. Whatever is cut
out of the text at its positions is a text, and the names that trees are made with are what
stands between their delimiters.
-/

namespace ClassfileTypes

/-- Reads a tree from the byte offset `start`, byte by byte: the tree and the offset after it. -/
def Start.scanAt (k : Start) (text : String) (start : Nat) :
    Option (Except ParseError (TypeTree Unit k.form × Nat)) :=
  match Journey.start? text start with
  | .error e => some (.error e)
  | .ok j =>
      let scanner : Scanner (TypeTree Unit k.form × Nat) := do
        let t ← k.scanner
        let stop ← Scanner.position
        return (t, stop)
      Prod.fst <$> scanner.run.run j

namespace Journey

open Text

variable {text : String} {start : Nat}

/-- Reading begins between characters. -/
theorem at_of_dropBytes? {s : List Char} (h : dropBytes? text.toList start = some s) :
    At text start s { cursor := ⟨text, start, start⟩ } := by
  obtain ⟨before, htext, rfl⟩ := eq_append_of_dropBytes? h
  have hboundary : IsBoundary text.toList (byteSize before) := by
    rw [htext]
    exact isBoundary_append before s
  have hle : byteSize before ≤ byteSize text.toList := by
    rw [htext, byteSize_append]
    exact Nat.le_add_right _ _
  refine ⟨⟨?_, nofun, nofun⟩, before, htext, rfl⟩
  exact List.forall_mem_singleton.mpr
    ⟨rfl, Nat.le_refl _, Nat.le_refl _, hle, hboundary, hboundary⟩

end Journey

/-! ## Reading -/

section

variable {text : String} {start : Nat} {α : Type} {o : Grammar.Outcome α}
  {r : Option (Except ParseError α × Journey)}

/-- What has come to an outcome has it as its result. -/
theorem Ends.fst_eq (h : Ends text start o r) :
    Prod.fst <$> r = some ((o.map Prod.fst).mapError (.ofFault text)) := by
  cases h <;> rfl

/-- What has come to an outcome has been between characters only. -/
theorem Ends.exists_sound (h : Ends text start o r) :
    ∃ result j, r = some (result, j) ∧ j.Sound text start := by
  cases h with
  | ok h => exact ⟨_, _, rfl, h.sound⟩
  | error h => exact ⟨_, _, rfl, h⟩

end

/-- **Byte by byte is character by character.** -/
theorem Start.scanAt_eq_readAt (k : Start) (text : String) (start : Nat) :
    k.scanAt text start = some (readAt k text start : ExceptT ParseError Id _).run := by
  unfold Start.scanAt
  cases hdrop : Text.dropBytes? text.toList start with
  | none =>
      have hstart : ¬Text.IsBoundary text.toList start := by
        unfold Text.IsBoundary
        rw [hdrop]
        exact nofun
      unfold Journey.start? readAt
      rw [if_neg hstart, hdrop]
      rfl
  | some s =>
      have hat := Journey.at_of_dropBytes? hdrop
      obtain ⟨before, htext, rfl⟩ := Text.eq_append_of_dropBytes? hdrop
      have hstart : Journey.start? text (Text.byteSize before) =
          .ok { cursor := ⟨text, Text.byteSize before, Text.byteSize before⟩ } :=
        if_pos (hat.cursor_sound.pos)
      have hrule : Tracks text (Text.byteSize before) k.scanner s _ := Tracks.rule k s
      have htracks := Tracks.bind hrule
        (F := fun t => do return (t, ← Scanner.position)) fun t r _ =>
          Tracks.bind_ok Tracks.position Tracks.pure
      rw [hstart, run_readAt k htext]
      refine (htracks _ hat).fst_eq.trans ?_
      cases Grammar.outcome (Grammar.rule k s) <;> rfl

namespace Production

/-- **The cursor cuts between characters only.** Reading byte by byte is reading. And wherever
between two characters of a text a rule is run from, and whether it succeeds or fails: the run
ends, the mark and the position have always been between characters and in order, what was cut
out is exactly what stands from the mark to the first stop or the end, and every name that a
tree was made with is what stands between its delimiters. -/
theorem runs_between_characters (text : String) (start : Nat) :
    (∀ k : Start,
      k.scanAt text start = some (readAt k text start : ExceptT ParseError Id _).run) ∧
    (Text.IsBoundary text.toList start → ∀ p : Production, ∃ result j,
      p.scanner.run.run { cursor := ⟨text, start, start⟩ } = some (result, j) ∧
        j.Sound text start) := by
  refine ⟨fun k => k.scanAt_eq_readAt text start, fun h p => ?_⟩
  obtain ⟨s, hdrop⟩ := Option.isSome_iff_exists.mp h
  obtain ⟨o, ho⟩ : ∃ o, Tracks text start p.scanner s o := Tracks.exists_of_production p s
  exact (ho _ (Journey.at_of_dropBytes? hdrop)).exists_sound

/-- The character before the variable and the one in its name are two bytes each. -/
theorem runs_between_characters_of_variable :
    let text := "éTü;"
    let j : Journey :=
      { cursor := ⟨text, 6, 3⟩
        past := [⟨text, 5, 3⟩, ⟨text, 3, 3⟩, ⟨text, 3, 2⟩, ⟨text, 2, 2⟩]
        pieces := [⟨[';'], 3, 5, "ü"⟩]
        names := [⟨some 'T', [';'], 3, "ü"⟩] }
    Text.IsBoundary text.toList 2 ∧
      typeVariable.scanner.run.run { cursor := ⟨text, 2, 2⟩ } =
        some (.ok (.freeVariable () "ü"), j) ∧ j.Sound text 2 := by
  intro text j
  have hboundary : Text.IsBoundary text.toList 2 := by decide +kernel
  have hrun : typeVariable.scanner.run.run { cursor := ⟨text, 2, 2⟩ } =
      some (.ok (.freeVariable () "ü"), j) := by
    cbv
  obtain ⟨result, j', h, hsound⟩ := (runs_between_characters text 2).2 hboundary typeVariable
  obtain ⟨-, rfl⟩ := Prod.mk.inj (Option.some.inj (hrun.symm.trans h))
  exact ⟨hboundary, hrun, hsound⟩

end Production

end ClassfileTypes
