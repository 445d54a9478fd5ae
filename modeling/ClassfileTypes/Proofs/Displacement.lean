import ClassfileTypes.Proofs.Quotations

/-!
# What stands before does not matter

Reading from a place in a text is reading from that place in the text with anything put in
front of it. The trees are the same and so is what is wrong, with the same quotation; only
the offsets move, by the size of what was put in front. A whole text may be found in a pool
and a text behind another one never is, but that does not show either.
-/

namespace ClassfileTypes

namespace Text

/-- Cutting behind a prefix is cutting without it. -/
theorem dropBytes?_append_add (cs ds : List Char) (n : Nat) :
    dropBytes? (cs ++ ds) (byteSize cs + n) = dropBytes? ds n := by
  induction cs with
  | nil => rw [byteSize, Nat.zero_add, List.nil_append]
  | cons c cs ih =>
      have hpos := c.utf8Size_pos
      obtain ⟨m, hm⟩ := Nat.exists_eq_add_of_le' (show 1 ≤ byteSize (c :: cs) + n by
        rw [byteSize]
        omega)
      rw [byteSize] at hm
      rw [byteSize, hm, List.cons_append, dropBytes?, if_pos (by omega),
        show m + 1 - c.utf8Size = byteSize cs + n by omega, ih]

end Text

/-! ## Behind a prefix -/

namespace ParseError

/-- The same error, seen from the text with `before` in front of it. -/
def behind (before : String) (e : ParseError) : ParseError :=
  { e with offset := Text.byteSize before.toList + e.offset, text := before ++ e.text }

/-- What is quoted behind a prefix is what is quoted without it. -/
theorem quoting_append (before text : String) (kind : FaultKind) (n extent : Nat) :
    quoting (before ++ text) kind (Text.byteSize before.toList + n) extent =
      (quoting text kind n extent).behind before := by
  have hbytes : (Text.toBytes (before ++ text).toList).drop (Text.byteSize before.toList + n) =
      (Text.toBytes text.toList).drop n := by
    rw [String.toList_append, Text.toBytes_append, ← Text.length_toBytes, ← List.drop_drop,
      List.drop_left]
  unfold quoting behind
  rw [hbytes]

/-- A fault of what is left of a text is the same fault behind a prefix. -/
theorem ofFault_append (before text : String) {f : Fault} (hrest : f.rest <:+ text.toList) :
    ofFault (before ++ text) f = (ofFault text f).behind before := by
  obtain ⟨w, hw⟩ := hrest
  have hoffset : Text.byteSize (before ++ text).toList - Text.byteSize f.rest =
      Text.byteSize before.toList +
        (Text.byteSize text.toList - Text.byteSize f.rest) := by
    rw [String.toList_append, Text.byteSize_append, ← hw, Text.byteSize_append]
    omega
  unfold ofFault
  rw [hoffset, quoting_append]

end ParseError

/-- The same outcome of reading, seen from the text with `before` in front of it: the same
value with its end moved, or the same error. -/
def behind {α : Type} (before : String) :
    Except ParseError (α × Nat) → Except ParseError (α × Nat)
  | .ok (a, stop) => .ok (a, Text.byteSize before.toList + stop)
  | .error e => .error (e.behind before)

/-- **Reading does not look back.** The rule is applied to the same characters, whatever
stands before them. -/
theorem run_readAt_append (k : Start) (before text : String) (start : Nat) :
    (readAt k (before ++ text) (Text.byteSize before.toList + start) :
      ExceptT ParseError Id _).run =
        behind before (readAt k text start : ExceptT ParseError Id _).run := by
  have hwhole : Text.byteSize (before ++ text).toList =
      Text.byteSize before.toList + Text.byteSize text.toList := by
    rw [String.toList_append, Text.byteSize_append]
  cases hdrop : Text.dropBytes? text.toList start with
  | none =>
      have hmin : min (Text.byteSize before.toList + start)
          (Text.byteSize before.toList + Text.byteSize text.toList) =
            Text.byteSize before.toList + min start (Text.byteSize text.toList) := by
        omega
      have hdrop' : Text.dropBytes? (before ++ text).toList
          (Text.byteSize before.toList + start) = none := by
        rw [String.toList_append, Text.dropBytes?_append_add, hdrop]
      unfold readAt
      rw [hdrop, hdrop', hwhole]
      dsimp only
      rw [hmin, ParseError.quoting_append]
      rfl
  | some s =>
      obtain ⟨w, htext, rfl⟩ := Text.eq_append_of_dropBytes? hdrop
      have htext' : (before ++ text).toList = (before.toList ++ w) ++ s := by
        rw [String.toList_append, htext, List.append_assoc]
      rw [← Text.byteSize_append, run_readAt k htext', run_readAt k htext]
      have halike := Grammar.alike_rule k s
      have hsuffix : ∀ {r}, r <:+ s → r <:+ text.toList := fun hr =>
        hr.trans (htext ▸ List.suffix_append w s)
      cases houtcome : Grammar.outcome (Grammar.rule k s) with
      | error f =>
          have hrest := hsuffix (halike.shows f houtcome).suffix
          exact congrArg Except.error (ParseError.ofFault_append before text hrest)
      | ok v =>
          obtain ⟨t, r⟩ := v
          obtain ⟨u, hu⟩ := hsuffix (halike.rest t r houtcome)
          have hstop : Text.byteSize (before ++ text).toList - Text.byteSize r =
              Text.byteSize before.toList +
                (Text.byteSize text.toList - Text.byteSize r) := by
            rw [hwhole, ← hu, Text.byteSize_append]
            omega
          exact congrArg (fun stop => Except.ok (t, stop)) hstop

/-! ## In sessions -/

namespace Session

/-- **Parsing does not depend on the place.** In any two sessions: what is read behind `before`
is what is read without it. Both give equal trees with ends that differ by the size of
`before`, or both fail with the same kind of error and the same quotation, at offsets that
differ by as much. -/
theorem parseAt_behind (c c' : Intern.Config) (steps steps' : List Step) (k : Start)
    (before text : String) (start : Nat) :
    let p := ((Session.start c).after steps).pool
    let p' := ((Session.start c').after steps').pool
    p'.outcome (parseAt k (before ++ text) (Text.byteSize before.toList + start)) =
      behind before (p.outcome (parseAt k text start)) := by
  intro p p'
  have hs : Pool.Sound False p := (valid_after_start c steps).sound
  have hs' : Pool.Sound False p' := (valid_after_start c' steps').sound
  rw [Pool.outcome_eq hs (Pool.refines_parseAt k text start),
    Pool.outcome_eq hs' (Pool.refines_parseAt k _ _), parseAt_plain, parseAt_plain]
  exact run_readAt_append k before text start

/-- The class is found in the one pool, where it is the whole text, and read in the other
one, behind a character of two bytes. -/
example :
    let p := ((start {}).after [.value (.classDescriptor .checked "a") (some "c")]).pool
    let p' := ((start {}).after []).pool
    p.outcome (parseAt .classDescriptor "La;" 0) = .ok (.classDescriptor () "a", 3) ∧
      p'.outcome (parseAt .classDescriptor ("é" ++ "La;") 2) =
        .ok (.classDescriptor () "a", 5) := by
  decide +kernel

end Session

end ClassfileTypes
