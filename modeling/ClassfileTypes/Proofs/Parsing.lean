import ClassfileTypes.Proofs.ReadingDeclarations
import ClassfileTypes.Proofs.RoundTripDeclarations

/-!
# Parsing

A tree is read back from its internal text in any surroundings. And the pool is
consulted without harm: a key without `#` is the internal text of its tree, so
what is found is what reading gives, up to the end of the text.
-/

namespace ClassfileTypes

namespace Text

theorem byteSize_append (cs ds : List Char) :
    byteSize (cs ++ ds) = byteSize cs + byteSize ds := by
  induction cs with
  | nil => exact (Nat.zero_add _).symm
  | cons c cs ih => rw [List.cons_append, byteSize, byteSize, ih, Nat.add_assoc]

/-- What is left after the bytes of a prefix. -/
theorem dropBytes?_append (cs ds : List Char) :
    dropBytes? (cs ++ ds) (byteSize cs) = some ds := by
  induction cs with
  | nil => cases ds <;> rfl
  | cons c cs ih =>
      obtain ⟨n, hn⟩ := Nat.exists_eq_add_of_le' (Nat.le_add_right_of_le c.utf8Size_pos :
        1 ≤ c.utf8Size + byteSize cs)
      rw [byteSize, hn, List.cons_append, dropBytes?, if_pos (by omega),
        show n + 1 - c.utf8Size = byteSize cs by omega, ih]

end Text

/-! ## Without a pool -/

theorem lookUpClass_plain (text : String) :
    (lookUpClass text : Id (Option (TypeTree Unit .classType))) = none :=
  ite_self none

/-- In the identity monad nothing is found. -/
theorem lookUp_plain (k : Start) (text : String) :
    (lookUp k text : Id (Option (TypeTree Unit k.form))) = none := by
  cases k with
  | typeDescriptor =>
      exact ite_self none
  | typeSignature | referenceType | classType =>
      simp only [lookUp, lookUpClass_plain]
      rfl
  | _ => rfl

/-- **Without a pool a text is always read.** -/
theorem parseAt_plain (k : Start) (text : String) (start : Nat) :
    (parseAt k text start : ExceptT ParseError Id _) = readAt k text start := by
  unfold parseAt
  rw [lookUp_plain]
  split_ifs <;> rfl

/-- **What is written is read back, in any surroundings.** -/
theorem readAt_internal (k : Start) {t : TypeTree Unit k.form} (ht : t.WellFormed)
    (hu : t.Unbound) (before after : String) (hafter : k.Follows after.toList) :
    (readAt k (before ++ t.internal ++ after) (Text.byteSize before.toList) :
      ExceptT ParseError Id _).run = Except.ok
        (t, Text.byteSize before.toList + Text.byteSize t.internal.toList) := by
  have htext : (before ++ t.internal ++ after).toList =
      before.toList ++ t.write .internal (k.form.closing ++ after.toList) := by
    rw [String.toList_append, String.toList_append, List.append_assoc, TypeTree.internal,
      String.toList_ofList, TypeTree.text_append]
  obtain ⟨h, hrule⟩ := Grammar.gives_rule k ht hu hafter
  unfold readAt
  rw [htext, Text.dropBytes?_append]
  show ExceptT.bindCont _ (Except.mapError _ (Grammar.rule k _ : Grammar.Reading Id _ _).run) = _
  rw [hrule]
  have hsize : Text.byteSize (before.toList ++ t.write .internal (k.form.closing ++ after.toList)) =
      Text.byteSize before.toList + Text.byteSize t.internal.toList +
        Text.byteSize after.toList := by
    rw [← TypeTree.text_append, Text.byteSize_append, Text.byteSize_append, TypeTree.internal,
      String.toList_ofList, Nat.add_assoc]
  show Except.ok (t, Text.byteSize (before.toList ++ _) - Text.byteSize after.toList) = _
  rw [hsize, Nat.add_sub_cancel]

/-- A text without `#` that is the key of a tree is read as that tree. -/
theorem readAt_key (k : Start) {t : TypeTree Nat k.form} (ht : t.WellFormed)
    (hhash : '#' ∉ t.key.toList) :
    (readAt k t.key 0 : ExceptT ParseError Id _).run =
      Except.ok (t.plain, Text.byteSize t.key.toList) := by
  have hu : t.Unbound := by
    rw [TypeTree.key, String.toList_ofList, TypeTree.text] at hhash
    exact TypeTree.unbound_of_not_mem hhash
  have hread := readAt_internal k (t := t.plain) (by simpa using ht) (by simpa using hu)
    "" "" k.follows_nil
  rw [TypeTree.key_of_unbound hu]
  simpa [Text.byteSize] using hread

/-! ## With a pool -/

namespace Pool

variable {canonical : Prop} {p : Pool}

/-- The outcome of looking a text up: the pool is as before, and what is found is a
tree of the pool with the text as its key. -/
def LooksUp (canonical : Prop) {f : Form} (p : Pool) (text : String)
    (x : PoolM (Option (TypeTree Nat f))) : Prop :=
  ∃ o, x p = (o, p) ∧ ∀ t, o = some t → p.Good canonical t ∧ t.key = text

theorem LooksUp.none {f : Form} {text : String} :
    LooksUp canonical p text (pure .none : PoolM (Option (TypeTree Nat f))) :=
  ⟨.none, rfl, fun _ h => nomatch h⟩

theorem LooksUp.find? (hs : Sound canonical p) (k : Composite) (text : String) :
    LooksUp canonical p text (MonadPool.find? k text) := by
  refine ⟨p.find? k text, rfl, ?_⟩
  intro t ht
  obtain ⟨hgood, -, hkey⟩ := find?_spec hs ht
  exact ⟨hgood, hkey⟩

/-- What is found stands for a tree of another form with the same key. -/
theorem LooksUp.map {f g : Form} {text : String} {x : PoolM (Option (TypeTree Nat f))}
    (hx : LooksUp canonical p text x) {w : TypeTree Nat f → TypeTree Nat g}
    (hgood : ∀ t, p.Good canonical t → p.Good canonical (w t)) (hkey : ∀ t, (w t).key = t.key) :
    LooksUp canonical p text ((·.map w) <$> x) := by
  obtain ⟨o, ho, hfound⟩ := hx
  refine ⟨o.map w, ?_, ?_⟩
  · show ((x p).1.map w, (x p).2) = _
    rw [ho]
  · intro u hu
    obtain ⟨t, ht, rfl⟩ := Option.map_eq_some_iff.mp hu
    exact ⟨hgood t (hfound t ht).1, (hkey t).trans (hfound t ht).2⟩

theorem LooksUp.ite {f : Form} {text : String} {c : Prop} [Decidable c]
    {x y : PoolM (Option (TypeTree Nat f))} (hx : LooksUp canonical p text x)
    (hy : LooksUp canonical p text y) : LooksUp canonical p text (if c then x else y) := by
  split_ifs
  · exact hx
  · exact hy

theorem looksUp_lookUpClass (hs : Sound canonical p) (text : String) :
    LooksUp canonical p text (lookUpClass text) :=
  .ite (.find? hs .classType text) .none

theorem looksUp_lookUp (hs : Sound canonical p) (k : Start) (text : String) :
    LooksUp canonical p text (lookUp k text) := by
  have hclass := looksUp_lookUpClass hs text
  cases k with
  | typeDescriptor =>
      have hdescriptor : LooksUp canonical p text (MonadPool.find? .classDescriptor text) :=
        .find? hs _ text
      exact .ite (hdescriptor.map (fun t h => (Tagged.of_good h).descClass.good) fun _ => rfl) .none
  | classDescriptor => exact .find? hs .classDescriptor text
  | methodDescriptor => exact .find? hs .methodDescriptor text
  | methodSignature => exact .find? hs .methodSignature text
  | typeSignature =>
      exact hclass.map (fun t h => (Tagged.of_good h).refClass.sigReference.good) fun _ => rfl
  | referenceType => exact hclass.map (fun t h => (Tagged.of_good h).refClass.good) fun _ => rfl
  | classType => exact hclass
  | classSignature | typeParameter | typeArgument => exact .none

/-- Looking up first, and going on with what is found. -/
theorem LooksUp.refines {f : Form} {text : String} {x : PoolM (Option (TypeTree Nat f))}
    {α β : Type} {R : Pool → α → β → Prop}
    {k : Option (TypeTree Nat f) → ExceptT ParseError PoolM α} {y : ExceptT ParseError Id β}
    (hx : Sound canonical p → LooksUp canonical p text x)
    (hnone : Refines canonical R p (k .none) y)
    (hsome : ∀ t, p.Good canonical t → t.key = text → Refines canonical R p (k (some t)) y) :
    Refines canonical R p (liftM x >>= k) y := by
  intro hs
  obtain ⟨o, ho, hfound⟩ := hx hs
  have hrun : (liftM x >>= k).run p = (k o).run p := by
    show (k (x p).1).run (x p).2 = (k o).run p
    rw [ho]
  rw [hrun]
  cases o with
  | none => exact hnone hs
  | some t => exact hsome t (hfound t rfl).1 (hfound t rfl).2 hs

/-- Parsing does whatever reading does. What is found, if something is, is the tree that
would be read up to the end of the text. -/
theorem Refines.parseAt {k : Start} {text : String} {start : Nat}
    {R : Pool → TypeTree Nat k.form × Nat → TypeTree Unit k.form × Nat → Prop}
    (hread : Refines canonical R p (readAt k text start) (readAt k text start))
    (hfound : ∀ t n, p.Good canonical t → R p (t, n) (t.plain, n)) :
    Refines canonical R p (parseAt k text start) (parseAt k text start) := by
  rw [parseAt_plain]
  unfold ClassfileTypes.parseAt
  by_cases hfast : (start = 0 && isPooled text) = true
  · obtain ⟨hstart, hpooled⟩ := Bool.and_eq_true_iff.mp hfast
    obtain rfl : start = 0 := by simpa using hstart
    have hhash : '#' ∉ text.toList := by
      unfold isPooled at hpooled
      simpa using (Bool.and_eq_true_iff.mp hpooled).2
    rw [if_pos hfast]
    refine LooksUp.refines (fun hs => looksUp_lookUp hs k text) hread ?_
    -- A hit: the text is the key of a tree, so it would be read as that tree.
    rintro t hgood rfl
    have hrun := readAt_key k hgood.wellFormed hhash
    intro hs
    rw [hrun]
    exact ⟨hs, Extends.refl p, hfound t _ hgood⟩
  · rw [if_neg hfast]
    exact hread

/-- **Parsing refines its plain version.** -/
theorem refines_parseAt (k : Start) (text : String) (start : Nat) :
    Refines canonical (EndTagged canonical) p (parseAt k text start) (parseAt k text start) :=
  Refines.parseAt (refines_readAt k text start) fun _ _ hgood => ⟨.of_good hgood, rfl⟩

theorem refines_parse (k : Start) (text : String) :
    Refines canonical (Tagged canonical) p (parse k text) (parse k text) := by
  unfold parse
  apply Refines.bind (refines_parseAt k text 0)
  rintro q ⟨t, stop⟩ ⟨t', stop'⟩ - ⟨ht, hstop⟩ -
  obtain rfl : stop = stop' := hstop
  dsimp only
  split_ifs
  · exact Refines.pure ht
  · exact Refines.throw

end Pool

end ClassfileTypes
