import ClassfileTypes.Proofs.Outcomes

/-!
# One character ahead

A rule goes from left to right and looks at one character after what it has read, and of that
character it knows only which ASCII character it is, if it is one. So two texts that part
somewhere, at characters that are no different to the rule, are read alike up to there: if the
rule ends there on the one text, it ends there on the other, with the same value or the same
fault. The exception are angle brackets with nothing between them, where it takes two
characters to tell.

Together with this goes what a fault shows: the text from where the rule gave up, the two
brackets, or the characters that make up what was refused.
-/

namespace ClassfileTypes

namespace Grammar

open TypeTree

variable {α β : Type} {s s' r r' w w' whole : List Char} {c c' : Char}

/-! ## Texts that part -/

/-- The same character, or two that are not ASCII. -/
def Resembles (c c' : Char) : Prop :=
  c = c' ∨ 128 ≤ c.toNat ∧ 128 ≤ c'.toNat

/-- The characters are ASCII. -/
def Ascii (l : List Char) : Prop :=
  ∀ c ∈ l, c.toNat < 128

-- By going through the list, and not through all characters that there are.
instance (l : List Char) : Decidable (Ascii l) :=
  List.decidableBAll (fun c : Char => c.toNat < 128) l

/-- No list of ASCII characters tells characters that resemble each other apart. -/
theorem Resembles.not_mem {l : List Char} (h : Resembles c c') (hl : Ascii l)
    (hc : c ∉ l) : c' ∉ l := by
  rcases h with rfl | ⟨-, hc'⟩
  · exact hc
  · intro hmem
    have := hl c' hmem
    omega

theorem Resembles.ne {d : Char} (h : Resembles c c') (hd : Ascii [d]) (hc : c ≠ d) : c' ≠ d := by
  intro heq
  exact h.not_mem hd (mt List.mem_singleton.mp hc) (List.mem_singleton.mpr heq)

theorem Resembles.eq_of_lt (h : Resembles c c') (hc : c.toNat < 128) : c = c' := by
  rcases h with h | ⟨hc', -⟩
  · exact h
  · omega

/-- The texts go on, with characters that resemble each other. -/
inductive SameStart : List Char → List Char → Prop
  | cons {c c' : Char} (h : Resembles c c') (r r' : List Char) : SameStart (c :: r) (c' :: r')

theorem SameStart.avoids {l : List Char} (h : SameStart s s') (hl : Ascii l) (hs : Avoids l s) :
    Avoids l s' := by
  cases h with
  | cons h r r' =>
      rintro c hc
      obtain rfl := Option.some.inj hc
      exact h.not_mem hl (hs _ rfl)

theorem SameStart.exists_eq_cons (h : SameStart (c :: r) s') (hc : c.toNat < 128) :
    ∃ r', s' = c :: r' := by
  cases h with
  | cons h r r' =>
      obtain rfl := h.eq_of_lt hc
      exact ⟨r', rfl⟩

/-- The texts `s` and `s'` are the same up to `r` and `r'`, where they may part. -/
def Parting (s r s' r' : List Char) : Prop :=
  ∃ w, s = w ++ r ∧ s' = w ++ r' ∧ SameStart r r'

namespace Parting

theorem sameStart (h : Parting s r s' r') : SameStart s s' := by
  obtain ⟨w, rfl, rfl, h⟩ := h
  cases w with
  | nil => exact h
  | cons c w => exact .cons (Or.inl rfl) _ _

/-- Nothing is left before the place where they part. -/
theorem eq_of_self (h : Parting s s s' r') : s' = r' ∧ SameStart s s' := by
  obtain ⟨w, hw, rfl, h⟩ := h
  obtain rfl := List.self_eq_append_left.mp hw
  exact ⟨rfl, h⟩

/-- Between the beginning and the place where they part, they are the same. -/
theorem split (h : Parting s r s' r') (hw : w <:+ s) (hr : r <:+ w) :
    ∃ w', Parting s w s' w' ∧ Parting w r w' r' := by
  obtain ⟨v, rfl⟩ := hw
  obtain ⟨u, rfl⟩ := hr
  obtain ⟨x, hx, rfl, hstart⟩ := h
  obtain rfl : v ++ u = x := List.append_cancel_right (by rw [List.append_assoc, hx])
  have hinner : Parting (u ++ r) r (u ++ r') r' := ⟨u, rfl, rfl, hstart⟩
  exact ⟨u ++ r', ⟨v, rfl, List.append_assoc _ _ _, hinner.sameStart⟩, hinner⟩

theorem of_append (h : Parting (w ++ s) r s' r') (hr : r <:+ s) :
    ∃ v, s' = w ++ v ∧ Parting s r v r' := by
  obtain ⟨v, ⟨x, hx, rfl, -⟩, hinner⟩ := h.split (List.suffix_append w s) hr
  obtain rfl := List.append_cancel_right hx
  exact ⟨v, rfl, hinner⟩

end Parting

end Grammar

/-! ## What faults show -/

/-- Why a construction from this text is refused: it is no name, it is the name of a type
parameter without bounds, or it is too many dimensions. -/
inductive Rejects (found : String) : TypeError → Prop
  | name (fault : NameFault) : Rejects found (.construction (.invalidName found fault))
  | bounds : Rejects found (.construction (.emptyBounds found))
  | dimension {d : Nat} (hd : TypeTree.maxDimension < d)
      (h : found.toList = List.replicate d '[') :
      Rejects found (.construction (.invalidDimension d))

/-- A fault shows what was rejected: the text from where the rule gave up, which is a part of
`s`, or else the characters that were refused, which are a part of `whole`. -/
inductive Fault.Shows (whole s : List Char) : Fault → Prop
  | expected (e : Expected) {r : List Char} (h : r <:+ s) : Shows whole s (.expected e r)
  | emptyList {r : List Char} (h : '<' :: '>' :: r <:+ s) :
      Shows whole s (.emptyList ('<' :: '>' :: r))
  | invalid {found r : List Char} {e : TypeError} (h : found ++ r <:+ whole)
      (he : Rejects (String.ofList found) e) :
      Shows whole s (.invalid (found ++ r) (Text.byteSize found) e)

/-- Whether it takes no more than the text from `r` on to see the fault: another continuation
was expected, or there are brackets with nothing between them. -/
def Fault.SeenIn (f : Fault) (r : List Char) : Prop :=
  match f.kind with
  | .expected _ => True
  | .emptyList => ['<', '>'] <+: r
  | _ => False

namespace Fault.Shows

variable {whole whole' s s' r : List Char} {f : Fault}

/-- It is a part of longer texts, too. -/
theorem mono (h : f.Shows whole s) (hwhole : whole <:+ whole') (hs : s <:+ s') :
    f.Shows whole' s' := by
  cases h with
  | expected e h => exact .expected e (h.trans hs)
  | emptyList h => exact .emptyList (h.trans hs)
  | invalid h he => exact .invalid (h.trans hwhole) he

theorem rest_suffix (h : f.Shows whole s) (hseen : f.SeenIn r) : f.rest <:+ s := by
  cases h with
  | expected e h => exact h
  | emptyList h => exact h
  | invalid h he => exact hseen.elim

/-- Where the two texts are the same, so is what the fault shows. -/
theorem suffix (h : f.Shows s s) : f.rest <:+ s := by
  cases h with
  | expected e h => exact h
  | emptyList h => exact h
  | invalid h he => exact h

theorem exists_rest_of_emptyList (h : f.Shows whole s) (hkind : f.kind = .emptyList) :
    ∃ r, f.rest = '<' :: '>' :: r := by
  cases h with
  | expected e h => exact nomatch hkind
  | emptyList h => exact ⟨_, rfl⟩
  | invalid h he => exact nomatch hkind

end Fault.Shows

namespace Grammar

open TypeTree

variable {α β : Type} {s s' r r' w w' whole : List Char} {c c' : Char}

/-- What `x` comes to on `s` is what `Y` comes to on texts that part from `s` no earlier than
where `x` ends. -/
structure Alike (whole s : List Char) (x : Outcome α) (Y : List Char → Outcome α) : Prop where
  rest : ∀ a r, x = .ok (a, r) → r <:+ s
  shows : ∀ f, x = .error f → f.Shows whole s
  ok : ∀ a r s' r', x = .ok (a, r) → Parting s r s' r' → Y s' = .ok (a, r')
  error : ∀ f s' r', x = .error f → f.SeenIn r' → Parting s f.rest s' r' →
    Y s' = .error { f with rest := r' }

namespace Alike

variable {x : Outcome α} {Y Z : List Char → Outcome α}

/-- A part of the text is a part of a longer one. -/
theorem widen (h : Alike s s x Y) (hs : s <:+ whole) : Alike whole s x Y where
  rest := h.rest
  shows f hf := (h.shows f hf).mono hs (List.suffix_refl s)
  ok := h.ok
  error := h.error

/-- Only the texts that part from this one matter. -/
theorem congr (h : Alike whole s x Z) (heq : ∀ s', SameStart s s' → Y s' = Z s') :
    Alike whole s x Y where
  rest := h.rest
  shows := h.shows
  ok a r s' r' hx hpart := (heq s' hpart.sameStart).trans (h.ok a r s' r' hx hpart)
  error f s' r' hx hseen hpart :=
    (heq s' hpart.sameStart).trans (h.error f s' r' hx hseen hpart)

/-- A success that leaves the whole text. -/
theorem stay {a : α} (hY : ∀ s', SameStart s s' → Y s' = .ok (a, s')) :
    Alike whole s (.ok (a, s)) Y where
  rest b r h := by
    obtain ⟨rfl, rfl⟩ := Prod.mk.inj (Except.ok.inj h)
    exact List.suffix_refl s
  shows f h := nomatch h
  ok b r s' r' h hpart := by
    obtain ⟨rfl, rfl⟩ := Prod.mk.inj (Except.ok.inj h)
    obtain ⟨rfl, hstart⟩ := hpart.eq_of_self
    exact hY s' hstart
  error f s' r' h := nomatch h

/-- Giving up where the text begins. -/
theorem wanted {e : Expected} (hY : ∀ s', SameStart s s' → Y s' = .error (.expected e s')) :
    Alike whole s (.error (.expected e s)) Y where
  rest a r h := nomatch h
  shows f h := by
    obtain rfl := Except.error.inj h
    exact .expected e (List.suffix_refl s)
  ok a r s' r' h := nomatch h
  error f s' r' h hseen hpart := by
    obtain rfl := Except.error.inj h
    obtain ⟨rfl, hstart⟩ := hpart.eq_of_self
    exact hY s' hstart

/-- Giving up where the text ends: there is nothing to see. -/
theorem atEnd {e : Expected} : Alike whole s (.error (.expected e [])) Y where
  rest a r h := nomatch h
  shows f h := by
    obtain rfl := Except.error.inj h
    exact .expected e (List.nil_suffix)
  ok a r s' r' h := nomatch h
  error f s' r' h hseen hpart := by
    obtain rfl := Except.error.inj h
    obtain ⟨w, -, -, hstart⟩ := hpart
    exact nomatch hstart

/-- Brackets with nothing between them. -/
theorem empty {r : List Char}
    (hY : ∀ r', Y ('<' :: '>' :: r') = .error (.emptyList ('<' :: '>' :: r'))) :
    Alike whole ('<' :: '>' :: r) (.error (.emptyList ('<' :: '>' :: r))) Y where
  rest a r h := nomatch h
  shows f h := by
    obtain rfl := Except.error.inj h
    exact .emptyList (List.suffix_refl _)
  ok a r s' r' h := nomatch h
  error f s' r' h hseen hpart := by
    obtain rfl := Except.error.inj h
    obtain ⟨rfl, -⟩ := hpart.eq_of_self
    obtain ⟨v, rfl⟩ : ['<', '>'] <+: s' := hseen
    exact hY v

/-- The characters that have been read do not matter any more. -/
theorem skip (w : List Char) (h : Alike whole s x fun s' => Y (w ++ s')) :
    Alike whole (w ++ s) x Y where
  rest a r hx := (h.rest a r hx).trans (List.suffix_append w s)
  shows f hf := (h.shows f hf).mono (List.suffix_refl whole) (List.suffix_append w s)
  ok a r s' r' hx hpart := by
    obtain ⟨v, rfl, hinner⟩ := hpart.of_append (h.rest a r hx)
    exact h.ok a r v r' hx hinner
  error f s' r' hx hseen hpart := by
    obtain ⟨v, rfl, hinner⟩ := hpart.of_append ((h.shows f hx).rest_suffix hseen)
    exact h.error f v r' hx hseen hinner

theorem next (c : Char) (h : Alike whole s x fun s' => Y (c :: s')) :
    Alike whole (c :: s) x Y :=
  skip [c] h

/-- One rule after the other. What comes then may depend on the whole text. -/
theorem andThen {F : α → List Char → Outcome β}
    {G : List Char → α → List Char → Outcome β} (hx : Alike whole s x Y)
    (hF : ∀ a r, x = .ok (a, r) → r <:+ s → ∀ s', Alike whole r (F a r) (G s' a)) :
    Alike whole s (x.andThen F) fun s' => (Y s').andThen (G s') := by
  cases x with
  | error e =>
      refine ⟨fun a r h => (nomatch h), fun f hf => hx.shows f (congrArg _ (Except.error.inj hf)),
        fun a r s' r' h => (nomatch h), fun f s' r' hf hseen hpart => ?_⟩
      obtain rfl := Except.error.inj hf
      show (Y s').andThen (G s') = _
      rw [hx.error _ s' r' rfl hseen hpart]
      rfl
  | ok v =>
      obtain ⟨a, r⟩ := v
      have hr : r <:+ s := hx.rest a r rfl
      refine ⟨fun b w hw => ?_, fun f hf => ?_, fun b w s' w' hw hpart => ?_,
        fun f s' w' hf hseen hpart => ?_⟩
      · exact ((hF a r rfl hr s).rest b w hw).trans hr
      · exact ((hF a r rfl hr s).shows f hf).mono (List.suffix_refl whole) hr
      · obtain ⟨r', hpart, hinner⟩ := hpart.split hr ((hF a r rfl hr s).rest b w hw)
        show (Y s').andThen (G s') = _
        rw [hx.ok a r s' r' rfl hpart]
        exact (hF a r rfl hr s').ok b w r' w' hw hinner
      · have hrest : f.rest <:+ r := ((hF a r rfl hr s).shows f hf).rest_suffix hseen
        obtain ⟨r', hpart, hinner⟩ := hpart.split hr hrest
        show (Y s').andThen (G s') = _
        rw [hx.ok a r s' r' rfl hpart]
        exact (hF a r rfl hr s').error f r' w' hf hseen hinner

/-- A value made of the one that was read. -/
theorem map (h : Alike whole s x Y) (g : α → β) :
    Alike whole s (x.andThen fun a r => .ok (g a, r)) fun s' =>
      (Y s').andThen fun a r => .ok (g a, r) :=
  h.andThen fun _ _ _ _ _ => .stay fun _ _ => rfl

/-- The same construction on either text. -/
theorem building {y : ExceptT TypeError Id β} {F : β → Outcome α}
    {G : List Char → β → Outcome α} {rest : List Char} {n : Nat} {u : List Char → List Char}
    {k : List Char → Nat}
    (hbad : ∀ e, y.run = .error e → (Fault.invalid rest n e).Shows whole s)
    (hF : ∀ b, y.run = .ok b → Alike whole s (F b) fun s' => G s' b) :
    Alike whole s (Grammar.building rest n y F) fun s' =>
      Grammar.building (u s') (k s') y (G s') := by
  unfold Grammar.building
  cases hy : y.run with
  | ok b => exact hF b hy
  | error e =>
      refine ⟨fun a r h => (nomatch h), fun f hf => ?_, fun a r s' r' h => (nomatch h),
        fun f s' r' hf hseen hpart => ?_⟩
      · obtain rfl := Except.error.inj hf
        exact hbad e hy
      · obtain rfl := Except.error.inj hf
        exact hseen.elim

end Alike

end Grammar

end ClassfileTypes
