import ClassfileTypes.Grammar.Parse
import ClassfileTypes.Proofs.Writing

/-!
# What the rules of the grammar give

How a text is cut at a stop, and what a rule gives when it succeeds without a pool,
composed step by step.
-/

namespace ClassfileTypes

namespace Grammar

variable {α β : Type} {n k : Nat} {stops s r r' : List Char}

/-- The rule gives `a` and leaves `r`. -/
def Gives (x : Reading Id α n) (a : α) (r : List Char) : Prop :=
  ∃ h, x.run = Except.ok ⟨a, r, h⟩

namespace Gives

theorem pure {a : α} {h : r.length < n} : Gives (Pure.pure ⟨a, r, h⟩) a r :=
  ⟨h, rfl⟩

theorem bind {x : Reading Id α n} {f : Read α n → Reading Id β k} {a : α} {b : β}
    (hx : Gives x a r) (hf : ∀ h, Gives (f ⟨a, r, h⟩) b r') : Gives (x >>= f) b r' := by
  obtain ⟨h, hrun⟩ := hx
  show ∃ h, (ExceptT.bindCont f x.run : Id _) = _
  rw [hrun]
  exact hf h

/-- A step that reads nothing. -/
theorem bind_run {ε : Type} {x : ExceptT ε Id α} {e : ε → Fault} {f : α → Reading Id β n} {a : α}
    {b : β} (hx : x.run = Except.ok a) (hf : Gives (f a) b r) :
    Gives (ExceptT.adapt e x >>= f) b r := by
  show ∃ h, (ExceptT.bindCont f (Except.mapError e x.run) : Id _) = _
  rw [hx]
  exact hf

end Gives

/-! ## Cutting at a stop -/

/-- What is left after the characters before the stops is empty or begins with a stop. -/
theorem since_eq (stops s : List Char) :
    since stops s = [] ∨ ∃ c r, since stops s = c :: r ∧ c ∈ stops := by
  cases h : since stops s with
  | nil => exact Or.inl rfl
  | cons c r =>
      refine Or.inr ⟨c, r, rfl, ?_⟩
      have hhead := List.head?_dropWhile_not (!stops.contains ·) s
      rw [show s.dropWhile (!stops.contains ·) = c :: r from h] at hhead
      simpa using hhead

/-- The characters up to a stop, where the stop is the first one. -/
theorem before_append (hs : ∀ c ∈ s, c ∉ stops) (hr : ∀ c, r.head? = some c → c ∈ stops) :
    before stops (s ++ r) = s := by
  unfold before
  rw [List.takeWhile_append_of_pos (by simpa using hs)]
  cases r with
  | nil => rw [List.takeWhile_nil, List.append_nil]
  | cons c r => rw [List.takeWhile_cons_of_neg (by simpa using hr c rfl), List.append_nil]

/-- The text from a stop on, where the stop is the first one. -/
theorem since_append (hs : ∀ c ∈ s, c ∉ stops) (hr : ∀ c, r.head? = some c → c ∈ stops) :
    since stops (s ++ r) = r := by
  unfold since
  rw [List.dropWhile_append_of_pos (by simpa using hs)]
  cases r with
  | nil => rw [List.dropWhile_nil]
  | cons c r => rw [List.dropWhile_cons_of_neg (by simpa using hr c rfl)]

theorem eq_bracket_of_mem_replicate {d : Nat} :
    ∀ c ∈ List.replicate d '[', (c == '[') = true := by
  intro c hc
  simpa using List.eq_of_mem_replicate hc

theorem dimensions_replicate (d : Nat) (hr : ∃ c, r.head? = some c ∧ c ≠ '[') :
    dimensions (List.replicate d '[' ++ r) = d := by
  obtain ⟨c, hc, hne⟩ := hr
  obtain ⟨w, rfl⟩ := List.head?_eq_some_iff.mp hc
  unfold dimensions
  rw [List.takeWhile_append_of_pos eq_bracket_of_mem_replicate,
    List.takeWhile_cons_of_neg (by simpa using hne)]
  simp

theorem sinceDimensions_replicate (d : Nat) (hr : ∃ c, r.head? = some c ∧ c ≠ '[') :
    sinceDimensions (List.replicate d '[' ++ r) = r := by
  obtain ⟨c, hc, hne⟩ := hr
  obtain ⟨w, rfl⟩ := List.head?_eq_some_iff.mp hc
  unfold sinceDimensions
  rw [List.dropWhile_append_of_pos eq_bracket_of_mem_replicate,
    List.dropWhile_cons_of_neg (by simpa using hne)]

/-! ## Rules that cut the text

Where the text has the stop that the rule looks for, and where it has not. -/

section

variable {ι : Type} {m : Type → Type} [Monad m]

theorem nameUntilEnd_of_since {make : String → ExceptT TypeError m α}
    (h : since [';'] s = ';' :: r) :
    nameUntilEnd make s = (do
      let x ← build s (Text.byteSize (before [';'] s)) (make (String.ofList (before [';'] s)))
      pure ⟨x, r, length_lt_of_since h⟩) := by
  unfold nameUntilEnd
  split
  · rename_i r' h'
    obtain rfl := (List.cons.inj (h.symm.trans h')).2
    rfl
  · rename_i h'
    exact absurd h (h' r)

theorem nameUntilEnd_of_end {make : String → ExceptT TypeError m α}
    (h : since [';'] s = []) : nameUntilEnd make s = wanted (.char ';') [] := by
  unfold nameUntilEnd
  split
  · rename_i r' h'
    exact nomatch h.symm.trans h'
  · rw [h]

variable [MonadPool ι m]

theorem typeParameter_of_since (h : since [':', '>'] s = ':' :: r) :
    typeParameter (m := m) s = (do
      let ⟨c, r₁, h₁⟩ ← optionalClassBound r
      let ⟨is, r₂, h₂⟩ ← holding c (interfaceBounds r₁)
      let p ← build s (Text.byteSize (before [':', '>'] s))
        (TypeTree.makeTypeParameter (String.ofList (before [':', '>'] s)) c is)
      pure ⟨p, r₂, Nat.lt_of_le_of_lt
        (Nat.le_trans (Nat.le_of_lt_succ h₂) (Nat.le_of_lt_succ h₁)) (length_lt_of_since h)⟩) := by
  unfold typeParameter
  split
  · rename_i r' h'
    obtain rfl := (List.cons.inj (h.symm.trans h')).2
    rfl
  · rename_i h'
    exact absurd h (h' r)

theorem typeParameter_of_not_since (h : ∀ r, since [':', '>'] s ≠ ':' :: r) :
    typeParameter (m := m) s = wanted (.char ':') (since [':', '>'] s) := by
  unfold typeParameter
  split
  · rename_i r' h'
    exact absurd h' (h r')
  · rfl

end

end Grammar

end ClassfileTypes
