import ClassfileTypes.Grammar.Fault
import ClassfileTypes.Pool.Monad

/-!
# Reading from the front of a text

A rule of the grammar reads a value off the front of a text and says what is
left. Every rule reads at least one character, so reading comes to an end. What
has been read of a tree is held while the rest of it is read.
-/

namespace ClassfileTypes.Grammar

/-- A value that was read, and what is left of the text: fewer than `n`
characters. -/
structure Read (α : Type) (n : Nat) where
  value : α
  rest : List Char
  shorter : rest.length < n

namespace Read

variable {α β : Type} {n k : Nat}

/-- A value that leaves `rest` of a text with one more character. -/
def leaving (value : α) (rest : List Char) : Read α (rest.length + 1) :=
  ⟨value, rest, Nat.lt_succ_self _⟩

/-- The same, seen from a longer text. -/
def widen (h : n ≤ k) (r : Read α n) : Read α k :=
  ⟨r.value, r.rest, Nat.lt_of_lt_of_le r.shorter h⟩

/-- The same, seen from the text with one more character in front. -/
def after (r : Read α n) : Read α (n + 1) :=
  r.widen (Nat.le_succ n)

/-- Changes the value. -/
def map (g : α → β) (r : Read α n) : Read β n :=
  ⟨g r.value, r.rest, r.shorter⟩

end Read

/-- A rule applied to a text of `n` characters. -/
abbrev Reading (m : Type → Type) (α : Type) (n : Nat) : Type :=
  ExceptT Fault m (Read α n)

variable {m : Type → Type} [Monad m] {α : Type}

/-- Gives up: the text should continue otherwise. -/
def wanted (e : Expected) (rest : List Char) : ExceptT Fault m α :=
  throw (Fault.expected e rest)

/-- A construction whose refusal is a fault of the first `extent` bytes of `rest`. -/
def build (rest : List Char) (extent : Nat) (x : ExceptT TypeError m α) : ExceptT Fault m α :=
  ExceptT.adapt (Fault.invalid rest extent) x

/-- The characters up to the first of the `stops`. -/
def before (stops : List Char) (s : List Char) : List Char :=
  s.takeWhile (!stops.contains ·)

/-- The characters from the first of the `stops` on. -/
def since (stops : List Char) (s : List Char) : List Char :=
  s.dropWhile (!stops.contains ·)

theorem length_since_le (stops s : List Char) : (since stops s).length ≤ s.length :=
  (List.dropWhile_suffix _).length_le

theorem length_lt_of_since {stops s r : List Char} {c : Char} (h : since stops s = c :: r) :
    r.length < s.length := by
  have le := length_since_le stops s
  rw [h, List.length_cons] at le
  exact le

/-- Reads a name up to and including `;`, and makes a value of it. -/
def nameUntilEnd (make : String → ExceptT TypeError m α) (s : List Char) :
    Reading m α s.length :=
  let name := before [';'] s
  match h : since [';'] s with
  | ';' :: r => do
      let x ← build s (Text.byteSize name) (make (String.ofList name))
      pure ⟨x, r, length_lt_of_since h⟩
  | r => wanted (.char ';') r

/-- The number of dimensions that the text begins with. -/
def dimensions (s : List Char) : Nat :=
  (s.takeWhile (· == '[')).length

/-- What follows the dimensions. -/
def sinceDimensions (s : List Char) : List Char :=
  s.dropWhile (· == '[')

theorem length_sinceDimensions_le (s : List Char) : (sinceDimensions s).length ≤ s.length :=
  (List.dropWhile_suffix _).length_le

variable {ι : Type} [MonadPool ι m]

/-- Reads entries up to and including `close`, where there may be none. -/
def entriesUntil {f : Form} (close : Char)
    (entry : (s : List Char) → Reading m (TypeTree ι f) s.length) (s : List Char) :
    Reading m (TypeTree ι (.list f)) s.length :=
  match s with
  | [] => wanted (.char close) []
  | c :: r =>
      if c = close then pure (.leaving .nil r)
      else do
        let ⟨x, r₁, h₁⟩ ← entry (c :: r)
        let ⟨xs, r₂, h₂⟩ ← holding x (entriesUntil close entry r₁)
        pure ⟨.cons x xs, r₂, Nat.lt_trans h₂ h₁⟩
termination_by s.length
decreasing_by exact h₁

/-- Reads one or more entries up to and including `close`. -/
def someEntriesUntil {f : Form} (close : Char)
    (entry : (s : List Char) → Reading m (TypeTree ι f) s.length) (s : List Char) :
    Reading m (TypeTree ι (.list f)) s.length := do
  let ⟨x, r₁, h₁⟩ ← entry s
  let ⟨xs, r₂, h₂⟩ ← holding x (entriesUntil close entry r₁)
  pure ⟨.cons x xs, r₂, Nat.lt_trans h₂ h₁⟩

end ClassfileTypes.Grammar
