import ClassfileTypes.Intern.Config

/-!
# Tables of weak references

A table has at most one entry for a key: the value that was registered last. It
does not keep the value alive. Which values are alive is known outside, and every
operation is told; the entry of a dead value counts as an entry but is not found,
and stays until it is purged or the key is registered again.
-/

namespace ClassfileTypes.Intern

/-- The size below which a locked table does not purge itself. -/
def minimumPurge : Nat := 64

/-- A table of weak references to values. -/
structure Table (ν : Type) where
  /-- No key occurs twice. -/
  entries : List (String × ν) := []
  /-- The size at which a locked table purges itself. -/
  purgeAt : Nat := minimumPurge

namespace Table

variable {ν : Type}

/-- The number of entries, those of dead values included. -/
def size (t : Table ν) : Nat :=
  t.entries.length

/-- The value of a key, if it is alive. -/
def find? (alive : ν → Bool) (t : Table ν) (key : String) : Option ν :=
  (t.entries.lookup key).filter alive

/-- Removes the entries of dead values: how many there were, and the table without
them, to be purged again when it has doubled. -/
def purge (alive : ν → Bool) (t : Table ν) : Nat × Table ν :=
  let kept := t.entries.filter fun e => alive e.2
  (t.size - kept.length, { entries := kept, purgeAt := max (2 * kept.length) minimumPurge })

/-- Registers a value, in place of an older one with the same key. A locked table
that has grown enough purges itself. The value is held meanwhile, and `alive` tells
who is alive then. -/
def register (s : Strategy) (alive : ν → Bool) (t : Table ν) (key : String) (v : ν) : Table ν :=
  let t := { t with entries := (key, v) :: t.entries.filter fun e => e.1 != key }
  if s = .locked ∧ t.purgeAt ≤ t.size then (t.purge alive).2 else t

/-- The live value of a key, or else the one that `make` makes, which is registered.
Nothing is made unless it is needed. While some values are held for the table, `alive`
tells of these values who is alive. -/
def acquireWith {m : Type → Type} [Monad m] (s : Strategy) (alive : List ν → ν → Bool)
    (t : Table ν) (key : String) (make : m ν) : m (ν × Table ν) :=
  match t.find? (alive []) key with
  | some v => pure (v, t)
  | none => do
      let v ← make
      pure (v, t.register s (alive [v]) key v)

end Table

end ClassfileTypes.Intern
