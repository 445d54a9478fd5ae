import ClassfileTypes.Tree.Composite

/-!
# Where composite trees come from

A composite tree is not built in place but asked for: a pool may answer with an
equal tree that exists already. Operations that make trees are therefore
written for any monad that has a pool. The identity monad is the trivial pool:
it builds plain trees and finds none.

A pool may forget a tree that is not held. So an operation that has made a tree
and goes on to make others holds the first one meanwhile. What it was given is
held by whoever gave it, and a tree holds its parts.
-/

namespace ClassfileTypes

/-- A monad in which composite trees with tags in `ι` are made. -/
class MonadPool (ι : outParam Type) (m : Type → Type) where
  /-- The tree that `draft` gives for its own tag, or an equal one made before. -/
  intern {f : Form} (draft : ι → TypeTree ι f) : m (TypeTree ι f)
  /-- The tree of kind `k` whose key is `key`, if the pool has it. -/
  find? (k : Composite) (key : String) : m (Option (TypeTree ι k.form))
  /-- Holds a tree during a computation. -/
  holding {f : Form} {α : Type} (t : TypeTree ι f) (x : m α) : m α

export MonadPool (intern holding)

instance : MonadPool Unit Id where
  intern draft := draft ()
  find? _ _ := none
  holding _ x := x

instance {ι ε : Type} {m : Type → Type} [Monad m] [MonadPool ι m] : MonadPool ι (ExceptT ε m) where
  intern draft := ExceptT.lift (intern draft)
  find? k key := ExceptT.lift (MonadPool.find? k key)
  holding t x := ExceptT.mk (holding t x.run)

section

variable {ι : Type} {m : Type → Type} [MonadPool ι m] {α : Type}

/-- Holds several trees during a computation. -/
def holdingAll {f : Form} (ts : List (TypeTree ι f)) (x : m α) : m α :=
  ts.foldr (fun t y => holding t y) x

end

end ClassfileTypes
