import ClassfileTypes.Intern.Registry
import ClassfileTypes.Pool.Monad
import ClassfileTypes.Tree.Encoding

/-!
# The pool

The pool keeps one object for each composite tree: trees in it are tagged with
the identity of their object, and a tree with the key of a live object is that
object. An object is alive while a tree that is held reaches it. The values that
`settle` names are held until it is called again, and a computation holds its
own trees with `holding` while it makes others. A dead object does not come back:
when its key is asked for again, there is a new object.

While the pool is off, every tree that is made is a new object that the pool
does not know.
-/

namespace ClassfileTypes

/-- A pool of objects. -/
structure Pool where
  registry : Intern.Registry Composite (AnyTree Nat) := {}
  /-- The trees that are held. -/
  held : List (AnyTree Nat) := []
  /-- The identity of the next object. -/
  next : Nat := 0

namespace Pool

/-- Whether an object is alive: a tree that is held reaches it. -/
def isLive (p : Pool) (v : AnyTree Nat) : Bool :=
  v.2.tag?.any fun i => p.held.any fun t => t.2.hasTag i

/-- The object for the tree that `draft` gives: a live one with the same key, or
else a new one. The parts of the draft are alive meanwhile. -/
def intern {f : Form} (p : Pool) (draft : Nat → TypeTree Nat f) : TypeTree Nat f × Pool :=
  let candidate := draft p.next
  match candidate.composite? with
  | none => (candidate, p)
  | some kind =>
      let asked := { p with held := ⟨f, candidate⟩ :: p.held }
      let (v, registry) := p.registry.acquire asked.isLive kind candidate.key ⟨f, candidate⟩
      ((v.as? f).getD candidate, { p with registry, next := p.next + 1 })

/-- The live object of a kind with the given key. -/
def find? (p : Pool) (kind : Composite) (key : String) : Option (TypeTree Nat kind.form) :=
  (p.registry.find? p.isLive kind key).bind (·.as? kind.form)

/-- Holds the given values and nothing else: every object that none of them
reaches dies. -/
def settle (p : Pool) (values : List (AnyTree Nat)) : Pool :=
  { p with held := values }

/-- Holds a tree during a computation with the pool. -/
def holding {α : Type} (v : AnyTree Nat) (x : Pool → α × Pool) (p : Pool) : α × Pool :=
  let (a, q) := x { p with held := v :: p.held }
  (a, { q with held := p.held })

/-- Removes the entries of dead objects: how many there were. -/
def purge (p : Pool) : Nat × Pool :=
  let (stats, registry) := p.registry.purge p.isLive
  (stats.removed, { p with registry })

/-- Turns the pool on or off. -/
def setEnabled (p : Pool) (on : Bool) : Pool :=
  { p with registry := p.registry.setEnabled on }

/-- The number of entries of a kind, those of dead objects included. -/
def count (p : Pool) (kind : Composite) : Nat :=
  p.registry.count kind

/-- The numbers of entries of the kinds that have any. -/
def counts (p : Pool) : List (Composite × Nat) :=
  (Composite.all.map fun k => (k, p.count k)).filter fun e => 0 < e.2

end Pool

/-- Computations with a pool. -/
abbrev PoolM : Type → Type :=
  StateM Pool

instance : MonadPool Nat PoolM where
  intern draft := fun p => p.intern draft
  find? kind key := fun p => (p.find? kind key, p)
  holding t x := Pool.holding ⟨_, t⟩ x

end ClassfileTypes
