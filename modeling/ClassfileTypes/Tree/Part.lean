import ClassfileTypes.Tree.Erasure

/-!
# Parts

The tree inside a tree of a form with alternatives, and the named parts of
composite trees. Looking at a part gives the very tree that is there; only the
element type of an array and the variable of a type parameter are made.
-/

namespace ClassfileTypes

/-- A named part. The parts that form a list are numbered from zero. -/
inductive Part
  | outer
  | argument
  | base
  | component
  | parameter
  | result
  | typeParameter
  | throws
  | superclass
  | interface
  | declaration
  | classBound
  | interfaceBound
  | variable
  | bound
deriving DecidableEq, Repr

/-- Why there is no such part. -/
inductive PartError
  /-- Trees of the kind do not have it. -/
  | wrongKind (title : String)
  /-- This tree does not have it, or not that many. -/
  | absent
deriving DecidableEq, Repr

namespace TypeTree

variable {ι : Type}

/-- The tree that is the alternative taken; `void`, the wildcard and trees of
forms without alternatives are themselves. -/
def inner : {f : Form} → TypeTree ι f → AnyTree ι
  | _, .descPrimitive p | _, .sigPrimitive p => ⟨_, .primitive p⟩
  | _, .descClass c => ⟨_, c⟩
  | _, .descArray a => ⟨_, a⟩
  | _, .sigReference r => r.inner
  | _, .refClass c => ⟨_, c⟩
  | _, .refArray a => ⟨_, a⟩
  | _, .refVariable v => ⟨_, v⟩
  | _, .throwsClass c => ⟨_, c⟩
  | _, .throwsVariable v => ⟨_, v⟩
  | _, .argReference r => r.inner
  | _, .argBounded b => ⟨_, b⟩
  | _, t => ⟨_, t⟩

end TypeTree

namespace AnyTree

variable {ι : Type} {m : Type → Type} [Monad m] [MonadPool ι m]

/-- The tree that is the alternative taken. -/
def inner (v : AnyTree ι) : AnyTree ι :=
  v.2.inner

/-- An entry of a list. -/
def nth {f : Form} (xs : TypeTree ι (.list f)) (index : Option Nat) :
    ExceptT PartError m (AnyTree ι) :=
  match index.bind (xs.entries[·]?) with
  | some x => pure ⟨_, x⟩
  | none => throw .absent

/-- A part of a composite tree. -/
def part (v : AnyTree ι) (p : Part) (index : Option Nat) : ExceptT PartError m (AnyTree ι) :=
  match v, p with
  | ⟨_, .classType _ (.nestedIn c) _ _⟩, .outer => pure ⟨_, c⟩
  | ⟨_, .classType _ .topLevel _ _⟩, .outer => throw .absent
  | ⟨_, .classType _ _ _ as⟩, .argument => nth as index
  | ⟨_, .arrayDescriptor _ _ b⟩, .base => pure ⟨_, b⟩
  | ⟨_, .arrayDescriptor i d b⟩, .component => do
      return ⟨_, ← TypeTree.descriptorComponent (.arrayDescriptor i d b)⟩
  | ⟨_, .arrayType _ _ b⟩, .base => pure ⟨_, b⟩
  | ⟨_, .arrayType i d b⟩, .component => do
      return ⟨_, ← TypeTree.typeComponent (.arrayType i d b)⟩
  | ⟨_, .methodDescriptor _ ps _⟩, .parameter => nth ps index
  | ⟨_, .methodDescriptor _ _ r⟩, .result => pure ⟨_, r⟩
  | ⟨_, .methodSignature _ ts _ _ _⟩, .typeParameter => nth ts index
  | ⟨_, .methodSignature _ _ ps _ _⟩, .parameter => nth ps index
  | ⟨_, .methodSignature _ _ _ r _⟩, .result => pure ⟨_, r⟩
  | ⟨_, .methodSignature _ _ _ _ es⟩, .throws => nth es index
  | ⟨_, .classSignature _ ts _ _⟩, .typeParameter => nth ts index
  | ⟨_, .classSignature _ _ c _⟩, .superclass => pure ⟨_, c⟩
  | ⟨_, .classSignature _ _ _ is⟩, .interface => nth is index
  | ⟨_, .boundVariable _ d⟩, .declaration => pure ⟨_, d⟩
  | ⟨_, .typeParameter _ _ (.boundedBy r) _⟩, .classBound => pure ⟨_, r⟩
  | ⟨_, .typeParameter _ _ .noClassBound _⟩, .classBound => throw .absent
  | ⟨_, .typeParameter _ _ _ is⟩, .interfaceBound => nth is index
  | ⟨_, .typeParameter i n c is⟩, .variable => do
      return ⟨_, ← intern (.boundVariable · (.typeParameter i n c is))⟩
  | ⟨_, .boundedArgument _ _ r⟩, .bound => pure ⟨_, r⟩
  | v, _ => throw (.wrongKind v.title)

end AnyTree

end ClassfileTypes
