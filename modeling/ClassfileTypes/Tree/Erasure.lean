import ClassfileTypes.Tree.Construct

/-!
# Erasure

The erasure of a signature is the descriptor of the values it describes. Type
arguments are dropped, a nested class is named by its binary name, and a type
variable erases to the first of its bounds. A variable without a declaration
cannot be erased.

The way back, from a descriptor to the signature that says no more, is always
possible.
-/

namespace ClassfileTypes

/-- The forms of descriptors. -/
def Form.isDescriptor : Form → Bool
  | typeDescriptor | classDescriptor | arrayDescriptor | methodDescriptor => true
  | _ => false

/-- Whether a tree may have an erasure of its own: a type other than a variable
that is only named, or a method signature. -/
def AnyTree.isErasable {ι : Type} : AnyTree ι → Bool
  | ⟨_, .freeVariable ..⟩ => false
  | ⟨.typeSignature, _⟩ | ⟨.referenceType, _⟩ | ⟨.throwsType, _⟩ | ⟨.classType, _⟩
  | ⟨.arrayType, _⟩ | ⟨.typeVariable, _⟩ | ⟨.methodSignature, _⟩ => true
  | _ => false

namespace TypeTree

variable {ι : Type} {m : Type → Type} [Monad m] [MonadPool ι m]

/-- The binary name of a class: the names of the classes around it and its own,
joined by `$`. -/
def binaryName : {f : Form} → TypeTree ι f → String
  | _, .classType _ .topLevel n _ => n
  | _, .classType _ (.nestedIn c) n _ => c.binaryName ++ "$" ++ n
  | _, _ => ""

/-- The erasure. The tree is held by whoever asks. -/
def erase : {f : Form} → TypeTree ι f → ExceptT TypeError m (TypeTree ι f.erased)
  | _, .sigPrimitive p => pure (.descPrimitive p)
  | _, .sigVoid => pure .descVoid
  | _, .sigReference r => r.erase
  | _, .refClass c => .descClass <$> c.erase
  | _, .refArray a => .descArray <$> a.erase
  | _, .refVariable v => v.erase
  | _, .throwsClass c => .descClass <$> c.erase
  | _, .throwsVariable v => v.erase
  | _, .classType i o n as =>
      let name := (TypeTree.classType i o n as).binaryName
      intern (.classDescriptor · name)
  | _, .arrayType _ d b => do makeArrayDescriptor d (← b.erase)
  | _, .boundVariable _ d => d.erase
  | _, .freeVariable _ n => throw (.unresolved n)
  | _, .typeParameter _ _ (.boundedBy r) _ => r.erase
  | _, .typeParameter _ _ .noClassBound (.cons r _) => r.erase
  | _, .typeParameter _ _ .noClassBound .nil => .descClass <$> objectDescriptor
  | _, .methodSignature _ _ ps r _ => do
      let ps ← ps.erase
      let r ← holding ps r.erase
      makeMethodDescriptor ps r
  | _, .nil => pure .nil
  | _, .cons x xs => do
      let x ← x.erase
      let xs ← holding x xs.erase
      return .cons x xs
  -- What is left has no counterpart at run time or is erased already.
  | _, .primitive p => pure (.primitive p)
  | _, .descPrimitive p => pure (.descPrimitive p)
  | _, .descVoid => pure .descVoid
  | _, .descClass c => pure (.descClass c)
  | _, .descArray a => pure (.descArray a)
  | _, .classDescriptor i n => pure (.classDescriptor i n)
  | _, .arrayDescriptor i d b => pure (.arrayDescriptor i d b)
  | _, .methodDescriptor i ps r => pure (.methodDescriptor i ps r)
  | _, .topLevel => pure .topLevel
  | _, .nestedIn c => pure (.nestedIn c)
  | _, .noClassBound => pure .noClassBound
  | _, .boundedBy r => pure (.boundedBy r)
  | _, .wildcard => pure .wildcard
  | _, .argReference r => pure (.argReference r)
  | _, .argBounded b => pure (.argBounded b)
  | _, .boundedArgument i d r => pure (.boundedArgument i d r)
  | _, .classSignature i ts c is => pure (.classSignature i ts c is)

/-- The signature that says no more than a descriptor. The descriptor is held by
whoever asks. -/
def raise : {f : Form} → TypeTree ι f → m (TypeTree ι f.raised)
  | _, .descPrimitive p => pure (.sigPrimitive p)
  | _, .descVoid => pure .sigVoid
  | _, .descClass c => do return .sigReference (.refClass (← c.raise))
  | _, .descArray a => do return .sigReference (.refArray (← a.raise))
  | _, .classDescriptor _ n => intern (.classType · .topLevel n .nil)
  | _, .arrayDescriptor _ d b => do
      let b ← b.raise
      intern (.arrayType · d b)
  | _, .methodDescriptor _ ps r => do
      let ps ← ps.raise
      let r ← holding ps r.raise
      intern (.methodSignature · .nil ps r .nil)
  | _, .nil => pure .nil
  | _, .cons x xs => do
      let x ← x.raise
      let xs ← holding x xs.raise
      return .cons x xs
  -- What is left is a signature or a part of one already.
  | _, .primitive p => pure (.primitive p)
  | _, .sigPrimitive p => pure (.sigPrimitive p)
  | _, .sigVoid => pure .sigVoid
  | _, .sigReference r => pure (.sigReference r)
  | _, .refClass c => pure (.refClass c)
  | _, .refArray a => pure (.refArray a)
  | _, .refVariable v => pure (.refVariable v)
  | _, .throwsClass c => pure (.throwsClass c)
  | _, .throwsVariable v => pure (.throwsVariable v)
  | _, .classType i o n as => pure (.classType i o n as)
  | _, .topLevel => pure .topLevel
  | _, .nestedIn c => pure (.nestedIn c)
  | _, .arrayType i d b => pure (.arrayType i d b)
  | _, .boundVariable i d => pure (.boundVariable i d)
  | _, .freeVariable i n => pure (.freeVariable i n)
  | _, .typeParameter i n c is => pure (.typeParameter i n c is)
  | _, .noClassBound => pure .noClassBound
  | _, .boundedBy r => pure (.boundedBy r)
  | _, .wildcard => pure .wildcard
  | _, .argReference r => pure (.argReference r)
  | _, .argBounded b => pure (.argBounded b)
  | _, .boundedArgument i d r => pure (.boundedArgument i d r)
  | _, .methodSignature i ts ps r es => pure (.methodSignature i ts ps r es)
  | _, .classSignature i ts c is => pure (.classSignature i ts c is)

/-! ## The elements of arrays -/

/-- The type of the elements of an array: the array with one dimension fewer, or
its base. -/
def descriptorComponent : TypeTree ι .arrayDescriptor → m (TypeTree ι .typeDescriptor)
  | .arrayDescriptor _ d b =>
      if d = 1 then pure b else .descArray <$> intern (.arrayDescriptor · (d - 1) b)

/-- The type of the elements of an array: the array with one dimension fewer, or
its base. -/
def typeComponent : TypeTree ι .arrayType → m (TypeTree ι .typeSignature)
  | .arrayType _ d b =>
      if d = 1 then pure b
      else do return .sigReference (.refArray (← intern (.arrayType · (d - 1) b)))

/-! ## Local variables -/

/-- The local-variable slots of a value of the type. -/
def slots : TypeTree ι .typeDescriptor → Nat
  | .descVoid => 0
  | .descPrimitive p => p.slots
  | _ => 1

/-- The local-variable slots of the parameters. -/
def parameterSlots : TypeTree ι .methodDescriptor → Nat
  | .methodDescriptor _ ps _ => ps.entries.foldl (fun n p => n + slots p) 0

/-- Whether values of the type are references. -/
def isReference : TypeTree ι .typeDescriptor → Bool
  | .descClass _ | .descArray _ => true
  | _ => false

end TypeTree

end ClassfileTypes
