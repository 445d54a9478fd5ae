import ClassfileTypes.Name
import ClassfileTypes.Pool.Monad
import ClassfileTypes.Tree.Composite

/-!
# Construction

The checked ways to make a composite tree from its parts. Names are validated,
no method parameter and no array element is `void`, a type parameter has a bound,
and arrays are flat: an array of arrays adds up the dimensions over one base, and
the sum lies between 1 and 255.
-/

namespace ClassfileTypes.TypeTree

variable {ι : Type} {m : Type → Type} [Monad m] [MonadPool ι m]

/-- A result that does not depend on the pool. -/
def checked {α : Type} : Except ConstructionError α → ExceptT TypeError m α
  | .ok a => pure a
  | .error e => throw (.construction e)

/-! ## Classes and variables -/

/-- The descriptor of the class with the given name. -/
def makeClassDescriptor (name : String) : ExceptT TypeError m (TypeTree ι .classDescriptor) := do
  let n ← checked (Name.classNameOf name)
  intern (.classDescriptor · n)

/-- A class type: by class name at the top level, by simple name inside another. -/
def makeClassType (outer : TypeTree ι .enclosing) (name : String)
    (arguments : TypeTree ι (.list .typeArgument)) :
    ExceptT TypeError m (TypeTree ι .classType) := do
  let n ← match outer with
    | .topLevel => checked (Name.classNameOf name)
    | .nestedIn _ => checked (Name.simpleNameOf name)
  intern (.classType · outer n arguments)

/-- A type variable that is only named. -/
def makeFreeVariable (name : String) : ExceptT TypeError m (TypeTree ι .typeVariable) := do
  let n ← checked (Name.simpleNameOf name)
  intern (.freeVariable · n)

/-- The name of the class that every class extends. -/
def objectName : String := "java/lang/Object"

/-- The descriptor of the class that every class extends. -/
def objectDescriptor : ExceptT TypeError m (TypeTree ι .classDescriptor) :=
  makeClassDescriptor objectName

/-- The type of the class that every class extends. -/
def objectType : ExceptT TypeError m (TypeTree ι .classType) :=
  makeClassType .topLevel objectName .nil

/-! ## Arrays -/

/-- The largest number of dimensions of an array. -/
def maxDimension : Nat := 255

/-- The first number that a dimension given from outside cannot reach. -/
def dimensionLimit : Nat := 0x10000000000000000

/-- The dimension of an array, if it is allowed. -/
def checkDimension (d : Nat) : Except ConstructionError Nat :=
  if 1 ≤ d ∧ d ≤ maxDimension then .ok d else .error (.invalidDimension d)

/-- The dimension of an array of arrays. A sum that no dimension can reach is
refused under the dimension that was added. -/
def addDimension (d inner : Nat) : Except ConstructionError Nat :=
  if d + inner < dimensionLimit then checkDimension (d + inner)
  else .error (.invalidDimension d)

/-- The dimension and the base that an array descriptor has. -/
def flatDescriptor (d : Nat) :
    TypeTree ι .typeDescriptor → Except ConstructionError (Nat × TypeTree ι .typeDescriptor)
  | .descVoid => .error (.voidNotAllowed .arrayElement)
  | .descArray (.arrayDescriptor i inner base) =>
      if d = 0 then (·, .descArray (.arrayDescriptor i inner base)) <$> checkDimension d
      else (·, base) <$> addDimension d inner
  | base => (·, base) <$> checkDimension d

/-- The array descriptor with `d` dimensions over `base`. -/
def makeArrayDescriptor (d : Nat) (base : TypeTree ι .typeDescriptor) :
    ExceptT TypeError m (TypeTree ι .arrayDescriptor) := do
  let (d, base) ← checked (flatDescriptor d base)
  intern (.arrayDescriptor · d base)

/-- The dimension and the base that an array type has. -/
def flatType (d : Nat) :
    TypeTree ι .typeSignature → Except ConstructionError (Nat × TypeTree ι .typeSignature)
  | .sigVoid => .error (.voidNotAllowed .arrayElement)
  | .sigReference (.refArray (.arrayType i inner base)) =>
      if d = 0 then
        (·, .sigReference (.refArray (.arrayType i inner base))) <$> checkDimension d
      else (·, base) <$> addDimension d inner
  | base => (·, base) <$> checkDimension d

/-- The array type with `d` dimensions over `base`. -/
def makeArrayType (d : Nat) (base : TypeTree ι .typeSignature) :
    ExceptT TypeError m (TypeTree ι .arrayType) := do
  let (d, base) ← checked (flatType d base)
  intern (.arrayType · d base)

/-! ## Type parameters -/

/-- The bounds of a type parameter, the class bound first. -/
def bounds : TypeTree ι .typeParameter → List (TypeTree ι .referenceType)
  | .typeParameter _ _ .noClassBound is => is.entries
  | .typeParameter _ _ (.boundedBy r) is => r :: is.entries

/-- A type parameter with at least one bound. -/
def makeTypeParameter (name : String) (classBound : TypeTree ι .classBound)
    (interfaceBounds : TypeTree ι (.list .referenceType)) :
    ExceptT TypeError m (TypeTree ι .typeParameter) := do
  let n ← checked (Name.simpleNameOf name)
  match classBound, interfaceBounds with
  | .noClassBound, .nil => throw (.construction (.emptyBounds n))
  | _, _ => intern (.typeParameter · n classBound interfaceBounds)

/-- The type parameter whose only bound is the class that every class extends. -/
def makeUnconstrained (name : String) : ExceptT TypeError m (TypeTree ι .typeParameter) := do
  let object ← objectType
  makeTypeParameter name (.boundedBy (.refClass object)) .nil

/-! ## Methods -/

/-- The parameters of a method, none of which is `void`. -/
def checkParameters {f : Form} (ps : TypeTree ι (.list f)) : Except ConstructionError Unit :=
  if ps.entries.any isVoid then .error (.voidNotAllowed .methodParameter) else .ok ()

/-- A method descriptor. -/
def makeMethodDescriptor (parameters : TypeTree ι (.list .typeDescriptor))
    (result : TypeTree ι .typeDescriptor) : ExceptT TypeError m (TypeTree ι .methodDescriptor) := do
  checked (checkParameters parameters)
  intern (.methodDescriptor · parameters result)

/-- A method signature. -/
def makeMethodSignature (typeParameters : TypeTree ι (.list .typeParameter))
    (parameters : TypeTree ι (.list .typeSignature)) (result : TypeTree ι .typeSignature)
    (throws : TypeTree ι (.list .throwsType)) :
    ExceptT TypeError m (TypeTree ι .methodSignature) := do
  checked (checkParameters parameters)
  intern (.methodSignature · typeParameters parameters result throws)

end ClassfileTypes.TypeTree
