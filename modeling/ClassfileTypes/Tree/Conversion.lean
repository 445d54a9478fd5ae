import ClassfileTypes.Tree.Composite
import ClassfileTypes.Tree.Encoding

/-!
# Conversion between forms

A tree of a narrower form stands for one of a wider form: a class type is a
reference type, and a reference type is a type. The other way round a tree
converts only if it happens to be narrow enough.
-/

namespace ClassfileTypes

/-- Why a tree does not convert. -/
inductive ConversionError
  /-- No tree of the kind does. -/
  | wrongKind (title : String)
  /-- Trees of the kind may, but this one does not. -/
  | tooWide (title internal : String)
deriving DecidableEq, Repr

/-- The outcome of a conversion to form `f`. -/
abbrev Converted (ι : Type) (f : Form) : Type :=
  Except ConversionError (TypeTree ι f)

namespace TypeTree

variable {ι : Type}

/-- What a method throws, as a reference type. -/
def throwsReference : TypeTree ι .throwsType → TypeTree ι .referenceType
  | .throwsClass c => .refClass c
  | .throwsVariable v => .refVariable v

/-- A reference type as what a method throws; an array is too wide. -/
def referenceThrows? : TypeTree ι .referenceType → Option (TypeTree ι .throwsType)
  | .refClass c => some (.throwsClass c)
  | .refVariable v => some (.throwsVariable v)
  | .refArray _ => none

end TypeTree

namespace AnyTree

open TypeTree

variable {ι : Type}

/-- Refuses a tree for its kind. -/
def wrongKind {f : Form} (v : AnyTree ι) : Converted ι f :=
  .error (.wrongKind v.title)

/-- Takes what a narrowing gives, if anything. -/
def narrowed {f : Form} (v : AnyTree ι) : Option (TypeTree ι f) → Converted ι f
  | some t => .ok t
  | none => .error (.tooWide v.1.title v.2.internal)

/-- As a descriptor of a type: primitive types, classes and arrays are. -/
def toTypeDescriptor : AnyTree ι → Converted ι .typeDescriptor
  | ⟨.typeDescriptor, t⟩ => .ok t
  | ⟨.primitive, .primitive p⟩ => .ok (.descPrimitive p)
  | ⟨.classDescriptor, c⟩ => .ok (.descClass c)
  | ⟨.arrayDescriptor, a⟩ => .ok (.descArray a)
  | v => v.wrongKind

/-- As a type: primitive types, references and what a method throws are. -/
def toTypeSignature : AnyTree ι → Converted ι .typeSignature
  | ⟨.typeSignature, t⟩ => .ok t
  | ⟨.primitive, .primitive p⟩ => .ok (.sigPrimitive p)
  | ⟨.classType, c⟩ => .ok (.sigReference (.refClass c))
  | ⟨.arrayType, a⟩ => .ok (.sigReference (.refArray a))
  | ⟨.typeVariable, v⟩ => .ok (.sigReference (.refVariable v))
  | ⟨.referenceType, r⟩ => .ok (.sigReference r)
  | ⟨.throwsType, e⟩ => .ok (.sigReference e.throwsReference)
  | v => v.wrongKind

/-- As a reference type; a primitive type and `void` are too wide. -/
def toReferenceType : AnyTree ι → Converted ι .referenceType
  | ⟨.referenceType, r⟩ => .ok r
  | ⟨.classType, c⟩ => .ok (.refClass c)
  | ⟨.arrayType, a⟩ => .ok (.refArray a)
  | ⟨.typeVariable, v⟩ => .ok (.refVariable v)
  | ⟨.throwsType, e⟩ => .ok e.throwsReference
  | ⟨.typeSignature, .sigReference r⟩ => .ok r
  | ⟨.typeSignature, t⟩ => narrowed ⟨_, t⟩ none
  | v => v.wrongKind

/-- As what a method throws; arrays, primitive types and `void` are too wide. -/
def toThrowsType : AnyTree ι → Converted ι .throwsType
  | ⟨.throwsType, e⟩ => .ok e
  | ⟨.classType, c⟩ => .ok (.throwsClass c)
  | ⟨.typeVariable, v⟩ => .ok (.throwsVariable v)
  | ⟨.referenceType, r⟩ => narrowed ⟨_, r⟩ r.referenceThrows?
  | ⟨.typeSignature, .sigReference r⟩ => narrowed ⟨_, .sigReference r⟩ r.referenceThrows?
  | ⟨.typeSignature, t⟩ => narrowed ⟨_, t⟩ none
  | v => v.wrongKind

/-- As a type argument: references and wildcards with a bound are. -/
def toTypeArgument : AnyTree ι → Converted ι .typeArgument
  | ⟨.typeArgument, a⟩ => .ok a
  | ⟨.referenceType, r⟩ => .ok (.argReference r)
  | ⟨.classType, c⟩ => .ok (.argReference (.refClass c))
  | ⟨.arrayType, a⟩ => .ok (.argReference (.refArray a))
  | ⟨.typeVariable, v⟩ => .ok (.argReference (.refVariable v))
  | ⟨.boundedArgument, b⟩ => .ok (.argBounded b)
  | v => v.wrongKind

/-- As a class type: a reference that is a class is. -/
def toClassType : AnyTree ι → Converted ι .classType
  | ⟨.classType, c⟩ => .ok c
  | ⟨.referenceType, .refClass c⟩ => .ok c
  | ⟨.typeSignature, .sigReference (.refClass c)⟩ => .ok c
  | v => v.wrongKind

/-- As a type parameter: nothing else is. -/
def toTypeParameter : AnyTree ι → Converted ι .typeParameter
  | ⟨.typeParameter, p⟩ => .ok p
  | v => v.wrongKind

end AnyTree

end ClassfileTypes
