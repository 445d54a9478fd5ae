/-!
# Forms of type trees

The syntax of class-file types has several forms: descriptors, which say what a
type is at run time, signatures, which also say how it is written with generics,
and the parts that signatures are made of. Every tree has one form, and every
operation on trees says how it changes the form.
-/

namespace ClassfileTypes

/-- The form of a tree. -/
inductive Form
  | primitive
  /-- A primitive type, `void`, a class or an array, erased. -/
  | typeDescriptor
  | classDescriptor
  | arrayDescriptor
  | methodDescriptor
  /-- Any type that may stand for a value or a result. -/
  | typeSignature
  /-- A class, an array or a type variable. -/
  | referenceType
  /-- A class or a type variable, where a method names what it throws. -/
  | throwsType
  | classType
  | arrayType
  | typeVariable
  | typeParameter
  | typeArgument
  /-- A wildcard with a bound. -/
  | boundedArgument
  | methodSignature
  | classSignature
  /-- What a class is nested in, if anything. -/
  | enclosing
  /-- The class bound of a type parameter, if it has one. -/
  | classBound
  /-- Several trees of one form, in order. -/
  | list (entry : Form)
deriving DecidableEq, Repr, Inhabited

namespace Form

/-- The name of the form. -/
def title : Form → String
  | primitive => "PrimitiveType"
  | typeDescriptor => "TypeDescriptor"
  | classDescriptor => "ClassTypeDescriptor"
  | arrayDescriptor => "ArrayTypeDescriptor"
  | methodDescriptor => "MethodDescriptor"
  | typeSignature => "TypeSignature"
  | referenceType => "ReferenceTypeSignature"
  | throwsType => "ThrowsSignature"
  | classType => "ClassTypeSignature"
  | arrayType => "ArrayTypeSignature"
  | typeVariable => "TypeVariable"
  | typeParameter => "TypeParameter"
  | typeArgument => "TypeArgument"
  | boundedArgument => "BoundedTypeArgument"
  | methodSignature => "MethodSignature"
  | classSignature => "ClassSignature"
  | enclosing => "EnclosingClass"
  | classBound => "ClassBound"
  | list entry => entry.title ++ "List"

/-- The form of the entries of a list. -/
def entry : Form → Form
  | list f => f
  | f => f

/-- The form of the erasure: types become descriptors, and a form that has no
counterpart at run time stays as it is. -/
def erased : Form → Form
  | typeSignature | referenceType | throwsType | typeVariable | typeParameter => typeDescriptor
  | classType => classDescriptor
  | arrayType => arrayDescriptor
  | methodSignature => methodDescriptor
  | list f => list f.erased
  | f => f

/-- The form of the signature that says no more than a descriptor. -/
def raised : Form → Form
  | typeDescriptor => typeSignature
  | classDescriptor => classType
  | arrayDescriptor => arrayType
  | methodDescriptor => methodSignature
  | list f => list f.raised
  | f => f

end Form

end ClassfileTypes
