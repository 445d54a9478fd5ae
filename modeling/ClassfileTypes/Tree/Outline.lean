import ClassfileTypes.Text.Quoted
import ClassfileTypes.Tree.Basic

/-!
# Outlines

The outline of a tree spells out its structure: the constructor of every
alternative, the fields of every record, and names in quotes.
-/

namespace ClassfileTypes

/-- The name of the direction as an alternative. -/
def Direction.title : Direction → String
  | .upper => "Upper"
  | .lower => "Lower"

namespace TypeTree

open Text

variable {ι : Type}

/-- The alternative that a type variable is among reference types. -/
def variableTitle : TypeTree ι .typeVariable → String
  | .boundVariable .. => "Variable"
  | .freeVariable .. => "Unbound"

/-- The outline. -/
def outline : {f : Form} → TypeTree ι f → String
  | _, .primitive p => p.title
  | _, .descPrimitive p | _, .sigPrimitive p => applied "Primitive" p.title
  | _, .descVoid | _, .sigVoid => "Void"
  | _, .descClass c => applied "Class" c.outline
  | _, .descArray a => applied "Array" a.outline
  | _, .classDescriptor _ n => applied "ClassTypeDescriptor" (quote n)
  | _, .arrayDescriptor _ d b =>
      record "ArrayTypeDescriptor" [("dimension", toString d), ("base", b.outline)]
  | _, .methodDescriptor _ ps r =>
      record "MethodDescriptor" [("params", bracketed ps.outline), ("return_type", r.outline)]
  | _, .sigReference r => r.outline
  | _, .refClass c => applied "Class" c.outline
  | _, .refArray a => applied "Array" a.outline
  | _, .refVariable v => applied v.variableTitle v.outline
  | _, .throwsClass c => applied "Class" c.outline
  | _, .throwsVariable v => applied v.variableTitle v.outline
  | _, .classType _ o n as =>
      record "ClassTypeSignature"
        ((match o with
          | .topLevel => []
          | .nestedIn c => [("parent", c.outline)]) ++
          [("name", quote n)] ++
          if as.isNil then [] else [("type_arguments", bracketed as.outline)])
  | _, .topLevel => "None"
  | _, .nestedIn c => applied "Some" c.outline
  | _, .arrayType _ d b =>
      record "ArrayTypeSignature" [("dimension", toString d), ("base", b.outline)]
  | _, .boundVariable _ d => applied "TypeVariable" d.outline
  | _, .freeVariable _ n => applied "UnboundTypeVariable" (quote n)
  | _, .typeParameter _ n c is =>
      record "TypeParameter"
        [("name", quote n), ("class_bound", c.outline),
          ("interface_bounds", bracketed is.outline)]
  | _, .noClassBound => "None"
  | _, .boundedBy r => applied "Some" r.outline
  | _, .wildcard => "Wildcard"
  | _, .argReference r => applied "Reference" r.outline
  | _, .argBounded b => applied "Bounded" b.outline
  | _, .boundedArgument _ d r =>
      record "BoundedTypeArgument" [("bound", d.title), ("signature", r.outline)]
  | _, .methodSignature _ ts ps r es =>
      record "MethodSignature"
        [("type_parameters", bracketed ts.outline), ("params", bracketed ps.outline),
          ("return_type", r.outline), ("throws", bracketed es.outline)]
  | _, .classSignature _ ts c is =>
      record "ClassSignature"
        [("type_parameters", bracketed ts.outline), ("superclass", c.outline),
          ("superinterfaces", bracketed is.outline)]
  | _, .nil => ""
  | _, .cons x xs => x.outline ++ if xs.isNil then "" else ", " ++ xs.outline

end TypeTree

end ClassfileTypes
