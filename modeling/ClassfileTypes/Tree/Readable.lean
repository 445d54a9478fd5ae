import ClassfileTypes.Tree.Basic

/-!
# Readable texts

The text of a tree as a person writes it: keywords for primitive types, brackets
after the base of an array, `extends` before bounds. Names keep their slashes.
-/

namespace ClassfileTypes

/-- What stands between the entries of a list: bounds are joined by `&`. -/
def Form.separator : Form → String
  | .referenceType => " & "
  | _ => ", "

namespace TypeTree

variable {ι : Type}

/-- The base of an array with a pair of brackets for each dimension. -/
def bracketPairs (base : String) (dimension : Nat) : String :=
  base ++ String.join (List.replicate dimension "[]")

/-- A text between two others, unless the list that it shows has no entries. -/
def enclosed (isNil : Bool) (before text after : String) : String :=
  if isNil then "" else before ++ text ++ after

/-- The readable text. -/
def readable : {f : Form} → TypeTree ι f → String
  | _, .primitive p | _, .descPrimitive p | _, .sigPrimitive p => p.keyword
  | _, .descVoid | _, .sigVoid => "void"
  | _, .descClass c => c.readable
  | _, .descArray a => a.readable
  | _, .classDescriptor _ n => n
  | _, .arrayDescriptor _ d b => bracketPairs b.readable d
  | _, .methodDescriptor _ ps r => r.readable ++ " (" ++ ps.readable ++ ")"
  | _, .sigReference r => r.readable
  | _, .refClass c => c.readable
  | _, .refArray a => a.readable
  | _, .refVariable v => v.readable
  | _, .throwsClass c => c.readable
  | _, .throwsVariable v => v.readable
  | _, .classType _ o n as => o.readable ++ n ++ enclosed as.isNil "<" as.readable ">"
  | _, .topLevel => ""
  | _, .nestedIn c => c.readable ++ "."
  | _, .arrayType _ d b => bracketPairs b.readable d
  | _, .boundVariable _ d => d.name
  | _, .freeVariable _ n => n
  | _, .typeParameter _ n c is =>
      n ++ " extends " ++
        match c with
        | .noClassBound => is.readable
        | .boundedBy r => r.readable ++ enclosed is.isNil " & " is.readable ""
  | _, .noClassBound => ""
  | _, .boundedBy r => r.readable
  | _, .wildcard => "*"
  | _, .argReference r => r.readable
  | _, .argBounded b => b.readable
  | _, .boundedArgument _ d r => "? " ++ d.keyword ++ " " ++ r.readable
  | _, .methodSignature _ ts ps r es =>
      enclosed ts.isNil "<" ts.readable "> " ++ r.readable ++ " (" ++ ps.readable ++ ")" ++
        enclosed es.isNil " throws " es.readable ""
  | _, .classSignature _ ts c is =>
      enclosed ts.isNil "<" ts.readable "> " ++ "extends " ++ c.readable ++
        enclosed is.isNil " implements " is.readable ""
  | _, .nil => ""
  | _, .cons (f := f) x xs => x.readable ++ enclosed xs.isNil f.separator xs.readable ""

end TypeTree

end ClassfileTypes
