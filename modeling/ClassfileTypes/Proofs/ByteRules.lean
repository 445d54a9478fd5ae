import ClassfileTypes.Proofs.ByteCursor
import ClassfileTypes.Proofs.Outcomes

/-!
# The rules over bytes

Every production of the grammar as a computation with a cursor. A rule looks at the byte at the
position and moves on or gives up. The rules are loops and call each other, and nothing in their
shape makes them end: they do because the cursor goes forward. So a rule is told how many calls
may be nested, and has no outcome if these are not enough. A rule that is run on its own may
nest as many as there is text for.
-/

namespace ClassfileTypes.Scanner

open TypeTree

/-! ## Lists and names -/

/-- Entries up to and including `close`, where there may be none. -/
def entriesUntil {f : Form} (close : Char) (entry : Nat → Scanner (TypeTree Unit f)) :
    Nat → Scanner (TypeTree Unit (.list f))
  | 0 => stuck
  | n + 1 => do
      if ← eat close then return .nil
      else if ← atEnd then wanted (.char close)
      else
        let x ← entry n
        let xs ← entriesUntil close entry n
        return .cons x xs

/-- Entries as long as `lead` is in front of them. -/
def entriesAfter {f : Form} (lead : Char) (entry : Nat → Scanner (TypeTree Unit f)) :
    Nat → Scanner (TypeTree Unit (.list f))
  | 0 => stuck
  | n + 1 => do
      if ← eat lead then
        let x ← entry n
        let xs ← entriesAfter lead entry n
        return .cons x xs
      else return .nil

/-- A name up to and including `;`, and what is made with it. In front of it is `lead`. -/
def nameUntilEnd {α : Type} (lead : Char) (make : String → ExceptT TypeError Id α) :
    Scanner α := do
  let (name, start) ← takeUntil [';']
  expect ';'
  construct ⟨some lead, [';'], start, name⟩ make

/-! ## Descriptors -/

/-- A class. -/
def classDescriptor : Scanner (TypeTree Unit .classDescriptor) := do
  if ← eat 'L' then nameUntilEnd 'L' makeClassDescriptor else wanted .classType

mutual

/-- A primitive type, a class or an array. -/
def valueDescriptor (e : Expected) : Nat → Scanner (TypeTree Unit .typeDescriptor)
  | 0 => stuck
  | n + 1 => do
      match ← primitive with
      | some p => return .descPrimitive p
      | none =>
          match ← peek with
          | 'L' => .descClass <$> classDescriptor
          | '[' => .descArray <$> arrayDescriptor n
          | _ => wanted e

/-- An array: brackets, and what it is an array of. -/
def arrayDescriptor : Nat → Scanner (TypeTree Unit .arrayDescriptor)
  | 0 => stuck
  | n + 1 => do
      let start ← position
      let d ← dimensions n
      let b ← valueDescriptor .valueType n
      check start (start + d) (makeArrayDescriptor d b)

end

/-- A primitive type, `void`, a class or an array. -/
def typeDescriptor (n : Nat) : Scanner (TypeTree Unit .typeDescriptor) := do
  if ← eat 'V' then return .descVoid else valueDescriptor .typeDescriptor n

/-- The types of the parameters of a method and of its result. -/
def methodDescriptor (n : Nat) : Scanner (TypeTree Unit .methodDescriptor) := do
  let start ← position
  expect '('
  let ps ← entriesUntil ')' (valueDescriptor .valueType) n
  let t ← typeDescriptor n
  let stop ← position
  check start stop (makeMethodDescriptor ps t)

/-! ## Types -/

/-- A type variable. -/
def typeVariable : Scanner (TypeTree Unit .typeVariable) := do
  expect 'T'
  nameUntilEnd 'T' makeFreeVariable

/-- What stands in front of the name of a class: the letter of the type, or the dot behind the
class around it. -/
def leadOf : TypeTree Unit .enclosing → Char
  | .topLevel => 'L'
  | .nestedIn _ => '.'

mutual

/-- A primitive type, a class, an array or a type variable. -/
def valueSignature (e : Expected) : Nat → Scanner (TypeTree Unit .typeSignature)
  | 0 => stuck
  | n + 1 => do
      match ← primitive with
      | some p => return .sigPrimitive p
      | none =>
          if (← peek) ∈ Grammar.openings then .sigReference <$> referenceType n else wanted e

/-- A class, an array or a type variable. -/
def referenceType : Nat → Scanner (TypeTree Unit .referenceType)
  | 0 => stuck
  | n + 1 => do
      match ← peek with
      | 'L' => .refClass <$> classType n
      | '[' => .refArray <$> arrayType n
      | 'T' => .refVariable <$> typeVariable
      | _ => wanted .referenceType

/-- A class type. -/
def classType : Nat → Scanner (TypeTree Unit .classType)
  | 0 => stuck
  | n + 1 => do
      if ← eat 'L' then segments .topLevel n else wanted .classType

/-- The segments of a class type, up to and including the `;` that ends it. -/
def segments (outer : TypeTree Unit .enclosing) : Nat → Scanner (TypeTree Unit .classType)
  | 0 => stuck
  | n + 1 => do
      let (name, start) ← takeUntil ['<', '.', ';']
      if ← atEnd then wanted (.char ';')
      else
        let as ← optionalArguments n
        let c ← construct ⟨some (leadOf outer), ['<', '.', ';'], start, name⟩
          (makeClassType outer · as)
        if ← eat '.' then segments (.nestedIn c) n
        else
          expect ';'
          return c

/-- The arguments of a segment, if there are any. -/
def optionalArguments : Nat → Scanner (TypeTree Unit (.list .typeArgument))
  | 0 => stuck
  | n + 1 => do
      if (← peek) = '<' then typeArguments n else return .nil

/-- Arguments in brackets. -/
def typeArguments : Nat → Scanner (TypeTree Unit (.list .typeArgument))
  | 0 => stuck
  | n + 1 => do
      expect '<'
      if ← eat '>' then emptyList else moreArguments n

/-- One or more arguments, up to and including the `>` that ends them. -/
def moreArguments : Nat → Scanner (TypeTree Unit (.list .typeArgument))
  | 0 => stuck
  | n + 1 => do
      let a ← typeArgument n
      if ← eat '>' then return .cons a .nil
      else if ← atEnd then wanted (.char '>')
      else .cons a <$> moreArguments n

/-- One type argument. -/
def typeArgument : Nat → Scanner (TypeTree Unit .typeArgument)
  | 0 => stuck
  | n + 1 => do
      let c ← peek
      if c = '*' then
        advance
        return .wildcard
      else
        match Direction.ofCode? c with
        | some d => do
            advance
            let t ← referenceType n
            return .argBounded (.boundedArgument () d t)
        | none =>
            if c ∈ Grammar.openings then .argReference <$> referenceType n
            else wanted .typeArgument

/-- An array: brackets, and what it is an array of. -/
def arrayType : Nat → Scanner (TypeTree Unit .arrayType)
  | 0 => stuck
  | n + 1 => do
      let start ← position
      let d ← dimensions n
      let b ← valueSignature .valueType n
      check start (start + d) (makeArrayType d b)

end

/-- A value type or `void`. -/
def typeSignature (n : Nat) : Scanner (TypeTree Unit .typeSignature) := do
  if ← eat 'V' then return .sigVoid else valueSignature .typeSignature n

/-! ## Declarations -/

/-- The class bound of a type parameter, if it has one. -/
def optionalClassBound (n : Nat) : Scanner (TypeTree Unit .classBound) := do
  if (← peek) ∈ Grammar.openings then .boundedBy <$> referenceType n else return .noClassBound

/-- A type parameter with its bounds. -/
def typeParameter (n : Nat) : Scanner (TypeTree Unit .typeParameter) := do
  let (name, start) ← takeUntil [':', '>']
  if ← eat ':' then
    let c ← optionalClassBound n
    let is ← entriesAfter ':' referenceType n
    construct ⟨none, [':'], start, name⟩ (makeTypeParameter · c is)
  else wanted (.char ':')

/-- Type parameters in brackets. -/
def typeParameters (n : Nat) : Scanner (TypeTree Unit (.list .typeParameter)) := do
  expect '<'
  if ← eat '>' then emptyList
  else
    let p ← typeParameter n
    let ps ← entriesUntil '>' typeParameter n
    return .cons p ps

/-- The type parameters of a declaration, if there are any. -/
def optionalTypeParameters (n : Nat) : Scanner (TypeTree Unit (.list .typeParameter)) := do
  if (← peek) = '<' then typeParameters n else return .nil

/-- What a method throws. -/
def throwsType (n : Nat) : Scanner (TypeTree Unit .throwsType) := do
  match ← peek with
  | 'L' => .throwsClass <$> classType n
  | 'T' => .throwsVariable <$> typeVariable
  | _ => wanted .throwsType

/-- The signature of a method. -/
def methodSignature (n : Nat) : Scanner (TypeTree Unit .methodSignature) := do
  let start ← position
  let ts ← optionalTypeParameters n
  expect '('
  let ps ← entriesUntil ')' (valueSignature .valueType) n
  let t ← typeSignature n
  let es ← entriesAfter '^' throwsType n
  let stop ← position
  check start stop (makeMethodSignature ts ps t es)

/-- The classes that are next. -/
def classTypes : Nat → Scanner (TypeTree Unit (.list .classType))
  | 0 => stuck
  | n + 1 => do
      if (← peek) = 'L' then
        let c ← classType n
        let cs ← classTypes n
        return .cons c cs
      else return .nil

/-- The signature of a class. -/
def classSignature (n : Nat) : Scanner (TypeTree Unit .classSignature) := do
  let ts ← optionalTypeParameters n
  let c ← classType n
  let is ← classTypes n
  return .classSignature () ts c is

/-! ## Productions -/

end Scanner

/-- The productions of the grammar. -/
inductive Production
  | typeDescriptor
  | valueDescriptor (e : Expected)
  | classDescriptor
  | arrayDescriptor
  | methodDescriptor
  | typeSignature
  | valueSignature (e : Expected)
  | referenceType
  | classType
  | typeArguments
  | typeArgument
  | arrayType
  | typeVariable
  | typeParameters
  | typeParameter
  | throwsType
  | methodSignature
  | classSignature
deriving DecidableEq, Repr

namespace Production

/-- The form of the trees that are read. -/
def form : Production → Form
  | typeDescriptor | valueDescriptor _ => .typeDescriptor
  | classDescriptor => .classDescriptor
  | arrayDescriptor => .arrayDescriptor
  | methodDescriptor => .methodDescriptor
  | typeSignature | valueSignature _ => .typeSignature
  | referenceType => .referenceType
  | classType => .classType
  | typeArguments => .list .typeArgument
  | typeArgument => .typeArgument
  | arrayType => .arrayType
  | typeVariable => .typeVariable
  | typeParameters => .list .typeParameter
  | typeParameter => .typeParameter
  | throwsType => .throwsType
  | methodSignature => .methodSignature
  | classSignature => .classSignature

/-- The rule over bytes. -/
def scanner : (p : Production) → Scanner (TypeTree Unit p.form)
  | typeDescriptor => .deeply Scanner.typeDescriptor
  | valueDescriptor e => .deeply (Scanner.valueDescriptor e)
  | classDescriptor => Scanner.classDescriptor
  | arrayDescriptor => .deeply Scanner.arrayDescriptor
  | methodDescriptor => .deeply Scanner.methodDescriptor
  | typeSignature => .deeply Scanner.typeSignature
  | valueSignature e => .deeply (Scanner.valueSignature e)
  | referenceType => .deeply Scanner.referenceType
  | classType => .deeply Scanner.classType
  | typeArguments => .deeply Scanner.typeArguments
  | typeArgument => .deeply Scanner.typeArgument
  | arrayType => .deeply Scanner.arrayType
  | typeVariable => Scanner.typeVariable
  | typeParameters => .deeply Scanner.typeParameters
  | typeParameter => .deeply Scanner.typeParameter
  | throwsType => .deeply Scanner.throwsType
  | methodSignature => .deeply Scanner.methodSignature
  | classSignature => .deeply Scanner.classSignature

end Production

/-- The rule over bytes that a text is read by. -/
def Start.scanner : (k : Start) → Scanner (TypeTree Unit k.form)
  | .typeDescriptor => .deeply Scanner.typeDescriptor
  | .classDescriptor => Scanner.classDescriptor
  | .methodDescriptor => .deeply Scanner.methodDescriptor
  | .typeSignature => .deeply Scanner.typeSignature
  | .referenceType => .deeply Scanner.referenceType
  | .classType => .deeply Scanner.classType
  | .methodSignature => .deeply Scanner.methodSignature
  | .classSignature => .deeply Scanner.classSignature
  | .typeParameter => .deeply Scanner.typeParameter
  | .typeArgument => .deeply Scanner.typeArgument

end ClassfileTypes
