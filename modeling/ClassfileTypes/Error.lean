/-!
# Errors of construction, erasure and binding

Why a type is refused. Every cause has its own constructor, and the wording is
in `message`; `sources` gives the texts of the causes behind an error, nearest
first.
-/

namespace ClassfileTypes

/-- What is wrong with a name. -/
inductive NameFault
  /-- The name has no characters. -/
  | empty
  /-- A class name holds a character that structures an encoding. -/
  | delimiter
  /-- A simple name holds a character that structures an encoding or a name. -/
  | separator
  /-- Two separators of a class name meet, or one stands at an end. -/
  | emptySegment
deriving DecidableEq, Repr

/-- The fault in words. -/
def NameFault.message : NameFault → String
  | .empty => "empty"
  | .delimiter => "contains one of `; < > [`"
  | .separator => "contains one of `; < > [ / . :`"
  | .emptySegment => "has an empty package segment"

/-- A place where `void` may not stand. -/
inductive ValuePlace
  | arrayElement
  | methodParameter
deriving DecidableEq, Repr

/-- The place in words. -/
def ValuePlace.message : ValuePlace → String
  | .arrayElement => "an array element"
  | .methodParameter => "a method parameter"

/-- Why a type cannot be built from its parts. -/
inductive ConstructionError
  /-- A type parameter has neither a class bound nor an interface bound. -/
  | emptyBounds (parameter : String)
  | invalidName (name : String) (fault : NameFault)
  | invalidDimension (dimension : Nat)
  | voidNotAllowed (place : ValuePlace)
deriving DecidableEq, Repr

/-- The cause in words. -/
def ConstructionError.message : ConstructionError → String
  | .emptyBounds p => "type parameter `" ++ p ++ "` has no bounds"
  | .invalidName n fault => "invalid name `" ++ n ++ "`: " ++ fault.message
  | .invalidDimension d => "array dimension " ++ toString d ++ " is outside 1..=255"
  | .voidNotAllowed place => "void is not allowed as " ++ place.message

/-- Why a type cannot be built, erased or bound. -/
inductive TypeError
  | construction (cause : ConstructionError)
  /-- A type variable has no declaration in scope. -/
  | unresolved (name : String)
deriving DecidableEq, Repr

namespace TypeError

/-- The error in words. -/
def message : TypeError → String
  | .construction cause => "invalid construction: " ++ cause.message
  | .unresolved x => "unresolved type variable `" ++ x ++ "`"

/-- The causes behind the error in words. -/
def sources : TypeError → List String
  | .construction cause => [cause.message]
  | .unresolved _ => []

end TypeError

end ClassfileTypes
