/-!
# Primitive types

The eight primitive types. Each has a one-letter code, a keyword, and the class
that boxes it. They are ordered as `all` lists them.
-/

namespace ClassfileTypes

/-- A primitive type. -/
inductive Primitive
  | char | byte | short | int | long | float | double | boolean
deriving DecidableEq, Repr, Inhabited

namespace Primitive

/-- The primitive types in their order. -/
def all : List Primitive :=
  [char, byte, short, int, long, float, double, boolean]

/-- The letter that encodes the type. -/
def code : Primitive → Char
  | char => 'C'
  | byte => 'B'
  | short => 'S'
  | int => 'I'
  | long => 'J'
  | float => 'F'
  | double => 'D'
  | boolean => 'Z'

/-- The type that a letter encodes. -/
def ofCode? (c : Char) : Option Primitive :=
  all.find? (·.code = c)

/-- The keyword. -/
def keyword : Primitive → String
  | char => "char"
  | byte => "byte"
  | short => "short"
  | int => "int"
  | long => "long"
  | float => "float"
  | double => "double"
  | boolean => "boolean"

/-- The name of the type as an alternative among types. -/
def title : Primitive → String
  | char => "Char"
  | byte => "Byte"
  | short => "Short"
  | int => "Int"
  | long => "Long"
  | float => "Float"
  | double => "Double"
  | boolean => "Boolean"

/-- The binary name of the class that boxes the type. -/
def wrapper : Primitive → String
  | char => "java/lang/Character"
  | byte => "java/lang/Byte"
  | short => "java/lang/Short"
  | int => "java/lang/Integer"
  | long => "java/lang/Long"
  | float => "java/lang/Float"
  | double => "java/lang/Double"
  | boolean => "java/lang/Boolean"

/-- Whether a value takes two local-variable slots. -/
def isWide : Primitive → Bool
  | long | double => true
  | _ => false

/-- The local-variable slots of a value. -/
def slots (p : Primitive) : Nat :=
  if p.isWide then 2 else 1

/-- The place of the type in the order. -/
def ordinal (p : Primitive) : Nat :=
  all.idxOf p

/-- The types that come after `p`. -/
def after (p : Primitive) : List Primitive :=
  all.drop (p.ordinal + 1)

end Primitive

end ClassfileTypes
