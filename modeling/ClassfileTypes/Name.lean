import ClassfileTypes.Error

/-!
# Names

A name may not hold a character that structures an encoding, or its encoding
would be ambiguous. A class name is a sequence of segments; it may be written
with dots, which become slashes. A simple name is a single segment: a nested
class, a type variable or a type parameter.
-/

namespace ClassfileTypes.Name

/-- The characters that no name may hold. -/
def isDelimiter (c : Char) : Bool :=
  c == ';' || c == '<' || c == '>' || c == '['

/-- The further characters that no simple name may hold. -/
def isSeparator (c : Char) : Bool :=
  c == '/' || c == '.' || c == ':'

/-- Dots become slashes. -/
def slashed (cs : List Char) : List Char :=
  cs.map fun c => if c == '.' then '/' else c

/-- Whether a segment is empty, where `start` says that one begins here. -/
def hasEmptySegment (start : Bool) : List Char → Bool
  | [] => start
  | c :: cs =>
      if c == '/' then start || hasEmptySegment true cs else hasEmptySegment false cs

/-- The normal form of a class name. -/
def classNameOf (name : String) : Except ConstructionError String :=
  let cs := name.toList
  if cs.isEmpty then .error (.invalidName name .empty)
  else if cs.any isDelimiter then .error (.invalidName name .delimiter)
  else if hasEmptySegment true (slashed cs) then .error (.invalidName name .emptySegment)
  else .ok (String.ofList (slashed cs))

/-- A simple name is its own normal form. -/
def simpleNameOf (name : String) : Except ConstructionError String :=
  let cs := name.toList
  if cs.isEmpty then .error (.invalidName name .empty)
  else if cs.any fun c => isDelimiter c || isSeparator c then
    .error (.invalidName name .separator)
  else .ok name

/-- The part after the last slash. -/
def lastSegment (name : String) : String :=
  String.ofList (name.toList.reverse.takeWhile (· != '/')).reverse

/-- The part before the last slash, empty if there is none. -/
def package (name : String) : String :=
  String.ofList ((name.toList.reverse.dropWhile (· != '/')).drop 1).reverse

end ClassfileTypes.Name
