import ClassfileTypes.Error
import ClassfileTypes.Text.Utf8

/-!
# What can be wrong with a text

A fault is found while a text is read and says where: by what is left of the
text there. A parse error is the same seen from the whole text, with the byte
offset of the fault and a quotation of what stands there.
-/

namespace ClassfileTypes

/-- What the text should have continued with. -/
inductive Expected
  | char (c : Char)
  | typeDescriptor
  /-- A type other than `void`. -/
  | valueType
  | typeSignature
  | referenceType
  | classType
  | throwsType
  | typeArgument
  | endOfInput
deriving DecidableEq, Repr

/-- What was expected, in words. -/
def Expected.message : Expected → String
  | .char c => "`" ++ String.singleton c ++ "`"
  | .typeDescriptor => "a type descriptor"
  | .valueType => "a non-void type"
  | .typeSignature => "a type signature"
  | .referenceType => "a class, array or type variable"
  | .classType => "a class type"
  | .throwsType => "a class type or type variable"
  | .typeArgument => "a type argument"
  | .endOfInput => "end of input"

/-- What is wrong. -/
inductive FaultKind
  | expected (e : Expected)
  /-- Angle brackets with nothing between them. -/
  | emptyList
  /-- The text is well formed, but the tree that it describes is refused. -/
  | invalid (e : TypeError)
  /-- The place to start from is not the beginning of a character. -/
  | invalidOffset
deriving DecidableEq, Repr

namespace FaultKind

/-- The fault in words. -/
def message : FaultKind → String
  | .expected e => "expected " ++ e.message
  | .emptyList => "empty `<>` list"
  | .invalid e => e.message
  | .invalidOffset => "start offset is not inside the text"

/-- The causes behind the fault in words: a refusal is one, together with its own. -/
def sources : FaultKind → List String
  | .invalid e => e.message :: e.sources
  | _ => []

end FaultKind

/-- Something wrong in a text, what is left of the text there, and how many bytes
of it show the fault. -/
structure Fault where
  kind : FaultKind
  rest : List Char
  extent : Nat
deriving DecidableEq, Repr

namespace Fault

/-- How many bytes are quoted where a fault has no extent of its own. -/
def quotation : Nat := 32

/-- Another continuation was expected. -/
def expected (e : Expected) (rest : List Char) : Fault :=
  ⟨.expected e, rest, quotation⟩

/-- There is nothing between the angle brackets that `rest` begins with. -/
def emptyList (rest : List Char) : Fault :=
  ⟨.emptyList, rest, 2⟩

/-- The tree that was read is refused for the first `extent` bytes of `rest`. -/
def invalid (rest : List Char) (extent : Nat) (e : TypeError) : Fault :=
  ⟨.invalid e, rest, extent⟩

end Fault

/-- Something wrong in `text`. -/
structure ParseError where
  kind : FaultKind
  /-- The byte offset of the fault. -/
  offset : Nat
  /-- What stands there; empty at the end of the text. -/
  found : String
  text : String
deriving DecidableEq, Repr

namespace ParseError

/-- The error that quotes at most `extent` of the bytes of `text` from `offset`. -/
def quoting (text : String) (kind : FaultKind) (offset extent : Nat) : ParseError where
  kind := kind
  offset := offset
  found := String.ofList
    (Text.decodeLossy (((Text.toBytes text.toList).drop offset).take extent))
  text := text

/-- A fault seen from the whole text. -/
def ofFault (text : String) (fault : Fault) : ParseError :=
  quoting text fault.kind (Text.byteSize text.toList - Text.byteSize fault.rest) fault.extent

/-- The error in words: what is wrong, where, and what stands there. -/
def message (e : ParseError) : String :=
  e.kind.message ++ " at offset " ++ toString e.offset ++ " in `" ++ e.text ++ "`" ++
    if e.found.isEmpty then "" else " (found `" ++ e.found ++ "`)"

/-- The causes behind the error in words. -/
def sources (e : ParseError) : List String :=
  e.kind.sources

end ParseError

end ClassfileTypes
