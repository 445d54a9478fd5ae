import ClassfileTypes.Grammar.Declaration
import ClassfileTypes.Grammar.Descriptor
import ClassfileTypes.Tree.Encoding

/-!
# Parsing

A text can be read as any of ten forms, from any place in it. When a whole text
is read, a pool may have the tree that the text encodes; then nothing is read.
That is sound for text without `#`, which only the keys of bound variables hold.
-/

namespace ClassfileTypes

/-- What a text can be read as. -/
inductive Start
  | typeDescriptor
  | classDescriptor
  | methodDescriptor
  | typeSignature
  | referenceType
  | classType
  | methodSignature
  | classSignature
  | typeParameter
  | typeArgument
deriving DecidableEq, Repr

namespace Start

/-- The form of the trees that are read. -/
def form : Start → Form
  | typeDescriptor => .typeDescriptor
  | classDescriptor => .classDescriptor
  | methodDescriptor => .methodDescriptor
  | typeSignature => .typeSignature
  | referenceType => .referenceType
  | classType => .classType
  | methodSignature => .methodSignature
  | classSignature => .classSignature
  | typeParameter => .typeParameter
  | typeArgument => .typeArgument

/-- All of them. -/
def all : List Start :=
  [typeDescriptor, classDescriptor, methodDescriptor, typeSignature, referenceType, classType,
    methodSignature, classSignature, typeParameter, typeArgument]

end Start

section

variable {ι : Type} {m : Type → Type} [Monad m] [MonadPool ι m]

namespace Grammar

/-- The rule that a text is read by. -/
def rule : (k : Start) → (s : List Char) → Reading m (TypeTree ι k.form) s.length
  | .typeDescriptor, s => typeDescriptor s
  | .classDescriptor, s => classDescriptor s
  | .methodDescriptor, s => methodDescriptor s
  | .typeSignature, s => typeSignature s
  | .referenceType, s => reference s
  | .classType, s => classType s
  | .methodSignature, s => methodSignature s
  | .classSignature, s => classSignature s
  | .typeParameter, s => typeParameter s
  | .typeArgument, s => argument s

end Grammar

/-- The class type with the given encoding, if the pool has it. -/
def lookUpClass (text : String) : m (Option (TypeTree ι .classType)) :=
  if text.toList.head? = some 'L' then MonadPool.find? .classType text else pure none

/-- The tree that a whole text encodes, if the pool has it. Forms that are not
looked up are always read. -/
def lookUp : (k : Start) → String → m (Option (TypeTree ι k.form))
  | .typeDescriptor, text =>
      if text.toList.head? = some 'L' then
        (·.map .descClass) <$> MonadPool.find? .classDescriptor text
      else pure none
  | .classDescriptor, text => MonadPool.find? .classDescriptor text
  | .methodDescriptor, text => MonadPool.find? .methodDescriptor text
  | .typeSignature, text => (·.map (.sigReference ∘ .refClass)) <$> lookUpClass text
  | .referenceType, text => (·.map .refClass) <$> lookUpClass text
  | .classType, text => lookUpClass text
  | .methodSignature, text => MonadPool.find? .methodSignature text
  | .classSignature, _ | .typeParameter, _ | .typeArgument, _ => pure none

/-- Reads a tree from the byte offset `start`, by the rules alone: the tree and
the offset after it. -/
def readAt (k : Start) (text : String) (start : Nat) :
    ExceptT ParseError m (TypeTree ι k.form × Nat) :=
  let size := Text.byteSize text.toList
  match Text.dropBytes? text.toList start with
  | none => throw (.quoting text .invalidOffset (min start size) Fault.quotation)
  | some s => do
      let r ← ExceptT.adapt (ParseError.ofFault text) (Grammar.rule k s)
      pure (r.value, size - Text.byteSize r.rest)

/-- Whether a text may be looked up. -/
def isPooled (text : String) : Bool :=
  1 < Text.byteSize text.toList && !text.toList.contains '#'

/-- Reads a tree from the byte offset `start`, or finds it in the pool: the tree
and the offset after it. -/
def parseAt (k : Start) (text : String) (start : Nat) :
    ExceptT ParseError m (TypeTree ι k.form × Nat) := do
  let found ← if start = 0 && isPooled text then (lookUp k text : m _) else pure none
  match found with
  | some t => pure (t, Text.byteSize text.toList)
  | none => readAt k text start

/-- Reads a whole text. -/
def parse (k : Start) (text : String) : ExceptT ParseError m (TypeTree ι k.form) := do
  let (t, stop) ← parseAt k text 0
  if stop = Text.byteSize text.toList then pure t
  else throw (.quoting text (.expected .endOfInput) stop Fault.quotation)

end

/-! ## Plain trees -/

/-- Reads a plain tree from a whole text. -/
def parsePlain (k : Start) (text : String) : Except ParseError (TypeTree Unit k.form) :=
  (parse k text : ExceptT ParseError Id _).run

/-- Reads a plain tree from the byte offset `start`. -/
def parsePlainAt (k : Start) (text : String) (start : Nat) :
    Except ParseError (TypeTree Unit k.form × Nat) :=
  (parseAt k text start : ExceptT ParseError Id _).run

/-- Reads plain trees one after the other from the byte offset `start`, up to the
end of the text or the first error: each tree with the offsets where it begins
and where it ends, and the error. -/
def scan (k : Start) (text : String) (start : Nat) :
    List (Nat × Nat × TypeTree Unit k.form) × Option ParseError :=
  match parsePlainAt k text start with
  | .error e => ([], some e)
  | .ok (t, stop) =>
      if start < stop ∧ stop < Text.byteSize text.toList then
        let (items, error) := scan k text stop
        ((start, stop, t) :: items, error)
      else ([(start, stop, t)], none)
termination_by Text.byteSize text.toList - start

/-- For each text the place of the first one that encodes the same tree, if it
encodes one. -/
def firstEqual (k : Start) (texts : List String) : List (Option Nat) :=
  let trees := texts.map fun text => (parsePlain k text).toOption
  trees.map fun t => t.map fun t => trees.idxOf (some t)

end ClassfileTypes
