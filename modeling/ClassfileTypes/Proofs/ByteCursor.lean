import ClassfileTypes.Grammar.Parse

/-!
# A cursor over bytes

The rules of the grammar read characters. A text can also be read byte by byte, with a cursor
that knows nothing of characters: it has a position and a mark, both of them byte offsets, and
it looks at single bytes. What is cut out of the text at these offsets is a text again only if
both are between characters.

A computation with a cursor keeps a record of what it does: of the places where the cursor has
been, of the pieces that were cut out, and of the names that trees were made with.
-/

namespace ClassfileTypes

namespace Text

/-- Whether a byte offset is between characters, or at one of the ends. -/
def IsBoundary (cs : List Char) (n : Nat) : Prop :=
  (dropBytes? cs n).isSome

instance (cs : List Char) (n : Nat) : Decidable (IsBoundary cs n) :=
  inferInstanceAs (Decidable ((dropBytes? cs n).isSome))

/-- The text between two byte offsets, if both are between characters and in order. -/
def slice? (cs : List Char) (i j : Nat) : Option (List Char) :=
  if i ≤ j then
    match dropBytes? cs i, dropBytes? cs j with
    | some s, some r => some (s.take (s.length - r.length))
    | _, _ => none
  else none

end Text

/-! ## The cursor -/

/-- A position in a text and a mark, in bytes. -/
structure Cursor where
  text : String
  pos : Nat
  mark : Nat
deriving DecidableEq, Repr

namespace Cursor

/-- The bytes of the text. -/
def bytes (c : Cursor) : List UInt8 :=
  Text.toBytes c.text.toList

/-- Whether nothing is left. -/
def isEnd (c : Cursor) : Bool :=
  c.bytes.length ≤ c.pos

/-- The byte at the position, or 0 at the end. -/
def current (c : Cursor) : UInt8 :=
  c.bytes[c.pos]?.getD 0

/-- The text from the mark to the position. There is none if these are not between characters,
and then it is empty. -/
def marked (c : Cursor) : String :=
  (Text.slice? c.text.toList c.mark c.pos).elim "" .ofList

/-- One byte further. -/
def next (c : Cursor) : Cursor :=
  { c with pos := c.pos + 1 }

/-- The mark at the position. -/
def atMark (c : Cursor) : Cursor :=
  { c with mark := c.pos }

/-- How deep calls may be nested: four levels for each byte that is left, and four. -/
def depth (c : Cursor) : Nat :=
  4 * (c.bytes.length - c.pos) + 4

/-- Before the first byte that is one of the stops, or at the end. -/
def untilStop (stops : List Char) (c : Cursor) : Cursor :=
  { c with pos := c.pos + (c.bytes.drop c.pos).findIdx (stops.contains <| .ofUInt8 ·) }

end Cursor

/-! ## Records -/

/-- What was cut out of a text up to a stop. -/
structure Piece where
  stops : List Char
  start : Nat
  stop : Nat
  content : String
deriving DecidableEq, Repr

/-- A name that a tree was made with, and the characters that it should stand between: the one
in front of it, if it has to be a certain one, and those that may follow. -/
structure Named where
  opening : Option Char
  closing : List Char
  start : Nat
  name : String
deriving DecidableEq, Repr

/-- A cursor and what has been done with it. -/
structure Journey where
  cursor : Cursor
  past : List Cursor := []
  pieces : List Piece := []
  names : List Named := []
deriving DecidableEq, Repr

namespace Journey

/-- Everywhere where the cursor has been. -/
def places (j : Journey) : List Cursor :=
  j.cursor :: j.past

/-- Moves the cursor. -/
def move (g : Cursor → Cursor) (j : Journey) : Journey :=
  { j with cursor := g j.cursor, past := j.places }

/-- Records what is cut out. -/
def cut (p : Piece) (j : Journey) : Journey :=
  { j with pieces := p :: j.pieces }

/-- Records a name that a tree is made with. -/
def name (n : Named) (j : Journey) : Journey :=
  { j with names := n :: j.names }

/-- Begins at a byte offset, if it is between characters. -/
def start? (text : String) (start : Nat) : Except ParseError Journey :=
  if Text.IsBoundary text.toList start then .ok { cursor := ⟨text, start, start⟩ }
  else .error (.quoting text .invalidOffset (min start (Text.byteSize text.toList)) Fault.quotation)

end Journey

/-! ## Computations -/

/-- A computation with a cursor. It fails with an error, or it has no outcome at all. -/
abbrev Scanner (α : Type) : Type :=
  ExceptT ParseError (StateT Journey Option) α

namespace Scanner

variable {α : Type}

/-- No outcome. -/
def stuck : Scanner α :=
  ExceptT.mk failure

/-- Allows as many nested calls as what is left of the text can need. -/
def deeply (x : Nat → Scanner α) : Scanner α := do
  let j ← get
  x j.cursor.depth

def cursor : Scanner Cursor :=
  Journey.cursor <$> get

def position : Scanner Nat :=
  Cursor.pos <$> cursor

def atEnd : Scanner Bool :=
  Cursor.isEnd <$> cursor

/-- The byte at the position as a character. -/
def peek : Scanner Char :=
  (fun c => Char.ofUInt8 c.current) <$> cursor

/-- One byte further, if there is one. -/
def advance : Scanner Unit :=
  modify fun j => if j.cursor.isEnd then j else j.move .next

/-- One byte further if it is this one. -/
def eat (b : Char) : Scanner Bool := do
  let c ← cursor
  if !c.isEnd && Char.ofUInt8 c.current == b then do
    modify (Journey.move .next)
    return true
  else return false

/-- Cuts out the text up to one of the stops or the end: the text and where it begins. -/
def takeUntil (stops : List Char) : Scanner (String × Nat) := do
  modify (Journey.move .atMark)
  modify (Journey.move (.untilStop stops))
  let c ← cursor
  modify (Journey.cut ⟨stops, c.mark, c.pos, c.marked⟩)
  return (c.marked, c.mark)

/-! ## Errors -/

/-- Gives up with an error that quotes the text. -/
def fail (kind : FaultKind) (offset extent : Nat) : Scanner α := do
  let c ← cursor
  throw (.quoting c.text kind offset extent)

/-- Gives up where the cursor is: the text should continue otherwise. -/
def wanted (e : Expected) : Scanner α := do
  let pos ← position
  fail (.expected e) pos Fault.quotation

/-- One byte further, which has to be this one. -/
def expect (b : Char) : Scanner Unit := do
  if ← eat b then return () else wanted (.char b)

/-- Gives up for the two brackets before the cursor. -/
def emptyList : Scanner α := do
  let pos ← position
  fail .emptyList (pos - 2) 2

/-- A construction whose refusal is an error from `start` to `stop`. -/
def check (start stop : Nat) (x : ExceptT TypeError Id α) : Scanner α :=
  match x.run with
  | .ok a => return a
  | .error e => fail (.invalid e) start (stop - start)

/-- A construction with a name. -/
def construct (n : Named) (make : String → ExceptT TypeError Id α) : Scanner α := do
  modify (Journey.name n)
  check n.start (n.start + Text.byteSize n.name.toList) (make n.name)

/-! ## Letters -/

/-- A primitive type, if its code is next. -/
def primitive : Scanner (Option Primitive) := do
  if ← atEnd then return none
  else
    match Primitive.ofCode? (← peek) with
    | none => return none
    | some p => do
        advance
        return some p

/-- The number of brackets that are next. -/
def dimensions : Nat → Scanner Nat
  | 0 => stuck
  | n + 1 => do
      if ← eat '[' then return (← dimensions n) + 1 else return 0

end Scanner

end ClassfileTypes
