/-!
# Texts as bytes

Offsets into a text count the bytes of its UTF-8 form. This module measures a
list of characters in bytes, cuts one at a byte offset, and reads bytes back
that need not be well formed: each longest prefix of a character's bytes that
cannot be completed is read as one replacement character.
-/

namespace ClassfileTypes.Text

/-- The length of the UTF-8 form. -/
def byteSize : List Char → Nat
  | [] => 0
  | c :: cs => c.utf8Size + byteSize cs

/-- The UTF-8 form. -/
def toBytes (cs : List Char) : List UInt8 :=
  cs.flatMap String.utf8EncodeChar

/-- What is left after the first `n` bytes, if a character starts there or the
text ends there. -/
def dropBytes? : List Char → Nat → Option (List Char)
  | cs, 0 => some cs
  | [], _ + 1 => none
  | c :: cs, n + 1 =>
      if c.utf8Size ≤ n + 1 then dropBytes? cs (n + 1 - c.utf8Size) else none

/-- What the first byte of a character announces: how many bytes follow it, and
between which bounds the first of these lies. -/
structure Lead where
  following : Nat
  least : UInt8
  most : UInt8

/-- The bounds leave out overlong forms, surrogates, and what is beyond the last
code point. -/
def Lead.ofByte? (b : UInt8) : Option Lead :=
  if b < 0x80 then some ⟨0, 0x80, 0xBF⟩
  else if b < 0xC2 then none
  else if b < 0xE0 then some ⟨1, 0x80, 0xBF⟩
  else if b = 0xE0 then some ⟨2, 0xA0, 0xBF⟩
  else if b = 0xED then some ⟨2, 0x80, 0x9F⟩
  else if b < 0xF0 then some ⟨2, 0x80, 0xBF⟩
  else if b = 0xF0 then some ⟨3, 0x90, 0xBF⟩
  else if b < 0xF4 then some ⟨3, 0x80, 0xBF⟩
  else if b = 0xF4 then some ⟨3, 0x80, 0x8F⟩
  else none

/-- How many of the announced bytes are there. -/
def Lead.present (l : Lead) : List UInt8 → Nat
  | [] => 0
  | b :: bs =>
      if 0 < l.following ∧ l.least ≤ b ∧ b ≤ l.most then
        Lead.present ⟨l.following - 1, 0x80, 0xBF⟩ bs + 1
      else 0

/-- The character whose first byte is `b` and whose other bytes are `bs`: the
payload bits in order. -/
def assemble (b : UInt8) (bs : List UInt8) : Char :=
  let payload := if bs.isEmpty then b.toNat else b.toNat % (1 <<< (6 - bs.length))
  Char.ofNat (bs.foldl (fun n c => n * 64 + c.toNat % 64) payload)

/-- The character that stands for bytes that are no character. -/
def replacement : Char := '\uFFFD'

/-- Reads bytes as UTF-8; whatever is ill formed becomes `replacement`. -/
def decodeLossy : List UInt8 → List Char
  | [] => []
  | b :: bs =>
      match Lead.ofByte? b with
      | none => replacement :: decodeLossy bs
      | some l =>
          let n := l.present bs
          let c := if n = l.following then assemble b (bs.take n) else replacement
          c :: decodeLossy (bs.drop n)
termination_by bs => bs.length
decreasing_by all_goals simp only [List.length_cons, List.length_drop]; omega

end ClassfileTypes.Text
