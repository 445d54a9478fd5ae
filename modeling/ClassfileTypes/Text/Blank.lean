/-!
# Blank characters

The characters with the Unicode property White_Space, and the removal of them
from both ends of a text. Lower case is taken over ASCII letters only.
-/

namespace ClassfileTypes.Text

/-- The Unicode property White_Space. -/
def isBlank (c : Char) : Bool :=
  let n := c.toNat
  (0x09 ≤ n && n ≤ 0x0D) || n == 0x20 || n == 0x85 || n == 0xA0 || n == 0x1680 ||
    (0x2000 ≤ n && n ≤ 0x200A) || n == 0x2028 || n == 0x2029 || n == 0x202F ||
    n == 0x205F || n == 0x3000

/-- Without the blanks at both ends. -/
def trim (cs : List Char) : List Char :=
  ((cs.dropWhile isBlank).reverse.dropWhile isBlank).reverse

/-- A word as it is compared: no blanks around it, ASCII letters in lower case. -/
def fold (s : String) : String :=
  String.ofList ((trim s.toList).map Char.toLower)

end ClassfileTypes.Text
