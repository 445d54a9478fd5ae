/-!
# Quoted texts and record texts

How the structure of a value is spelled out: names in double quotes, a record
with its fields, a constructor with its argument, and a list.
-/

namespace ClassfileTypes.Text

/-- A backslash and a double quote are escaped, and so are the four control
characters with a short name. -/
def escape : Char → List Char
  | '\\' => ['\\', '\\']
  | '"' => ['\\', '"']
  | '\x00' => ['\\', '0']
  | '\t' => ['\\', 't']
  | '\n' => ['\\', 'n']
  | '\r' => ['\\', 'r']
  | c => [c]

/-- A text in double quotes. -/
def quote (s : String) : String :=
  "\"" ++ String.ofList (s.toList.flatMap escape) ++ "\""

/-- A constructor's name with its argument. -/
def applied (name arg : String) : String :=
  name ++ "(" ++ arg ++ ")"

/-- A record's name with its fields in order. -/
def record (name : String) (fields : List (String × String)) : String :=
  name ++ " \x7b " ++ ", ".intercalate (fields.map fun (k, v) => k ++ ": " ++ v) ++ " \x7d"

/-- A list, given the text of its entries. -/
def bracketed (entries : String) : String :=
  "[" ++ entries ++ "]"

end ClassfileTypes.Text
