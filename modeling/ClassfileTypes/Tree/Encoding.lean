import ClassfileTypes.Tree.Basic

/-!
# Encodings

Every tree has two compact texts. The internal one is what class files hold.
The key is the same except that a bound variable spells out its declaration, so
that it tells trees apart that the internal text does not.

A class type's own text is left open, since what follows decides how it ends:
with `;`, or with `.` when another class is nested in it.
-/

namespace ClassfileTypes

/-- Which of the two texts. -/
inductive Spelling
  | internal
  | key
deriving DecidableEq, Repr

namespace Form

/-- What stands before each entry of a list. -/
def opening : Form → List Char
  | throwsType => ['^']
  | referenceType => [':']
  | _ => []

/-- What ends a tree that has nothing nested in it. -/
def closing : Form → List Char
  | classType => [';']
  | _ => []

end Form

namespace TypeTree

variable {ι : Type}

/-- Writes a list of arguments or type parameters between angle brackets, and
nothing for the empty list. -/
def angled (isNil : Bool) (write : List Char → List Char) (rest : List Char) : List Char :=
  if isNil then rest else '<' :: write ('>' :: rest)

/-- Writes the tree in front of `rest`. -/
def write (s : Spelling) : {f : Form} → TypeTree ι f → List Char → List Char
  | _, .primitive p, rest | _, .descPrimitive p, rest | _, .sigPrimitive p, rest =>
      p.code :: rest
  | _, .descVoid, rest | _, .sigVoid, rest => 'V' :: rest
  | _, .descClass c, rest => c.write s rest
  | _, .descArray a, rest => a.write s rest
  | _, .classDescriptor _ n, rest => 'L' :: (n.toList ++ ';' :: rest)
  | _, .arrayDescriptor _ d b, rest => List.replicate d '[' ++ b.write s rest
  | _, .methodDescriptor _ ps r, rest => '(' :: ps.write s (')' :: r.write s rest)
  | _, .sigReference r, rest => r.write s rest
  | _, .refClass c, rest => c.write s (';' :: rest)
  | _, .refArray a, rest => a.write s rest
  | _, .refVariable v, rest => v.write s rest
  | _, .throwsClass c, rest => c.write s (';' :: rest)
  | _, .throwsVariable v, rest => v.write s rest
  | _, .classType _ o n as, rest => o.write s (n.toList ++ angled as.isNil (as.write s) rest)
  | _, .topLevel, rest => 'L' :: rest
  | _, .nestedIn c, rest => c.write s ('.' :: rest)
  | _, .arrayType _ d b, rest => List.replicate d '[' ++ b.write s rest
  | _, .boundVariable _ d, rest =>
      match s with
      | .internal => 'T' :: (d.name.toList ++ ';' :: rest)
      | .key => '#' :: d.write s (';' :: rest)
  | _, .freeVariable _ n, rest => 'T' :: (n.toList ++ ';' :: rest)
  | _, .typeParameter _ n c is, rest => n.toList ++ ':' :: c.write s (is.write s rest)
  | _, .noClassBound, rest => rest
  | _, .boundedBy r, rest => r.write s rest
  | _, .wildcard, rest => '*' :: rest
  | _, .argReference r, rest => r.write s rest
  | _, .argBounded b, rest => b.write s rest
  | _, .boundedArgument _ d r, rest => d.code :: r.write s rest
  | _, .methodSignature _ ts ps r es, rest =>
      angled ts.isNil (ts.write s) ('(' :: ps.write s (')' :: r.write s (es.write s rest)))
  | _, .classSignature _ ts c is, rest =>
      angled ts.isNil (ts.write s) (c.write s (';' :: is.write s rest))
  | _, .nil, rest => rest
  | _, .cons (f := f) x xs, rest => f.opening ++ x.write s (f.closing ++ xs.write s rest)

/-- The text of the tree. -/
def text {f : Form} (s : Spelling) (t : TypeTree ι f) : List Char :=
  t.write s f.closing

/-- The encoding that class files hold. -/
def internal {f : Form} (t : TypeTree ι f) : String :=
  String.ofList (t.text .internal)

/-- The text that stands for the tree in a pool. -/
def key {f : Form} (t : TypeTree ι f) : String :=
  String.ofList (t.text .key)

end TypeTree

end ClassfileTypes
