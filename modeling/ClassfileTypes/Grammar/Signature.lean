import ClassfileTypes.Grammar.Reading
import ClassfileTypes.Tree.Construct

/-!
# The grammar of signatures

```
type      = "V" | value
value     = code | reference
reference = class | array | variable
class     = "L" segment { "." segment } ";"
segment   = name [ "<" argument { argument } ">" ]
argument  = "*" | ( "+" | "-" ) reference | reference
array     = "[" { "[" } value
variable  = "T" name ";"
```

The rules call each other, so their measure is the length of the text and, within
one length, a rank.
-/

namespace ClassfileTypes.Grammar

open TypeTree

variable {ι : Type} {m : Type → Type} [Monad m] [MonadPool ι m]

/-- The rest of a type variable, after its first letter. -/
def variableName (s : List Char) : Reading m (TypeTree ι .typeVariable) s.length :=
  nameUntilEnd makeFreeVariable s

mutual

/-- A primitive type, a class, an array or a type variable. -/
def value (e : Expected) (s : List Char) : Reading m (TypeTree ι .typeSignature) s.length :=
  match s with
  | [] => wanted e []
  | c :: r =>
      match Primitive.ofCode? c with
      | some p => pure (.leaving (.sigPrimitive p) r)
      | none =>
          if c = 'L' ∨ c = '[' ∨ c = 'T' then do
            let t ← reference (c :: r)
            pure (t.map .sigReference)
          else wanted e (c :: r)
termination_by (s.length, 2)

/-- A class, an array or a type variable. -/
def reference (s : List Char) : Reading m (TypeTree ι .referenceType) s.length :=
  match s with
  | 'L' :: r => do
      let c ← segments .topLevel r
      pure (c.map .refClass).after
  | '[' :: r => do
      have le := length_sinceDimensions_le r
      let ⟨b, rest, h⟩ ← value .valueType (sinceDimensions r)
      let a ← build ('[' :: r) (dimensions r + 1) (makeArrayType (dimensions r + 1) b)
      pure ⟨.refArray a, rest, by rw [List.length_cons]; omega⟩
  | 'T' :: r => do
      let v ← variableName r
      pure (v.map .refVariable).after
  | s => wanted .referenceType s
termination_by (s.length, 1)

/-- The segments of a class type, up to and including the `;` that ends it. -/
def segments (outer : TypeTree ι .enclosing) (s : List Char) :
    Reading m (TypeTree ι .classType) s.length :=
  let name := before ['<', '.', ';'] s
  let r := since ['<', '.', ';'] s
  have le : r.length ≤ s.length := length_since_le _ s
  if r.isEmpty then wanted (.char ';') r
  else do
    let as ← holding outer (optionalArguments r)
    let c ← build s (Text.byteSize name) (makeClassType outer (String.ofList name) as.value)
    have lt := as.shorter
    match h : as.rest with
    | '.' :: r₂ => do
        have lt : r₂.length < r.length := by rw [h, List.length_cons] at lt; omega
        let ⟨c, r₃, h₃⟩ ← segments (.nestedIn c) r₂
        pure ⟨c, r₃, by omega⟩
    | ';' :: r₂ => pure ⟨c, r₂, by rw [h, List.length_cons] at lt; omega⟩
    | r₂ => wanted (.char ';') r₂
termination_by (s.length, 1)
decreasing_by
  · exact Prod.Lex.right' _ (length_since_le _ s) (by omega)
  · exact Prod.Lex.left _ _ (Nat.lt_of_lt_of_le lt (length_since_le _ s))

/-- The arguments of a segment, if the text goes on with any. -/
def optionalArguments (s : List Char) :
    Reading m (TypeTree ι (.list .typeArgument)) (s.length + 1) :=
  match s with
  | '<' :: '>' :: r => throw (Fault.emptyList ('<' :: '>' :: r))
  | '<' :: r => do
      let as ← arguments r
      pure as.after.after
  | s => pure (.leaving .nil s)
termination_by (s.length, 0)

/-- One or more arguments, up to and including the `>` that ends them. -/
def arguments (s : List Char) : Reading m (TypeTree ι (.list .typeArgument)) s.length := do
  let a ← argument s
  have lt := a.shorter
  match h : a.rest with
  | [] => wanted (.char '>') []
  | '>' :: r => pure ⟨.cons a.value .nil, r, by rw [h, List.length_cons] at lt; omega⟩
  | c :: r => do
      let as ← holding a.value (arguments (c :: r))
      pure ⟨.cons a.value as.value, as.rest, by rw [h] at lt; have := as.shorter; omega⟩
termination_by (s.length, 3)
decreasing_by
  · exact Prod.Lex.right _ (by omega)
  · exact Prod.Lex.left _ _ (by rw [h] at lt; exact lt)

/-- One type argument. -/
def argument (s : List Char) : Reading m (TypeTree ι .typeArgument) s.length :=
  match s with
  | [] => wanted .typeArgument []
  | '*' :: r => pure (.leaving .wildcard r)
  | c :: r =>
      match Direction.ofCode? c with
      | some d => do
          let t ← reference r
          let b ← intern (.boundedArgument · d t.value)
          pure (t.map fun _ => .argBounded b).after
      | none =>
          if c = 'L' ∨ c = '[' ∨ c = 'T' then do
            let t ← reference (c :: r)
            pure (t.map .argReference)
          else wanted .typeArgument (c :: r)
termination_by (s.length, 2)

end

end ClassfileTypes.Grammar
