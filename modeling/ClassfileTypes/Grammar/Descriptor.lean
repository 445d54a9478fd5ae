import ClassfileTypes.Grammar.Reading
import ClassfileTypes.Tree.Construct

/-!
# The grammar of descriptors

```
type   = "V" | value
value  = code | class | array
class  = "L" name ";"
array  = "[" { "[" } value
method = "(" { value } ")" type
```
-/

namespace ClassfileTypes.Grammar

open TypeTree

variable {ι : Type} {m : Type → Type} [Monad m] [MonadPool ι m]

/-- The rest of a class descriptor, after its first letter. -/
def classDescriptorName (s : List Char) : Reading m (TypeTree ι .classDescriptor) s.length :=
  nameUntilEnd makeClassDescriptor s

/-- A class. -/
def classDescriptor (s : List Char) : Reading m (TypeTree ι .classDescriptor) s.length :=
  match s with
  | 'L' :: r => do
      let c ← classDescriptorName r
      pure c.after
  | s => wanted .classType s

/-- A primitive type, a class or an array. -/
def valueDescriptor (e : Expected) (s : List Char) :
    Reading m (TypeTree ι .typeDescriptor) s.length :=
  match s with
  | [] => wanted e []
  | 'L' :: r => do
      let c ← classDescriptorName r
      pure (c.map .descClass).after
  | '[' :: r => do
      let ⟨b, rest, h⟩ ← valueDescriptor .valueType (sinceDimensions r)
      let a ← build ('[' :: r) (dimensions r + 1) (makeArrayDescriptor (dimensions r + 1) b)
      pure ⟨.descArray a, rest, by have := length_sinceDimensions_le r; rw [List.length_cons]; omega⟩
  | c :: r =>
      match Primitive.ofCode? c with
      | some p => pure (.leaving (.descPrimitive p) r)
      | none => wanted e (c :: r)
termination_by s.length
decreasing_by have := length_sinceDimensions_le r; rw [List.length_cons]; omega

/-- A primitive type, `void`, a class or an array. -/
def typeDescriptor (s : List Char) : Reading m (TypeTree ι .typeDescriptor) s.length :=
  match s with
  | 'V' :: r => pure (.leaving .descVoid r)
  | s => valueDescriptor .typeDescriptor s

/-- The types of the parameters of a method and of its result. -/
def methodDescriptor (s : List Char) : Reading m (TypeTree ι .methodDescriptor) s.length :=
  match s with
  | '(' :: r => do
      let ⟨ps, r₁, h₁⟩ ← entriesUntil ')' (valueDescriptor .valueType) r
      let ⟨t, r₂, h₂⟩ ← holding ps (typeDescriptor r₁)
      let d ← build ('(' :: r) (Text.byteSize ('(' :: r) - Text.byteSize r₂)
        (makeMethodDescriptor ps t)
      pure ⟨d, r₂, by rw [List.length_cons]; omega⟩
  | s => wanted (.char '(') s

end ClassfileTypes.Grammar
