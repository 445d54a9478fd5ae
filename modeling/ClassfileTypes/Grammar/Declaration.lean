import ClassfileTypes.Grammar.Signature

/-!
# The grammar of declarations

```
parameter  = name ":" [ reference ] { ":" reference }
parameters = "<" parameter { parameter } ">"
throws     = class | variable
method     = [ parameters ] "(" { value } ")" type { "^" throws }
header     = [ parameters ] class { class }
```
-/

namespace ClassfileTypes.Grammar

open TypeTree

variable {ι : Type} {m : Type → Type} [Monad m] [MonadPool ι m]

/-- A class type. -/
def classType (s : List Char) : Reading m (TypeTree ι .classType) s.length :=
  match s with
  | 'L' :: r => do
      let c ← segments .topLevel r
      pure c.after
  | s => wanted .classType s

/-- A value type or `void`. -/
def typeSignature (s : List Char) : Reading m (TypeTree ι .typeSignature) s.length :=
  match s with
  | 'V' :: r => pure (.leaving .sigVoid r)
  | s => value .typeSignature s

/-! ## Type parameters -/

/-- The interface bounds that the text begins with. -/
def interfaceBounds (s : List Char) :
    Reading m (TypeTree ι (.list .referenceType)) (s.length + 1) :=
  match s with
  | ':' :: r => do
      let ⟨t, r₁, h₁⟩ ← reference r
      let ⟨ts, r₂, h₂⟩ ← holding t (interfaceBounds r₁)
      pure ⟨.cons t ts, r₂, by rw [List.length_cons]; omega⟩
  | s => pure (.leaving .nil s)
termination_by s.length

/-- The class bound, if the text begins with one. -/
def optionalClassBound (s : List Char) : Reading m (TypeTree ι .classBound) (s.length + 1) :=
  match s with
  | [] => pure (.leaving .noClassBound [])
  | c :: r =>
      if c = 'L' ∨ c = '[' ∨ c = 'T' then do
        let t ← reference (c :: r)
        pure (t.map .boundedBy).after
      else pure (.leaving .noClassBound (c :: r))

/-- A type parameter with its bounds. -/
def typeParameter (s : List Char) : Reading m (TypeTree ι .typeParameter) s.length :=
  let name := before [':', '>'] s
  match h : since [':', '>'] s with
  | ':' :: r => do
      let ⟨c, r₁, h₁⟩ ← optionalClassBound r
      let ⟨is, r₂, h₂⟩ ← holding c (interfaceBounds r₁)
      let p ← build s (Text.byteSize name) (makeTypeParameter (String.ofList name) c is)
      pure ⟨p, r₂, by have := length_lt_of_since h; omega⟩
  | r => wanted (.char ':') r

/-- The type parameters of a declaration, if the text begins with any. -/
def optionalTypeParameters (s : List Char) :
    Reading m (TypeTree ι (.list .typeParameter)) (s.length + 1) :=
  match s with
  | '<' :: '>' :: r => throw (Fault.emptyList ('<' :: '>' :: r))
  | '<' :: r => do
      let ps ← someEntriesUntil '>' typeParameter r
      pure ps.after.after
  | s => pure (.leaving .nil s)

/-! ## Methods -/

/-- What a method throws. -/
def throwsType (s : List Char) : Reading m (TypeTree ι .throwsType) s.length :=
  match s with
  | 'L' :: r => do
      let c ← segments .topLevel r
      pure (c.map .throwsClass).after
  | 'T' :: r => do
      let v ← variableName r
      pure (v.map .throwsVariable).after
  | s => wanted .throwsType s

/-- The throws clauses that the text begins with. -/
def throwsTypes (s : List Char) : Reading m (TypeTree ι (.list .throwsType)) (s.length + 1) :=
  match s with
  | '^' :: r => do
      let ⟨t, r₁, h₁⟩ ← throwsType r
      let ⟨ts, r₂, h₂⟩ ← holding t (throwsTypes r₁)
      pure ⟨.cons t ts, r₂, by rw [List.length_cons]; omega⟩
  | s => pure (.leaving .nil s)
termination_by s.length

/-- The signature of a method. -/
def methodSignature (s : List Char) : Reading m (TypeTree ι .methodSignature) s.length := do
  let ⟨ts, r, h⟩ ← optionalTypeParameters s
  match r, h with
  | '(' :: r, h =>
      holding ts do
        let ⟨ps, r₁, h₁⟩ ← entriesUntil ')' (value .valueType) r
        holding ps do
          let ⟨t, r₂, h₂⟩ ← typeSignature r₁
          let ⟨es, r₃, h₃⟩ ← holding t (throwsTypes r₂)
          let d ← build s (Text.byteSize s - Text.byteSize r₃) (makeMethodSignature ts ps t es)
          pure ⟨d, r₃, by rw [List.length_cons] at h; omega⟩
  | r, _ => wanted (.char '(') r

/-! ## Classes -/

/-- The interfaces that the text begins with. -/
def interfaces (s : List Char) : Reading m (TypeTree ι (.list .classType)) (s.length + 1) :=
  match s with
  | 'L' :: r => do
      let ⟨c, r₁, h₁⟩ ← segments .topLevel r
      let ⟨cs, r₂, h₂⟩ ← holding c (interfaces r₁)
      pure ⟨.cons c cs, r₂, by rw [List.length_cons]; omega⟩
  | s => pure (.leaving .nil s)
termination_by s.length

/-- The signature of a class. -/
def classSignature (s : List Char) : Reading m (TypeTree ι .classSignature) s.length := do
  let ⟨ts, r, h⟩ ← optionalTypeParameters s
  holding ts do
    let ⟨c, r₁, h₁⟩ ← classType r
    let ⟨is, r₂, h₂⟩ ← holding c (interfaces r₁)
    let d ← intern (.classSignature · ts c is)
    pure ⟨d, r₂, by omega⟩

end ClassfileTypes.Grammar
