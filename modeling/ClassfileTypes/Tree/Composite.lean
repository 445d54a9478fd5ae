import ClassfileTypes.Tree.Basic

/-!
# Composite trees

The trees that carry a tag are composite. There are eleven kinds of them; each
kind has one form, and the two kinds of type variable share theirs.
-/

namespace ClassfileTypes

/-- A kind of composite tree. -/
inductive Composite
  | classDescriptor
  | arrayDescriptor
  | methodDescriptor
  | classType
  | arrayType
  | boundVariable
  | freeVariable
  | typeParameter
  | boundedArgument
  | methodSignature
  | classSignature
deriving DecidableEq, Repr, Inhabited

namespace Composite

/-- The kinds in their order. -/
def all : List Composite :=
  [classDescriptor, arrayDescriptor, methodDescriptor, classType, arrayType, boundVariable,
    freeVariable, typeParameter, boundedArgument, methodSignature, classSignature]

/-- The form of the trees of a kind. -/
def form : Composite → Form
  | classDescriptor => .classDescriptor
  | arrayDescriptor => .arrayDescriptor
  | methodDescriptor => .methodDescriptor
  | classType => .classType
  | arrayType => .arrayType
  | boundVariable | freeVariable => .typeVariable
  | typeParameter => .typeParameter
  | boundedArgument => .boundedArgument
  | methodSignature => .methodSignature
  | classSignature => .classSignature

/-- The name of the kind. -/
def title : Composite → String
  | freeVariable => "UnboundTypeVariable"
  | k => k.form.title

end Composite

/-- A tree of any form. -/
abbrev AnyTree (ι : Type) : Type :=
  (f : Form) × TypeTree ι f

namespace TypeTree

variable {ι : Type}

/-- The kind of a composite tree. -/
def composite? : {f : Form} → TypeTree ι f → Option Composite
  | _, .classDescriptor .. => some .classDescriptor
  | _, .arrayDescriptor .. => some .arrayDescriptor
  | _, .methodDescriptor .. => some .methodDescriptor
  | _, .classType .. => some .classType
  | _, .arrayType .. => some .arrayType
  | _, .boundVariable .. => some .boundVariable
  | _, .freeVariable .. => some .freeVariable
  | _, .typeParameter .. => some .typeParameter
  | _, .boundedArgument .. => some .boundedArgument
  | _, .methodSignature .. => some .methodSignature
  | _, .classSignature .. => some .classSignature
  | _, _ => none

end TypeTree

namespace AnyTree

variable {ι : Type}

/-- The tree, if it has form `f`. -/
def as? (v : AnyTree ι) (f : Form) : Option (TypeTree ι f) :=
  if h : v.1 = f then some (h ▸ v.2) else none

/-- What the tree is called: by its kind if it is composite, else by its form. -/
def title (v : AnyTree ι) : String :=
  match v.2.composite? with
  | some k => k.title
  | none => v.1.title

/-- The tree without its tags. -/
def plain (v : AnyTree ι) : AnyTree Unit :=
  ⟨v.1, v.2.plain⟩

/-- Whether two trees are equal as types. -/
def isEqual (v w : AnyTree ι) : Bool :=
  match v.as? w.1 with
  | some t => t.plain = w.2.plain
  | none => false

theorem isEqual_iff {v w : AnyTree ι} : v.isEqual w ↔ v.plain = w.plain := by
  obtain ⟨f, t⟩ := v
  obtain ⟨g, u⟩ := w
  by_cases h : f = g
  · cases h
    simp [isEqual, as?, plain]
  · simp [isEqual, as?, plain, h]

end AnyTree

end ClassfileTypes
