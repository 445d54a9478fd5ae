import ClassfileTypes.Proofs.Names
import ClassfileTypes.Tree.Construct
import ClassfileTypes.Tree.Encoding
import Mathlib.Tactic.Common

/-!
# Well-formed trees

The rules that the checked constructions enforce, as one predicate on trees of
every form: names are valid, arrays are flat and have an allowed dimension, no
parameter is `void`, and a type parameter has a bound. Whether a tree is well
formed does not depend on its tags, and neither do its texts.
-/

namespace ClassfileTypes

/-- The name of a class is valid where it stands: a class name at the top level,
a simple name inside another class. -/
def TypeTree.AcceptsName {ι : Type} : TypeTree ι .enclosing → String → Prop
  | .topLevel, n => Name.IsClassName n
  | .nestedIn _, n => Name.IsSimpleName n

namespace TypeTree

variable {ι κ : Type}

/-- Whether the tree is an array. -/
def isArray : {f : Form} → TypeTree ι f → Bool
  | _, .descArray _ | _, .refArray _ => true
  | _, .sigReference (.refArray _) => true
  | _, _ => false

/-- A type that may be the base of a flat array. -/
def IsBase {f : Form} (t : TypeTree ι f) : Prop :=
  t.isVoid = false ∧ t.isArray = false

/-- Whether there is no class bound. -/
def isUnbounded : TypeTree ι .classBound → Bool
  | .noClassBound => true
  | .boundedBy _ => false

/-- The rules of construction hold in the whole tree. -/
def WellFormed : {f : Form} → TypeTree ι f → Prop
  | _, .descClass c => c.WellFormed
  | _, .descArray a => a.WellFormed
  | _, .classDescriptor _ n => Name.IsClassName n
  | _, .arrayDescriptor _ d b => (1 ≤ d ∧ d ≤ maxDimension) ∧ b.IsBase ∧ b.WellFormed
  | _, .methodDescriptor _ ps r =>
      (∀ p ∈ ps.entries, p.isVoid = false) ∧ ps.WellFormed ∧ r.WellFormed
  | _, .sigReference r => r.WellFormed
  | _, .refClass c => c.WellFormed
  | _, .refArray a => a.WellFormed
  | _, .refVariable v => v.WellFormed
  | _, .throwsClass c => c.WellFormed
  | _, .throwsVariable v => v.WellFormed
  | _, .classType _ o n as => o.AcceptsName n ∧ o.WellFormed ∧ as.WellFormed
  | _, .nestedIn c => c.WellFormed
  | _, .arrayType _ d b => (1 ≤ d ∧ d ≤ maxDimension) ∧ b.IsBase ∧ b.WellFormed
  | _, .boundVariable _ d => d.WellFormed
  | _, .freeVariable _ n => Name.IsSimpleName n
  | _, .typeParameter _ n c is =>
      Name.IsSimpleName n ∧ (c.isUnbounded = true → is.isNil = false) ∧
        c.WellFormed ∧ is.WellFormed
  | _, .boundedBy r => r.WellFormed
  | _, .argReference r => r.WellFormed
  | _, .argBounded b => b.WellFormed
  | _, .boundedArgument _ _ r => r.WellFormed
  | _, .methodSignature _ ts ps r es =>
      (∀ p ∈ ps.entries, p.isVoid = false) ∧
        ts.WellFormed ∧ ps.WellFormed ∧ r.WellFormed ∧ es.WellFormed
  | _, .classSignature _ ts c is => ts.WellFormed ∧ c.WellFormed ∧ is.WellFormed
  | _, .cons x xs => x.WellFormed ∧ xs.WellFormed
  | _, .primitive _ | _, .descPrimitive _ | _, .descVoid | _, .sigPrimitive _ | _, .sigVoid
  | _, .topLevel | _, .noClassBound | _, .wildcard | _, .nil => True

/-- No variable in the tree carries its declaration. -/
def Unbound : {f : Form} → TypeTree ι f → Prop
  | _, .boundVariable _ _ => False
  | _, .descClass c => c.Unbound
  | _, .descArray a => a.Unbound
  | _, .arrayDescriptor _ _ b => b.Unbound
  | _, .methodDescriptor _ ps r => ps.Unbound ∧ r.Unbound
  | _, .sigReference r => r.Unbound
  | _, .refClass c => c.Unbound
  | _, .refArray a => a.Unbound
  | _, .refVariable v => v.Unbound
  | _, .throwsClass c => c.Unbound
  | _, .throwsVariable v => v.Unbound
  | _, .classType _ o _ as => o.Unbound ∧ as.Unbound
  | _, .nestedIn c => c.Unbound
  | _, .arrayType _ _ b => b.Unbound
  | _, .typeParameter _ _ c is => c.Unbound ∧ is.Unbound
  | _, .boundedBy r => r.Unbound
  | _, .argReference r => r.Unbound
  | _, .argBounded b => b.Unbound
  | _, .boundedArgument _ _ r => r.Unbound
  | _, .methodSignature _ ts ps r es => ts.Unbound ∧ ps.Unbound ∧ r.Unbound ∧ es.Unbound
  | _, .classSignature _ ts c is => ts.Unbound ∧ c.Unbound ∧ is.Unbound
  | _, .cons x xs => x.Unbound ∧ xs.Unbound
  | _, .primitive _ | _, .descPrimitive _ | _, .descVoid | _, .classDescriptor _ _
  | _, .sigPrimitive _ | _, .sigVoid | _, .freeVariable _ _ | _, .topLevel | _, .noClassBound
  | _, .wildcard | _, .nil => True

theorem WellFormed.entries {f : Form} {xs : TypeTree ι (.list f)} (h : xs.WellFormed) :
    ∀ x ∈ xs.entries, x.WellFormed := by
  match xs with
  | .nil => exact fun x hx => absurd hx List.not_mem_nil
  | .cons y ys => exact List.forall_mem_cons.mpr ⟨h.1, WellFormed.entries h.2⟩

theorem Unbound.entries {f : Form} {xs : TypeTree ι (.list f)} (h : xs.Unbound) :
    ∀ x ∈ xs.entries, x.Unbound := by
  match xs with
  | .nil => exact fun x hx => absurd hx List.not_mem_nil
  | .cons y ys => exact List.forall_mem_cons.mpr ⟨h.1, Unbound.entries h.2⟩

/-! ## Tags do not matter -/

section

variable (g : ι → κ)

@[simp] theorem isNil_mapTags {f : Form} (t : TypeTree ι (.list f)) :
    (t.mapTags g).isNil = t.isNil := by
  cases t <;> rfl

@[simp] theorem isVoid_mapTags {f : Form} (t : TypeTree ι f) :
    (t.mapTags g).isVoid = t.isVoid := by
  cases t <;> rfl

@[simp] theorem isUnbounded_mapTags (t : TypeTree ι .classBound) :
    (t.mapTags g).isUnbounded = t.isUnbounded := by
  cases t <;> rfl

@[simp] theorem isArray_mapTags {f : Form} (t : TypeTree ι f) :
    (t.mapTags g).isArray = t.isArray := by
  cases t with
  | sigReference r => cases r <;> rfl
  | _ => rfl

@[simp] theorem name_mapTags {f : Form} (t : TypeTree ι f) : (t.mapTags g).name = t.name := by
  induction t <;> simp_all [mapTags, name]

@[simp] theorem acceptsName_mapTags (o : TypeTree ι .enclosing) (n : String) :
    (o.mapTags g).AcceptsName n ↔ o.AcceptsName n := by
  cases o <;> rfl

@[simp] theorem isBase_mapTags {f : Form} (t : TypeTree ι f) :
    (t.mapTags g).IsBase ↔ t.IsBase := by
  simp [IsBase]

@[simp] theorem entries_mapTags {f : Form} (t : TypeTree ι f) :
    (t.mapTags g).entries = t.entries.map (mapTags g) := by
  induction t with
  | cons x xs _ ih => exact congrArg (x.mapTags g :: ·) ih
  | _ => rfl

@[simp] theorem wellFormed_mapTags {f : Form} (t : TypeTree ι f) :
    (t.mapTags g).WellFormed ↔ t.WellFormed := by
  induction t <;> simp_all [mapTags, WellFormed]

@[simp] theorem unbound_mapTags {f : Form} (t : TypeTree ι f) :
    (t.mapTags g).Unbound ↔ t.Unbound := by
  induction t <;> simp_all [mapTags, Unbound]

@[simp] theorem composite?_mapTags {f : Form} (t : TypeTree ι f) :
    (t.mapTags g).composite? = t.composite? := by
  cases t <;> rfl

/-- The texts of a tree do not show its tags. -/
@[simp] theorem write_mapTags (s : Spelling) {f : Form} (t : TypeTree ι f) :
    (t.mapTags g).write s = t.write s := by
  induction t <;> funext rest <;> simp_all [mapTags, write]

end

@[simp] theorem wellFormed_plain {f : Form} (t : TypeTree ι f) :
    t.plain.WellFormed ↔ t.WellFormed :=
  wellFormed_mapTags _ t

@[simp] theorem unbound_plain {f : Form} (t : TypeTree ι f) : t.plain.Unbound ↔ t.Unbound :=
  unbound_mapTags _ t

@[simp] theorem write_plain (s : Spelling) {f : Form} (t : TypeTree ι f) :
    t.plain.write s = t.write s :=
  write_mapTags _ s t

@[simp] theorem internal_plain {f : Form} (t : TypeTree ι f) : t.plain.internal = t.internal := by
  simp [internal, text]

@[simp] theorem key_plain {f : Form} (t : TypeTree ι f) : t.plain.key = t.key := by
  simp [key, text]

end TypeTree

end ClassfileTypes
