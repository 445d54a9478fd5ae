import ClassfileTypes.Proofs.WellFormed
import ClassfileTypes.Tree.Composite
import Mathlib.Tactic.Common

/-!
# The composite trees inside a tree

A tree reaches itself, its parts, and the declarations of its bound variables.
`nodes` lists the composite ones among them: these are the objects of a pool
that are alive when the tree is held. Reaching is transitive, and what is
reached from a well-formed tree is well formed.

Facts about all that a tree reaches are proved by induction over `parts`, the
trees one step below, so that no proof here goes through the constructors twice.
-/

namespace ClassfileTypes.TypeTree

variable {ι : Type}

/-! ## The trees one step below -/

/-- The trees that a tree is made of. -/
def parts : {f : Form} → TypeTree ι f → List (AnyTree ι)
  | _, .descClass c => [⟨_, c⟩]
  | _, .descArray a => [⟨_, a⟩]
  | _, .arrayDescriptor _ _ b => [⟨_, b⟩]
  | _, .methodDescriptor _ ps r => [⟨_, ps⟩, ⟨_, r⟩]
  | _, .sigReference r => [⟨_, r⟩]
  | _, .refClass c => [⟨_, c⟩]
  | _, .refArray a => [⟨_, a⟩]
  | _, .refVariable v => [⟨_, v⟩]
  | _, .throwsClass c => [⟨_, c⟩]
  | _, .throwsVariable v => [⟨_, v⟩]
  | _, .classType _ o _ as => [⟨_, o⟩, ⟨_, as⟩]
  | _, .nestedIn c => [⟨_, c⟩]
  | _, .arrayType _ _ b => [⟨_, b⟩]
  | _, .boundVariable _ d => [⟨_, d⟩]
  | _, .typeParameter _ _ c is => [⟨_, c⟩, ⟨_, is⟩]
  | _, .boundedBy r => [⟨_, r⟩]
  | _, .argReference r => [⟨_, r⟩]
  | _, .argBounded b => [⟨_, b⟩]
  | _, .boundedArgument _ _ r => [⟨_, r⟩]
  | _, .methodSignature _ ts ps r es => [⟨_, ts⟩, ⟨_, ps⟩, ⟨_, r⟩, ⟨_, es⟩]
  | _, .classSignature _ ts c is => [⟨_, ts⟩, ⟨_, c⟩, ⟨_, is⟩]
  | _, .cons x xs => [⟨_, x⟩, ⟨_, xs⟩]
  | _, .primitive _ | _, .descPrimitive _ | _, .descVoid | _, .classDescriptor _ _
  | _, .sigPrimitive _ | _, .sigVoid | _, .freeVariable _ _ | _, .topLevel | _, .noClassBound
  | _, .wildcard | _, .nil => []

/-- Induction over the trees one step below. -/
theorem partsInduction {P : ∀ {f : Form}, TypeTree ι f → Prop}
    (step : ∀ {f : Form} (t : TypeTree ι f), (∀ x ∈ t.parts, P x.2) → P t)
    {f : Form} (t : TypeTree ι f) : P t := by
  induction t <;> refine step _ ?_ <;> simp only [parts, List.forall_mem_cons] <;> simp [*]

theorem wellFormed_of_mem_parts {f : Form} {t : TypeTree ι f} (ht : t.WellFormed)
    {x : AnyTree ι} (hx : x ∈ t.parts) : x.2.WellFormed := by
  cases t <;> simp only [parts, List.not_mem_nil, List.mem_cons, or_false] at hx <;>
    simp only [WellFormed] at ht <;> aesop

/-- The tags of a tree are its own and those of the trees below. -/
theorem mem_tags_iff_parts {f : Form} {t : TypeTree ι f} {i : ι} :
    i ∈ t.tags ↔ t.tag? = some i ∨ ∃ x ∈ t.parts, i ∈ x.2.tags := by
  cases t <;> simp [tags, tag?, parts, eq_comm]

/-! ## Everything below -/

/-- The composite trees that a tree reaches, itself among them. -/
def nodes : {f : Form} → TypeTree ι f → List (AnyTree ι)
  | _, .primitive _ | _, .descPrimitive _ | _, .descVoid => []
  | _, .descClass c => c.nodes
  | _, .descArray a => a.nodes
  | _, .classDescriptor i n => [⟨_, .classDescriptor i n⟩]
  | _, .arrayDescriptor i d b => ⟨_, .arrayDescriptor i d b⟩ :: b.nodes
  | _, .methodDescriptor i ps r => ⟨_, .methodDescriptor i ps r⟩ :: (ps.nodes ++ r.nodes)
  | _, .sigPrimitive _ | _, .sigVoid => []
  | _, .sigReference r => r.nodes
  | _, .refClass c => c.nodes
  | _, .refArray a => a.nodes
  | _, .refVariable v => v.nodes
  | _, .throwsClass c => c.nodes
  | _, .throwsVariable v => v.nodes
  | _, .classType i o n as => ⟨_, .classType i o n as⟩ :: (o.nodes ++ as.nodes)
  | _, .topLevel => []
  | _, .nestedIn c => c.nodes
  | _, .arrayType i d b => ⟨_, .arrayType i d b⟩ :: b.nodes
  | _, .boundVariable i d => ⟨_, .boundVariable i d⟩ :: d.nodes
  | _, .freeVariable i n => [⟨_, .freeVariable i n⟩]
  | _, .typeParameter i n c is => ⟨_, .typeParameter i n c is⟩ :: (c.nodes ++ is.nodes)
  | _, .noClassBound => []
  | _, .boundedBy r => r.nodes
  | _, .wildcard => []
  | _, .argReference r => r.nodes
  | _, .argBounded b => b.nodes
  | _, .boundedArgument i d r => ⟨_, .boundedArgument i d r⟩ :: r.nodes
  | _, .methodSignature i ts ps r es =>
      ⟨_, .methodSignature i ts ps r es⟩ :: (ts.nodes ++ ps.nodes ++ r.nodes ++ es.nodes)
  | _, .classSignature i ts c is =>
      ⟨_, .classSignature i ts c is⟩ :: (ts.nodes ++ c.nodes ++ is.nodes)
  | _, .nil => []
  | _, .cons x xs => x.nodes ++ xs.nodes

/-- A tree reaches itself, if it is composite, and what the trees below reach. -/
theorem mem_nodes_iff_parts {f : Form} {t : TypeTree ι f} {v : AnyTree ι} :
    v ∈ t.nodes ↔ (v = ⟨f, t⟩ ∧ t.tag?.isSome) ∨ ∃ x ∈ t.parts, v ∈ x.2.nodes := by
  cases t <;> simp [nodes, tag?, parts]

/-- A composite tree reaches itself. -/
theorem self_mem_nodes {f : Form} {t : TypeTree ι f} {i : ι} (h : t.tag? = some i) :
    ⟨f, t⟩ ∈ t.nodes :=
  mem_nodes_iff_parts.mpr (Or.inl ⟨rfl, by rw [h]; rfl⟩)

/-- What is reached is composite. -/
theorem tag?_of_mem_nodes {f : Form} {t : TypeTree ι f} {v : AnyTree ι} (h : v ∈ t.nodes) :
    ∃ i, v.2.tag? = some i := by
  induction t using partsInduction with
  | step t ih =>
      rcases mem_nodes_iff_parts.mp h with ⟨rfl, htag⟩ | ⟨x, hx, hv⟩
      · exact Option.isSome_iff_exists.mp htag
      · exact ih x hx hv

/-- The tags of a tree are those of the trees that it reaches. -/
theorem mem_tags_iff {f : Form} {t : TypeTree ι f} {i : ι} :
    i ∈ t.tags ↔ ∃ v ∈ t.nodes, v.2.tag? = some i := by
  induction t using partsInduction with
  | step t ih =>
      rw [mem_tags_iff_parts]
      constructor
      · rintro (h | ⟨x, hx, hi⟩)
        · exact ⟨_, self_mem_nodes h, h⟩
        · obtain ⟨v, hv, hvi⟩ := (ih x hx).mp hi
          exact ⟨v, mem_nodes_iff_parts.mpr (Or.inr ⟨x, hx, hv⟩), hvi⟩
      · rintro ⟨v, hv, hvi⟩
        rcases mem_nodes_iff_parts.mp hv with ⟨rfl, -⟩ | ⟨x, hx, hv⟩
        · exact Or.inl hvi
        · exact Or.inr ⟨x, hx, (ih x hx).mpr ⟨v, hv, hvi⟩⟩

/-- Reaching is transitive. -/
theorem nodes_trans {f : Form} {t : TypeTree ι f} {v w : AnyTree ι} (h : v ∈ t.nodes)
    (hw : w ∈ v.2.nodes) : w ∈ t.nodes := by
  induction t using partsInduction with
  | step t ih =>
      rcases mem_nodes_iff_parts.mp h with ⟨rfl, -⟩ | ⟨x, hx, hv⟩
      · exact hw
      · exact mem_nodes_iff_parts.mpr (Or.inr ⟨x, hx, ih x hx hv⟩)

theorem wellFormed_of_mem_nodes {f : Form} {t : TypeTree ι f} {v : AnyTree ι}
    (ht : t.WellFormed) (h : v ∈ t.nodes) : v.2.WellFormed := by
  induction t using partsInduction with
  | step t ih =>
      rcases mem_nodes_iff_parts.mp h with ⟨rfl, -⟩ | ⟨x, hx, hv⟩
      · exact ht
      · exact ih x hx (wellFormed_of_mem_parts ht hx) hv

/-- What passes from trees to their parts passes from a list to its entries. -/
theorem forall_mem_entries {P : AnyTree ι → Prop} (hP : ∀ v, P v → ∀ x ∈ v.2.parts, P x)
    {f : Form} {xs : TypeTree ι (.list f)} (h : P ⟨_, xs⟩) : ∀ x ∈ xs.entries, P ⟨f, x⟩ := by
  match xs with
  | .nil => exact fun x hx => absurd hx List.not_mem_nil
  | .cons y ys =>
      have hparts := hP _ h
      have hy : P ⟨_, y⟩ := hparts _ (by simp [parts])
      have hys : P ⟨_, ys⟩ := hparts _ (by simp [parts])
      exact List.forall_mem_cons.mpr ⟨hy, forall_mem_entries hP hys⟩

/-! ## Kinds -/

/-- The trees of a kind have its form. -/
theorem form_of_composite? {f : Form} {t : TypeTree ι f} {k : Composite}
    (h : t.composite? = some k) : f = k.form := by
  cases t <;> simp only [composite?, Option.some.injEq, reduceCtorEq] at h <;> subst h <;> rfl

/-- A tree has a kind if and only if it has a tag. -/
theorem isSome_composite? {f : Form} (t : TypeTree ι f) :
    t.composite?.isSome = t.tag?.isSome := by
  cases t <;> rfl

end ClassfileTypes.TypeTree
