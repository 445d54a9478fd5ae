import ClassfileTypes.Proofs.Binding
import ClassfileTypes.Tree.Erasure

/-!
# Erasure refines its plain version

The same holds of the way back, from descriptors to signatures, and of the element
types of arrays. These ask the pool for trees without any check, so it has to be
seen that what they ask for is well formed: a binary name is a class name, and the
signature of a descriptor is an array or `void` only if the descriptor is.
-/

namespace ClassfileTypes

namespace Name

theorem hasEmptySegment_append {start : Bool} {cs ds : List Char} (hcs : cs ≠ [])
    (h : hasEmptySegment start cs = false) (hds : hasEmptySegment false ds = false) :
    hasEmptySegment start (cs ++ ds) = false := by
  induction cs generalizing start with
  | nil => exact absurd rfl hcs
  | cons c cs ih =>
      rw [hasEmptySegment] at h
      rw [List.cons_append, hasEmptySegment]
      cases cs with
      | nil =>
          split_ifs at h ⊢ with hc
          · simp [hasEmptySegment] at h
          · exact hds
      | cons d cs =>
          split_ifs at h ⊢ with hc
          · rw [Bool.or_eq_false_iff] at h ⊢
            exact ⟨h.1, ih (by simp) h.2⟩
          · exact ih (by simp) h

theorem hasEmptySegment_of_no_slash {cs : List Char} (h : ∀ c ∈ cs, c ≠ '/') :
    hasEmptySegment false cs = false := by
  induction cs with
  | nil => rfl
  | cons c cs ih =>
      rw [List.forall_mem_cons] at h
      unfold hasEmptySegment
      rw [if_neg (by simpa using h.1)]
      exact ih h.2

/-- A class name with a simple name behind it is a class name. -/
theorem IsClassName.append {n m : String} (hn : IsClassName n) (hm : IsSimpleName m) :
    IsClassName (n ++ "$" ++ m) := by
  have htext : (n ++ "$" ++ m).toList = n.toList ++ '$' :: m.toList := by
    rw [String.toList_append, String.toList_append, List.append_assoc]
    rfl
  have hslash : ∀ c ∈ '$' :: m.toList, c ≠ '/' := by
    intro c hc
    rcases List.mem_cons.mp hc with rfl | hc
    · decide
    · rintro rfl
      exact absurd (hm.clean _ hc).2 (by decide)
  constructor
  · rw [htext]
    simp
  · intro c hc
    rw [htext] at hc
    rcases List.mem_append.mp hc with hc | hc
    · exact hn.clean c hc
    · rcases List.mem_cons.mp hc with rfl | hc
      · decide
      · refine ⟨(hm.clean c hc).1, ?_⟩
        rintro rfl
        exact absurd (hm.clean _ hc).2 (by decide)
  · rw [htext]
    exact hasEmptySegment_append hn.nonempty hn.segments (hasEmptySegment_of_no_slash hslash)

end Name

namespace TypeTree

variable {ι κ : Type}

/-- **The binary name of a class is a class name.** -/
theorem isClassName_binaryName (c : TypeTree ι .classType) (hc : c.WellFormed) :
    Name.IsClassName c.binaryName := by
  match c with
  | .classType _ .topLevel n as => exact hc.1
  | .classType _ (.nestedIn o) n as => exact (isClassName_binaryName o hc.2.1).append hc.1

theorem binaryName_mapTags (g : ι → κ) (c : TypeTree ι .classType) :
    (c.mapTags g).binaryName = c.binaryName := by
  match c with
  | .classType _ .topLevel n as => rfl
  | .classType _ (.nestedIn o) n as =>
      show (o.mapTags g).binaryName ++ "$" ++ n = o.binaryName ++ "$" ++ n
      rw [binaryName_mapTags g o]

/-- The signature of a type descriptor is an array or `void` if the descriptor is. -/
theorem shape_raise (t : TypeTree Unit .typeDescriptor) :
    (t.raise (m := Id)).isVoid = t.isVoid ∧ (t.raise (m := Id)).isArray = t.isArray := by
  cases t <;> exact ⟨rfl, rfl⟩

theorem notVoid_raise (ps : TypeTree Unit (.list .typeDescriptor))
    (h : ∀ t ∈ ps.entries, t.isVoid = false) :
    ∀ t ∈ (ps.raise (m := Id)).entries, t.isVoid = false := by
  match ps with
  | .nil => exact fun t ht => absurd ht List.not_mem_nil
  | .cons x xs =>
      obtain ⟨hvoid, hvoids⟩ := List.forall_mem_cons.mp h
      refine List.forall_mem_cons.mpr ⟨?_, notVoid_raise xs hvoids⟩
      exact (shape_raise x).1.trans hvoid

end TypeTree

theorem AnyTree.isErasable_plain {ι : Type} (v : AnyTree ι) :
    v.plain.isErasable = v.isErasable := by
  obtain ⟨g, t⟩ := v
  cases t <;> rfl

namespace Pool

open TypeTree

variable {canonical : Prop} {p q : Pool} {f : Form}

/-! ## Erasure -/

/-- Erasing a tree that is held refines its plain version. -/
def Erases (canonical : Prop) (t : TypeTree Nat f) : Prop :=
  ∀ {q : Pool}, q.Holds canonical t →
    Refines canonical (Tagged canonical) q t.erase t.plain.erase

/-- A type parameter erases to one of its bounds, which is two steps below. -/
theorem erases_of_parts (t : TypeTree Nat f)
    (ih : ∀ x ∈ t.parts, Erases canonical x.2 ∧ ∀ y ∈ x.2.parts, Erases canonical y.2) :
    Erases canonical t := by
  have hparts : t.parts.Forall fun x => Erases canonical x.2 :=
    List.forall_iff_forall_mem.mpr fun x hx => (ih x hx).1
  intro p ht
  cases t with
  | sigPrimitive c => exact Refines.pure (.leaf rfl rfl trivial rfl)
  | sigVoid => exact Refines.pure (.leaf rfl rfl trivial rfl)
  | sigReference r => exact hparts ht.parts
  | refVariable v => exact hparts ht.parts
  | throwsVariable v => exact hparts ht.parts
  | boundVariable i d => exact hparts ht.parts
  | refClass c => exact Refines.map (hparts ht.parts) fun _ _ _ h => h.descClass
  | throwsClass c => exact Refines.map (hparts ht.parts) fun _ _ _ h => h.descClass
  | refArray a => exact Refines.map (hparts ht.parts) fun _ _ _ h => h.descArray
  | classType i o n as =>
      have hname := isClassName_binaryName _ ht.good.wellFormed
      show Refines canonical _ p _ (MonadPool.intern
        (TypeTree.classDescriptor · ((classType i o n as).mapTags fun _ => ()).binaryName))
      rw [binaryName_mapTags]
      exact Refines.lift (runs_classDescriptor hname)
  | arrayType i d b =>
      apply Refines.bind (hparts ht.parts)
      intro q b₁ b₁' _ hb₁ _
      exact refines_makeArrayDescriptor d hb₁
  | freeVariable i n => exact Refines.throw
  | typeParameter i n c is =>
      obtain ⟨hc, his⟩ := ht.parts
      cases c with
      | boundedBy r =>
          -- The bound is a part of the class bound, which is a part of the tree.
          have hr : Erases canonical r :=
            (ih ⟨_, .boundedBy r⟩ (by simp [parts])).2 ⟨_, r⟩ (by simp [parts])
          exact hr hc.parts
      | noClassBound =>
          cases is with
          | nil => exact Refines.map refines_objectDescriptor fun _ _ _ h => h.descClass
          | cons r rs =>
              have hr : Erases canonical r :=
                (ih ⟨_, .cons r rs⟩ (by simp [parts])).2 ⟨_, r⟩ (by simp [parts])
              exact hr his.parts.1
  | methodSignature i ts ps r es =>
      obtain ⟨-, eps, er, -⟩ := hparts
      obtain ⟨-, hps, hr, -⟩ := ht.parts
      apply Refines.bind_holding (R := Tagged canonical) (eps hps)
      · intro q ps₁ ps₁' hext hps₁
        exact er (hext.holds hr).hold
      · intro q ps₁ ps₁' r₁ r₁' _ hps₁ _ hr₁ _
        exact refines_makeMethodDescriptor hps₁ hr₁
  | nil => exact Refines.pure .nil
  | cons x xs =>
      obtain ⟨ex, exs⟩ := hparts
      obtain ⟨hx, hxs⟩ := ht.parts
      apply Refines.bind_holding (R := Tagged canonical) (ex hx)
      · intro q x₁ x₁' hext hx₁
        exact exs (hext.holds hxs).hold
      · intro q x₁ x₁' xs₁ xs₁' _ hx₁ _ hxs₁ _
        exact Refines.pure (hx₁.cons hxs₁)
  | _ => exact Refines.pure (.of_good ht.good)

theorem erases (t : TypeTree Nat f) :
    Erases canonical t ∧ ∀ x ∈ t.parts, Erases canonical x.2 := by
  induction t using partsInduction with
  | step t ih => exact ⟨erases_of_parts t ih, fun x hx => (ih x hx).1⟩

/-- **Erasure.** -/
theorem refines_erase {t : TypeTree Nat f} (ht : p.Holds canonical t) :
    Refines canonical (Tagged canonical) p t.erase t.plain.erase :=
  (erases t).1 ht

/-! ## Signatures of descriptors -/

theorem runs_raise {t : TypeTree Nat f} (ht : p.Holds canonical t) :
    Runs canonical (Tagged canonical) p t.raise t.plain.raise := by
  induction t generalizing p with
  | descPrimitive c => exact Runs.pure (.leaf rfl rfl trivial rfl)
  | descVoid => exact Runs.pure (.leaf rfl rfl trivial rfl)
  | descClass c ih =>
      exact Runs.map (ih ht.parts) fun _ _ _ h => h.refClass.sigReference
  | descArray a ih =>
      exact Runs.map (ih ht.parts) fun _ _ _ h => h.refArray.sigReference
  | classDescriptor i n =>
      exact runs_classType (o := .topLevel) ht.good.wellFormed (.leaf rfl rfl trivial rfl) .nil
  | arrayDescriptor i d b ih =>
      apply Runs.bind (ih ht.parts)
      intro q b₁ _ hb₁
      have hbase : b₁.IsBase := by
        obtain ⟨hvoid, harray⟩ := shape_raise b.plain
        have hplain : (b.plain.raise (m := Id)).IsBase := by
          unfold IsBase
          rw [hvoid, harray]
          exact (isBase_mapTags _ b).mpr ht.good.wellFormed.2.1
        rw [← hb₁.plain] at hplain
        exact (isBase_mapTags _ b₁).mp hplain
      exact runs_arrayType ht.good.wellFormed.1 hbase hb₁
  | methodDescriptor i ps r ihps ihr =>
      obtain ⟨hps, hr⟩ := ht.parts
      apply Runs.bind (ihps hps)
      intro q ps₁ hext hps₁
      apply Runs.bind (Runs.holding hps₁.good (ihr (hext.holds hr).hold))
      rintro q' r₁ - ⟨hr₁, hgood⟩
      have hvoid : ∀ t ∈ ps₁.entries, t.isVoid = false := by
        have hplain := notVoid_raise ps.plain (by simpa [plain] using ht.good.wellFormed.1)
        rw [← hps₁.plain] at hplain
        simpa [plain] using hplain
      exact runs_methodSignature hvoid .nil ⟨hgood, hps₁.plain⟩ hr₁ .nil
  | nil => exact Runs.pure .nil
  | cons x xs ihx ihxs =>
      obtain ⟨hx, hxs⟩ := ht.parts
      apply Runs.bind (ihx hx)
      intro q x₁ hext hx₁
      apply Runs.bind (Runs.holding hx₁.good (ihxs (hext.holds hxs).hold))
      rintro q' xs₁ - ⟨hxs₁, hgood⟩
      exact Runs.pure (.cons ⟨hgood, hx₁.plain⟩ hxs₁)
  | _ => exact Runs.pure (.of_good ht.good)

/-! ## Elements of arrays -/

theorem runs_descriptorComponent {t : TypeTree Nat .arrayDescriptor}
    (ht : p.Holds canonical t) :
    Runs canonical (Tagged canonical) p t.descriptorComponent t.plain.descriptorComponent := by
  cases t with
  | arrayDescriptor i d b =>
      have hb : Tagged canonical p b b.plain := .of_good ht.parts.good
      obtain ⟨⟨hone, hmax⟩, hbase, -⟩ := ht.good.wellFormed
      show Runs canonical _ p (if d = 1 then _ else _) (if d = 1 then _ else _)
      split_ifs with hd
      · exact Runs.pure hb
      · have hlower : 1 ≤ d - 1 ∧ d - 1 ≤ maxDimension := by omega
        exact Runs.map (runs_arrayDescriptor hlower hbase hb) fun _ _ _ h => h.descArray

theorem runs_typeComponent {t : TypeTree Nat .arrayType} (ht : p.Holds canonical t) :
    Runs canonical (Tagged canonical) p t.typeComponent t.plain.typeComponent := by
  cases t with
  | arrayType i d b =>
      have hb : Tagged canonical p b b.plain := .of_good ht.parts.good
      obtain ⟨⟨hone, hmax⟩, hbase, -⟩ := ht.good.wellFormed
      show Runs canonical _ p (if d = 1 then _ else _) (if d = 1 then _ else _)
      split_ifs with hd
      · exact Runs.pure hb
      · have hlower : 1 ≤ d - 1 ∧ d - 1 ≤ maxDimension := by omega
        exact Runs.map (runs_arrayType hlower hbase hb) fun _ _ _ h => h.refArray.sigReference

/-! ## Among computations that may fail

An operation that cannot fail does the same there. -/

/-- A pool that does not change what is computed while a tree is held. -/
class LawfulPool (ι : outParam Type) (m : Type → Type) [Monad m] [MonadPool ι m] : Prop
    extends LawfulMonad m where
  holding_map : ∀ {f : Form} {α β : Type} (t : TypeTree ι f) (g : α → β) (x : m α),
    MonadPool.holding t (g <$> x) = g <$> MonadPool.holding t x

instance : LawfulPool Unit Id where
  holding_map _ _ _ := rfl

instance : LawfulPool Nat PoolM where
  holding_map _ _ _ := rfl

section

variable {ε α β : Type} {m : Type → Type} [Monad m] [LawfulMonad m]

theorem bind_eq_lift {x : ExceptT ε m α} {x' : m α} {k : α → ExceptT ε m β} {l : α → m β}
    (hx : x = ExceptT.lift x') (hk : ∀ a, k a = ExceptT.lift (l a)) :
    x >>= k = ExceptT.lift (x' >>= l) := by
  obtain rfl := hx
  obtain rfl : k = fun a => ExceptT.lift (l a) := funext hk
  apply ExceptT.ext
  simp

theorem pure_eq_lift (a : α) : (pure a : ExceptT ε m α) = ExceptT.lift (pure a) :=
  (ExceptT.lift_pure a).symm

theorem map_eq_lift {x : ExceptT ε m α} {x' : m α} (g : α → β) (hx : x = ExceptT.lift x') :
    g <$> x = ExceptT.lift (g <$> x') := by
  rw [← bind_pure_comp, ← bind_pure_comp]
  exact bind_eq_lift hx fun a => pure_eq_lift (g a)

end

section

variable {ι ε α : Type} {m : Type → Type} [Monad m] [MonadPool ι m] [LawfulPool ι m] {f : Form}

theorem holding_eq_lift (t : TypeTree ι f) {x : ExceptT ε m α} {x' : m α}
    (hx : x = ExceptT.lift x') :
    MonadPool.holding t x = ExceptT.lift (MonadPool.holding t x') := by
  obtain rfl := hx
  exact LawfulPool.holding_map t Except.ok x'

theorem raise_eq_lift (t : TypeTree ι f) :
    (t.raise : ExceptT ε m _) = ExceptT.lift t.raise := by
  induction t with
  | descClass c ih => exact bind_eq_lift ih fun _ => pure_eq_lift _
  | descArray a ih => exact bind_eq_lift ih fun _ => pure_eq_lift _
  | classDescriptor i n => rfl
  | arrayDescriptor i d b ih => exact bind_eq_lift ih fun _ => rfl
  | methodDescriptor i ps r ihps ihr =>
      exact bind_eq_lift ihps fun ps => bind_eq_lift (holding_eq_lift ps ihr) fun _ => rfl
  | cons x xs ihx ihxs =>
      exact bind_eq_lift ihx fun x =>
        bind_eq_lift (holding_eq_lift x ihxs) fun _ => pure_eq_lift _
  | _ => exact pure_eq_lift _

theorem descriptorComponent_eq_lift (t : TypeTree ι .arrayDescriptor) :
    (t.descriptorComponent : ExceptT ε m _) = ExceptT.lift t.descriptorComponent := by
  cases t with
  | arrayDescriptor i d b =>
      show (if d = 1 then _ else _) = ExceptT.lift (if d = 1 then _ else _)
      split_ifs with hd
      · exact pure_eq_lift b
      · exact map_eq_lift _ rfl

theorem typeComponent_eq_lift (t : TypeTree ι .arrayType) :
    (t.typeComponent : ExceptT ε m _) = ExceptT.lift t.typeComponent := by
  cases t with
  | arrayType i d b =>
      show (if d = 1 then _ else _) = ExceptT.lift (if d = 1 then _ else _)
      split_ifs with hd
      · exact pure_eq_lift b
      · exact bind_eq_lift rfl fun _ => pure_eq_lift _

end

theorem refines_raise {ε : Type} {t : TypeTree Nat f} (ht : p.Holds canonical t) :
    Refines canonical (Tagged canonical) p (t.raise : ExceptT ε PoolM _) t.plain.raise := by
  rw [raise_eq_lift, raise_eq_lift]
  exact Refines.lift (runs_raise ht)

theorem refines_descriptorComponent {ε : Type} {t : TypeTree Nat .arrayDescriptor}
    (ht : p.Holds canonical t) :
    Refines canonical (Tagged canonical) p (t.descriptorComponent : ExceptT ε PoolM _)
      t.plain.descriptorComponent := by
  rw [descriptorComponent_eq_lift, descriptorComponent_eq_lift]
  exact Refines.lift (runs_descriptorComponent ht)

theorem refines_typeComponent {ε : Type} {t : TypeTree Nat .arrayType}
    (ht : p.Holds canonical t) :
    Refines canonical (Tagged canonical) p (t.typeComponent : ExceptT ε PoolM _)
      t.plain.typeComponent := by
  rw [typeComponent_eq_lift, typeComponent_eq_lift]
  exact Refines.lift (runs_typeComponent ht)

end Pool

end ClassfileTypes
