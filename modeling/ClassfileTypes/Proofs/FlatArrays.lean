import ClassfileTypes.Proofs.FirstBounds
import ClassfileTypes.Proofs.Reparsing
import Mathlib.Algebra.GroupWithZero.Nat

/-!
# Arrays are flat

Descriptors and signatures have arrays of their own, and both are flat: an array over an array
is one over the same base, with the sum of the dimensions. The sum is between 1 and 255, and
it is compared as it is, however large the dimension is that was asked for. So it does not
matter whether dimensions are added in one step or in several, and an array is put together
again from its elements.
-/

namespace ClassfileTypes

/-- The two ways to write a type. -/
inductive TypeStyle
  | descriptor
  | signature
deriving DecidableEq, Repr

namespace TypeStyle

open TypeTree

variable {ι : Type} {m : Type → Type} [Monad m] [MonadPool ι m]

/-- The form of types. -/
def form : TypeStyle → Form
  | descriptor => .typeDescriptor
  | signature => .typeSignature

/-- The form of arrays. -/
def arrayForm : TypeStyle → Form
  | descriptor => .arrayDescriptor
  | signature => .arrayType

/-- The array with so many dimensions over a base, as it is. -/
def flat : (k : TypeStyle) → ι → Nat → TypeTree ι k.form → TypeTree ι k.arrayForm
  | descriptor, i, d, b => .arrayDescriptor i d b
  | signature, i, d, b => .arrayType i d b

/-- The dimensions of an array. -/
def dimension : (k : TypeStyle) → TypeTree ι k.arrayForm → Nat
  | descriptor, .arrayDescriptor _ d _ => d
  | signature, .arrayType _ d _ => d

/-- What an array is an array of, all dimensions taken together. -/
def base : (k : TypeStyle) → TypeTree ι k.arrayForm → TypeTree ι k.form
  | descriptor, .arrayDescriptor _ _ b => b
  | signature, .arrayType _ _ b => b

/-- An array as a type. -/
def ofArray : (k : TypeStyle) → TypeTree ι k.arrayForm → TypeTree ι k.form
  | descriptor, a => .descArray a
  | signature, a => .sigReference (.refArray a)

/-- The array that a type is, if it is one. -/
def asArray? : (k : TypeStyle) → TypeTree ι k.form → Option (TypeTree ι k.arrayForm)
  | descriptor, .descArray a => some a
  | signature, .sigReference (.refArray a) => some a
  | _, _ => none

/-- The dimensions of a type: none if it is not an array. -/
def inner (k : TypeStyle) (t : TypeTree ι k.form) : Nat :=
  (k.asArray? t).elim 0 k.dimension

/-- The type below all dimensions. -/
def innermost (k : TypeStyle) (t : TypeTree ι k.form) : TypeTree ι k.form :=
  (k.asArray? t).elim t k.base

/-- The dimension and the base of an array with `d` more dimensions over a type. -/
def flatten : (k : TypeStyle) → Nat → TypeTree ι k.form →
    Except ConstructionError (Nat × TypeTree ι k.form)
  | descriptor => flatDescriptor
  | signature => flatType

/-- The array with `d` dimensions over a type. -/
def makeArray : (k : TypeStyle) → Nat → TypeTree ι k.form →
    ExceptT TypeError m (TypeTree ι k.arrayForm)
  | descriptor => makeArrayDescriptor
  | signature => makeArrayType

/-- The type of the elements of an array. -/
def component : (k : TypeStyle) → TypeTree ι k.arrayForm → m (TypeTree ι k.form)
  | descriptor => descriptorComponent
  | signature => typeComponent

/-- Arrays over arrays, the innermost ones first. -/
def wrapAll (k : TypeStyle) (ds : List Nat) (t : TypeTree ι k.form) :
    ExceptT TypeError m (TypeTree ι k.form) :=
  ds.foldlM (fun t d => k.ofArray <$> k.makeArray d t) t

/-- The array that is put together from the elements of an array. -/
def rebuild (k : TypeStyle) (a : TypeTree ι k.arrayForm) :
    ExceptT TypeError m (TypeTree ι k.arrayForm) := do
  let t ← ExceptT.lift (k.component a)
  k.makeArray 1 t

/-- The elements of the elements and so on, `n` times, if there are as many. -/
def peel (k : TypeStyle) : Nat → TypeTree ι k.form → m (Option (TypeTree ι k.form))
  | 0, t => pure (some t)
  | n + 1, t =>
      match k.asArray? t with
      | some a => do
          let t ← holding a (k.component a)
          k.peel n t
      | none => pure none

/-! ## One step -/

section

variable {k : TypeStyle} {b t : TypeTree ι k.form} {d n : Nat}

theorem asArray?_ofArray (a : TypeTree ι k.arrayForm) : k.asArray? (k.ofArray a) = some a := by
  cases k <;> rfl

theorem asArray?_of_isVoid (h : t.isVoid = true) : k.asArray? t = none := by
  cases k with
  | descriptor =>
      cases t with
      | descVoid => rfl
      | _ => exact nomatch h
  | signature =>
      cases t with
      | sigVoid => rfl
      | _ => exact nomatch h

theorem asArray?_of_isBase (hb : b.IsBase) : k.asArray? b = none := by
  cases k with
  | descriptor =>
      cases b with
      | descArray a => exact nomatch hb.2
      | _ => rfl
  | signature =>
      cases b with
      | sigReference r =>
          cases r with
          | refArray a => exact nomatch hb.2
          | _ => rfl
      | _ => rfl

@[simp] theorem dimension_flat (i : ι) : k.dimension (k.flat i d b) = d := by
  cases k <;> rfl

@[simp] theorem base_flat (i : ι) : k.base (k.flat i d b) = b := by
  cases k <;> rfl

theorem exists_eq_flat (a : TypeTree ι k.arrayForm) : ∃ i d b, a = k.flat i d b := by
  cases k with
  | descriptor => cases a with | arrayDescriptor i d b => exact ⟨i, d, b, rfl⟩
  | signature => cases a with | arrayType i d b => exact ⟨i, d, b, rfl⟩

@[simp] theorem inner_ofArray (a : TypeTree ι k.arrayForm) :
    k.inner (k.ofArray a) = k.dimension a := by
  rw [inner, asArray?_ofArray]
  rfl

@[simp] theorem innermost_ofArray (a : TypeTree ι k.arrayForm) :
    k.innermost (k.ofArray a) = k.base a := by
  rw [innermost, asArray?_ofArray]
  rfl

theorem inner_of_isBase (hb : b.IsBase) : k.inner b = 0 := by
  rw [inner, asArray?_of_isBase hb]
  rfl

theorem innermost_of_isBase (hb : b.IsBase) : k.innermost b = b := by
  rw [innermost, asArray?_of_isBase hb]
  rfl

/-- A type is `void`, or an array, or it may be the base of one. -/
theorem void_or_array_or_isBase (t : TypeTree ι k.form) :
    t.isVoid = true ∨ (∃ a, t = k.ofArray a) ∨ t.IsBase := by
  cases k with
  | descriptor =>
      cases t with
      | descVoid => exact Or.inl rfl
      | descArray a => exact Or.inr (Or.inl ⟨a, rfl⟩)
      | _ => exact Or.inr (Or.inr ⟨rfl, rfl⟩)
  | signature =>
      cases t with
      | sigVoid => exact Or.inl rfl
      | sigPrimitive p => exact Or.inr (Or.inr ⟨rfl, rfl⟩)
      | sigReference r =>
          cases r with
          | refArray a => exact Or.inr (Or.inl ⟨a, rfl⟩)
          | _ => exact Or.inr (Or.inr ⟨rfl, rfl⟩)

theorem flatten_of_isVoid (h : t.isVoid = true) :
    k.flatten d t = .error (.voidNotAllowed .arrayElement) := by
  cases k with
  | descriptor =>
      cases t with
      | descVoid => rfl
      | _ => exact nomatch h
  | signature =>
      cases t with
      | sigVoid => rfl
      | _ => exact nomatch h

theorem flatten_of_isBase (hb : b.IsBase) : k.flatten d b = (·, b) <$> checkDimension d := by
  cases k with
  | descriptor =>
      cases b with
      | descVoid => exact nomatch hb.1
      | descArray a => exact nomatch hb.2
      | _ => rfl
  | signature =>
      cases b with
      | sigVoid => exact nomatch hb.1
      | sigPrimitive p => rfl
      | sigReference r =>
          cases r with
          | refArray a => exact nomatch hb.2
          | _ => rfl

/-- The dimensions are added, unless none are asked for. -/
theorem flatten_ofArray (i : ι) :
    k.flatten d (k.ofArray (k.flat i n b)) =
      if d = 0 then (·, k.ofArray (k.flat i n b)) <$> checkDimension d
      else (·, b) <$> addDimension d n := by
  cases k <;> rfl

/-- The number that is reported where dimensions are refused: the sum, unless none were asked
for or there is no such number. -/
def reported (d n : Nat) : Nat :=
  if d = 0 ∨ dimensionLimit ≤ d + n then d else d + n

theorem reported_zero_right (d : Nat) : reported d 0 = d := by
  unfold reported
  split_ifs <;> rfl

theorem addDimension_eq (hd : d ≠ 0) (n : Nat) :
    addDimension d n =
      if d + n ≤ maxDimension then .ok (d + n) else .error (.invalidDimension (reported d n)) := by
  unfold addDimension checkDimension reported maxDimension dimensionLimit
  split_ifs <;> first | rfl | omega

/-- **Dimensions add up**, and only the sum is checked. -/
theorem flatten_eq (hvoid : t.isVoid = false) :
    k.flatten d t =
      if 1 ≤ d ∧ d + k.inner t ≤ maxDimension then .ok (d + k.inner t, k.innermost t)
      else .error (.invalidDimension (reported d (k.inner t))) := by
  rcases void_or_array_or_isBase t with h | ⟨a, rfl⟩ | hb
  · rw [h] at hvoid
    exact nomatch hvoid
  · obtain ⟨i, n, b, rfl⟩ := exists_eq_flat a
    rw [flatten_ofArray, inner_ofArray, innermost_ofArray, dimension_flat, base_flat]
    rcases Nat.eq_zero_or_pos d with rfl | hd
    · rw [if_pos rfl, if_neg (by omega), reported, if_pos (Or.inl rfl)]
      rfl
    · rw [if_neg (by omega), addDimension_eq (by omega)]
      by_cases hle : d + n ≤ maxDimension
      · rw [if_pos hle, if_pos ⟨hd, hle⟩]
        rfl
      · rw [if_neg hle, if_neg fun h => hle h.2]
        rfl
  · rw [flatten_of_isBase hb, inner_of_isBase hb, innermost_of_isBase hb, reported_zero_right,
      checkDimension]
    by_cases hd : 1 ≤ d ∧ d ≤ maxDimension
    · rw [if_pos hd, if_pos (by exact hd)]
      rfl
    · rw [if_neg hd, if_neg (by exact hd)]
      rfl

theorem makeArray_eq (k : TypeStyle) (d : Nat) (t : TypeTree ι k.form) :
    (k.makeArray d t : ExceptT TypeError m _) =
      checked (k.flatten d t) >>= fun x => intern (k.flat · x.1 x.2) := by
  cases k <;> rfl

end

/-! ## Without a pool -/

section

variable {k : TypeStyle} {b t : TypeTree Unit k.form} {d n : Nat}

theorem run_makeArray_of_isVoid (h : t.isVoid = true) :
    (k.makeArray d t : ExceptT TypeError Id _).run =
      .error (.construction (.voidNotAllowed .arrayElement)) := by
  rw [makeArray_eq, flatten_of_isVoid h]
  rfl

theorem run_makeArray (hvoid : t.isVoid = false) :
    (k.makeArray d t : ExceptT TypeError Id _).run =
      if 1 ≤ d ∧ d + k.inner t ≤ maxDimension then .ok (k.flat () (d + k.inner t) (k.innermost t))
      else .error (.construction (.invalidDimension (reported d (k.inner t)))) := by
  rw [makeArray_eq, flatten_eq hvoid]
  split_ifs <;> rfl

/-- The type with so many dimensions over a base. -/
def arrayed (k : TypeStyle) (n : Nat) (b : TypeTree Unit k.form) : TypeTree Unit k.form :=
  if n = 0 then b else k.ofArray (k.flat () n b)

theorem arrayed_of_pos (hn : 1 ≤ n) : k.arrayed n b = k.ofArray (k.flat () n b) :=
  if_neg (by omega)

theorem inner_arrayed (hb : b.IsBase) (n : Nat) : k.inner (k.arrayed n b) = n := by
  unfold arrayed
  split_ifs with hn
  · rw [inner_of_isBase hb, hn]
  · rw [inner_ofArray, dimension_flat]

theorem innermost_arrayed (hb : b.IsBase) (n : Nat) : k.innermost (k.arrayed n b) = b := by
  unfold arrayed
  split_ifs with hn
  · exact innermost_of_isBase hb
  · rw [innermost_ofArray, base_flat]

theorem isVoid_ofArray (a : TypeTree ι k.arrayForm) : (k.ofArray a).isVoid = false := by
  cases k <;> rfl

theorem isVoid_arrayed (hb : b.IsBase) (n : Nat) : (k.arrayed n b).isVoid = false := by
  unfold arrayed
  split_ifs with hn
  · exact hb.1
  · exact isVoid_ofArray _

theorem run_makeArray_arrayed (hb : b.IsBase) (n : Nat) :
    (k.makeArray d (k.arrayed n b) : ExceptT TypeError Id _).run =
      if 1 ≤ d ∧ d + n ≤ maxDimension then .ok (k.flat () (d + n) b)
      else .error (.construction (.invalidDimension (reported d n))) := by
  rw [run_makeArray (isVoid_arrayed hb n), inner_arrayed hb, innermost_arrayed hb]

theorem eq_flat (a : TypeTree Unit k.arrayForm) : a = k.flat () (k.dimension a) (k.base a) := by
  obtain ⟨i, d, b, rfl⟩ := exists_eq_flat a
  rw [dimension_flat, base_flat]

theorem wellFormed_ofArray {a : TypeTree ι k.arrayForm} :
    (k.ofArray a).WellFormed ↔ a.WellFormed := by
  cases k <;> exact Iff.rfl

theorem wellFormed_flat {i : ι} {b : TypeTree ι k.form} :
    (k.flat i d b).WellFormed ↔ (1 ≤ d ∧ d ≤ maxDimension) ∧ b.IsBase ∧ b.WellFormed := by
  cases k <;> exact Iff.rfl

/-- Below all dimensions of a well-formed type there is a base. -/
theorem innermost_isBase {t : TypeTree ι k.form} (ht : t.WellFormed) (hvoid : t.isVoid = false) :
    k.inner t ≤ maxDimension ∧ (k.innermost t).IsBase := by
  rcases void_or_array_or_isBase t with h | ⟨a, rfl⟩ | hb
  · rw [h] at hvoid
    exact nomatch hvoid
  · obtain ⟨i, d, b, rfl⟩ := exists_eq_flat a
    obtain ⟨⟨-, hmax⟩, hbase, -⟩ := wellFormed_flat.mp (wellFormed_ofArray.mp ht)
    rw [inner_ofArray, innermost_ofArray, dimension_flat, base_flat]
    exact ⟨hmax, hbase⟩
  · rw [inner_of_isBase hb, innermost_of_isBase hb]
    exact ⟨Nat.zero_le _, hb⟩

theorem eq_arrayed (ht : t.WellFormed) (hvoid : t.isVoid = false) :
    t = k.arrayed (k.inner t) (k.innermost t) := by
  rcases void_or_array_or_isBase t with h | ⟨a, rfl⟩ | hb
  · rw [h] at hvoid
    exact nomatch hvoid
  · obtain ⟨i, d, b, rfl⟩ := exists_eq_flat a
    obtain ⟨⟨hone, -⟩, -⟩ := wellFormed_flat.mp (wellFormed_ofArray.mp ht)
    rw [inner_ofArray, innermost_ofArray, dimension_flat, base_flat, arrayed_of_pos hone]
  · rw [inner_of_isBase hb, innermost_of_isBase hb]
    rfl

/-! ## Several steps -/

theorem wrapAll_cons (k : TypeStyle) (d : Nat) (ds : List Nat) (t : TypeTree ι k.form) :
    (k.wrapAll (d :: ds) t : ExceptT TypeError m _) =
      k.ofArray <$> k.makeArray d t >>= k.wrapAll ds :=
  rfl

/-- A step that is possible, and the steps behind it. -/
theorem run_wrapAll_cons_of_le (hb : b.IsBase) (hd : 1 ≤ d) (hle : d + n ≤ maxDimension)
    (ds : List Nat) :
    (k.wrapAll (d :: ds) (k.arrayed n b) : ExceptT TypeError Id _).run =
      (k.wrapAll ds (k.arrayed (d + n) b)).run := by
  have hstep := run_makeArray_arrayed (k := k) (d := d) hb n
  rw [if_pos ⟨hd, hle⟩] at hstep
  have hmap : (k.ofArray <$> k.makeArray d (k.arrayed n b) : ExceptT TypeError Id _) =
      pure (k.arrayed (d + n) b) := by
    refine run_map_eq_ok.mpr ⟨_, hstep, ?_⟩
    exact (arrayed_of_pos (n := d + n) (by omega)).symm
  rw [wrapAll_cons, hmap, pure_bind]

/-- A step that is not possible is the last one. -/
theorem run_wrapAll_cons_of_lt (hb : b.IsBase) (hlt : maxDimension < d + n) (ds : List Nat) :
    (k.wrapAll (d :: ds) (k.arrayed n b) : ExceptT TypeError Id _).run =
      .error (.construction (.invalidDimension (reported d n))) := by
  have hstep := run_makeArray_arrayed (k := k) (d := d) hb n
  rw [if_neg fun h => by omega] at hstep
  have hthrow : (k.makeArray d (k.arrayed n b) : ExceptT TypeError Id _) =
      throw (.construction (.invalidDimension (reported d n))) := hstep
  rw [wrapAll_cons, hthrow]
  rfl

theorem run_wrapAll_of_le (hb : b.IsBase) {ds : List Nat} (hds : ∀ d ∈ ds, 1 ≤ d)
    (hle : ds.sum + n ≤ maxDimension) :
    (k.wrapAll ds (k.arrayed n b) : ExceptT TypeError Id _).run =
      .ok (k.arrayed (ds.sum + n) b) := by
  induction ds generalizing n with
  | nil =>
      rw [List.sum_nil, Nat.zero_add]
      rfl
  | cons d ds ih =>
      obtain ⟨hd, hds⟩ := List.forall_mem_cons.mp hds
      have hsum : (d :: ds).sum + n = ds.sum + (d + n) := by
        rw [List.sum_cons]
        omega
      rw [hsum] at hle ⊢
      rw [run_wrapAll_cons_of_le hb hd (by omega), ih hds hle]

theorem run_wrapAll_of_lt (hb : b.IsBase) {ds : List Nat} (hds : ∀ d ∈ ds, 1 ≤ d)
    (hn : n ≤ maxDimension) (hlt : maxDimension < ds.sum + n) :
    ∃ d, (k.wrapAll ds (k.arrayed n b) : ExceptT TypeError Id _).run =
      .error (.construction (.invalidDimension d)) := by
  induction ds generalizing n with
  | nil =>
      rw [List.sum_nil] at hlt
      omega
  | cons d ds ih =>
      obtain ⟨hd, hds⟩ := List.forall_mem_cons.mp hds
      rw [List.sum_cons] at hlt
      by_cases hle : d + n ≤ maxDimension
      · -- This step is possible, so a later one is not.
        obtain ⟨e, he⟩ := ih hds hle (by omega)
        exact ⟨e, run_wrapAll_cons_of_le hb hd hle ds ▸ he⟩
      · exact ⟨reported d n, run_wrapAll_cons_of_lt hb (by omega) ds⟩

/-! ## Elements -/

/-- The elements of an array have one dimension fewer. -/
theorem component_flat (hd : 1 ≤ d) :
    (k.component (k.flat () d b) : Id _) = k.arrayed (d - 1) b := by
  rcases Nat.eq_or_lt_of_le hd with rfl | hlt
  · cases k <;> rfl
  · rw [arrayed_of_pos (by omega)]
    cases k with
    | descriptor => exact if_neg (by omega)
    | signature => exact if_neg (by omega)

/-- An array is the array of its elements. -/
theorem run_rebuild {a : TypeTree Unit k.arrayForm} (ha : a.WellFormed) :
    (k.rebuild a : ExceptT TypeError Id _).run = .ok a := by
  obtain ⟨i, d, b, rfl⟩ := exists_eq_flat a
  obtain ⟨⟨hone, hmax⟩, hbase, -⟩ := wellFormed_flat.mp ha
  refine run_bind_eq_ok.mpr ⟨k.arrayed (d - 1) b, congrArg Except.ok (component_flat hone), ?_⟩
  rw [run_makeArray_arrayed hbase, if_pos (by omega), Nat.add_sub_cancel' hone]

/-- After as many elements as there are dimensions comes the base. -/
theorem peel_arrayed (b : TypeTree Unit k.form) (n : Nat) :
    (k.peel n (k.arrayed n b) : Id _) = some b := by
  induction n with
  | zero => rfl
  | succ n ih =>
      rw [arrayed_of_pos (by omega), peel, asArray?_ofArray]
      show (k.peel n (k.component (k.flat () (n + 1) b) : Id _) : Id _) = some b
      rw [component_flat (by omega)]
      exact ih

end

/-! ## With a pool -/

section

open Pool

variable {k : TypeStyle} {canonical : Prop} {p : Pool} {d : Nat} {t : TypeTree Nat k.form}
  {u : TypeTree Unit k.form} {a : TypeTree Nat k.arrayForm} {a' : TypeTree Unit k.arrayForm}

theorem ofArray_plain (a : TypeTree Nat k.arrayForm) :
    (k.ofArray a).plain = k.ofArray a.plain := by
  cases k <;> rfl

theorem dimension_plain (a : TypeTree Nat k.arrayForm) : k.dimension a.plain = k.dimension a := by
  obtain ⟨i, d, b, rfl⟩ := exists_eq_flat a
  cases k <;> rfl

theorem base_plain (a : TypeTree Nat k.arrayForm) : k.base a.plain = (k.base a).plain := by
  obtain ⟨i, d, b, rfl⟩ := exists_eq_flat a
  cases k <;> rfl

theorem asArray?_plain (t : TypeTree Nat k.form) :
    k.asArray? t.plain = (k.asArray? t).map plain := by
  cases k with
  | descriptor => cases t <;> rfl
  | signature =>
      cases t with
      | sigReference r => cases r <;> rfl
      | _ => rfl

theorem inner_plain (t : TypeTree Nat k.form) : k.inner t.plain = k.inner t := by
  unfold inner
  rw [asArray?_plain]
  cases k.asArray? t with
  | none => rfl
  | some a => exact dimension_plain a

theorem innermost_plain (t : TypeTree Nat k.form) :
    k.innermost t.plain = (k.innermost t).plain := by
  unfold innermost
  rw [asArray?_plain]
  cases k.asArray? t with
  | none => rfl
  | some a => exact base_plain a

theorem eq_of_asArray? {t : TypeTree ι k.form} {a : TypeTree ι k.arrayForm}
    (h : k.asArray? t = some a) : t = k.ofArray a := by
  rcases void_or_array_or_isBase t with hvoid | ⟨a', rfl⟩ | hb
  · rw [asArray?_of_isVoid hvoid] at h
    exact nomatch h
  · rw [Option.some.inj ((asArray?_ofArray a').symm.trans h)]
  · rw [asArray?_of_isBase hb] at h
    exact nomatch h

theorem tagged_ofArray (h : Tagged canonical p a a') :
    Tagged canonical p (k.ofArray a) (k.ofArray a') := by
  cases k with
  | descriptor => exact h.descArray
  | signature => exact h.refArray.sigReference

theorem good_of_ofArray (h : p.Good canonical (k.ofArray a)) : p.Good canonical a := by
  cases k with
  | descriptor => exact h.of_mem_parts (List.mem_singleton_self _)
  | signature =>
      have hreference := h.of_mem_parts (List.mem_singleton_self _)
      exact hreference.of_mem_parts (List.mem_singleton_self _)

theorem refines_makeArray (d : Nat) (ht : Tagged canonical p t u) :
    Refines canonical (Tagged canonical) p (k.makeArray d t) (k.makeArray d u) := by
  cases k with
  | descriptor => exact refines_makeArrayDescriptor d ht
  | signature => exact refines_makeArrayType d ht

theorem runs_component (ha : p.Holds canonical a) :
    Runs canonical (Tagged canonical) p (k.component a) (k.component a.plain) := by
  cases k with
  | descriptor => exact runs_descriptorComponent ha
  | signature => exact runs_typeComponent ha

theorem refines_wrapAll (ds : List Nat) (ht : Tagged canonical p t u) :
    Refines canonical (Tagged canonical) p (k.wrapAll ds t) (k.wrapAll ds u) := by
  induction ds generalizing p t u with
  | nil => exact Refines.pure ht
  | cons d ds ih =>
      rw [wrapAll_cons, wrapAll_cons]
      apply Refines.bind (Refines.map (refines_makeArray d ht) fun _ _ _ => tagged_ofArray)
      intro q t' u' _ ht' _
      exact ih ht'

theorem refines_rebuild (ha : p.Holds canonical a) :
    Refines canonical (Tagged canonical) p (k.rebuild a) (k.rebuild a.plain) := by
  apply Refines.bind (Refines.lift (runs_component ha))
  intro q t u _ ht _
  exact refines_makeArray 1 ht

theorem runs_peel (n : Nat) (ht : Tagged canonical p t u) :
    Runs canonical (fun _ x y => x.map plain = y) p (k.peel n t) (k.peel n u) := by
  induction n generalizing p t u with
  | zero => exact Runs.pure (congrArg some ht.plain)
  | succ n ih =>
      obtain ⟨hgood, rfl⟩ := ht
      unfold peel
      rw [asArray?_plain]
      cases h : k.asArray? t with
      | none => exact Runs.pure rfl
      | some a =>
          obtain rfl := eq_of_asArray? h
          have ha := good_of_ofArray hgood
          apply Runs.bind (Runs.holding (u := a.plain) ha (runs_component ha.holds_hold))
          rintro q t' - ⟨ht', -⟩
          exact ih ht'

end

/-! ## Outcomes -/

/-- What is made of a type and `d` dimensions. Over `void` there is no array. Over any other
type there is one exactly if the sum of the dimensions is allowed: it has this dimension, over
the same innermost type. -/
structure BuildsFlat (k : TypeStyle) (d : Nat) (t : TypeTree Nat k.form)
    (o : Except TypeError (TypeTree Nat k.arrayForm)) : Prop where
  void : t.isVoid = true → o = .error (.construction (.voidNotAllowed .arrayElement))
  ok_iff : t.isVoid = false → ((∃ a, o = .ok a) ↔ 1 ≤ d ∧ d + k.inner t ≤ maxDimension)
  flat : ∀ a, o = .ok a →
    k.dimension a = d + k.inner t ∧ (k.base a).plain = (k.innermost t).plain ∧ (k.base a).IsBase
  refused : t.isVoid = false → ¬(1 ≤ d ∧ d + k.inner t ≤ maxDimension) →
    o = .error (.construction (.invalidDimension (reported d (k.inner t))))

/-- What is made in several steps and in one, if it is `n` dimensions altogether: the same
array, or none. -/
structure SameInStages (k : TypeStyle) (n : Nat) (staged : Except TypeError (TypeTree Nat k.form))
    (once : Except TypeError (TypeTree Nat k.arrayForm)) : Prop where
  same : n ≤ maxDimension → ∃ t a, staged = .ok t ∧ once = .ok a ∧
    t.plain = (k.ofArray a).plain ∧ k.dimension a = n
  refused : maxDimension < n → ∃ d e, staged = .error (.construction (.invalidDimension d)) ∧
    once = .error (.construction (.invalidDimension e))

section

variable {k : TypeStyle} {d : Nat} {t : TypeTree Nat k.form}

theorem BuildsFlat.of_plain (ht : t.WellFormed) {o : Except TypeError (TypeTree Nat k.arrayForm)}
    (h : o.map plain = (k.makeArray d t.plain : ExceptT TypeError Id _).run) :
    k.BuildsFlat d t o := by
  have hvoid : t.plain.isVoid = t.isVoid := isVoid_mapTags _ t
  by_cases htvoid : t.isVoid = true
  · rw [run_makeArray_of_isVoid (hvoid.trans htvoid), map_eq_error_iff] at h
    refine ⟨fun _ => h, fun hfalse => ?_, fun a ha => ?_, fun hfalse => ?_⟩
    · cases htvoid.symm.trans hfalse
    · cases h.symm.trans ha
    · cases htvoid.symm.trans hfalse
  · have htvoid : t.isVoid = false := Bool.eq_false_iff.mpr htvoid
    rw [run_makeArray (hvoid.trans htvoid), inner_plain, innermost_plain] at h
    by_cases hd : 1 ≤ d ∧ d + k.inner t ≤ maxDimension
    · rw [if_pos hd] at h
      obtain ⟨a, rfl, ha⟩ := Pool.map_eq_ok.mp h
      refine ⟨fun htrue => ?_, fun _ => ⟨fun _ => hd, fun _ => ⟨a, rfl⟩⟩, ?_, fun _ hn => ?_⟩
      · cases htvoid.symm.trans htrue
      · rintro a' ⟨⟩
        have hbase : (k.base a).plain = (k.innermost t).plain := by rw [← base_plain, ha, base_flat]
        refine ⟨by rw [← dimension_plain, ha, dimension_flat], hbase, ?_⟩
        rw [← isBase_mapTags (fun _ => ()), ← plain, hbase, plain, isBase_mapTags]
        exact (innermost_isBase ht htvoid).2
      · exact absurd hd hn
    · rw [if_neg hd, map_eq_error_iff] at h
      refine ⟨fun htrue => ?_, fun _ => ⟨?_, fun h => absurd h hd⟩, fun a ha => ?_, fun _ _ => h⟩
      · cases htvoid.symm.trans htrue
      · rintro ⟨a, ha⟩
        cases h.symm.trans ha
      · cases h.symm.trans ha

theorem one_le_sum {ds : List Nat} (hne : ds ≠ []) (hds : ∀ d ∈ ds, 1 ≤ d) : 1 ≤ ds.sum := by
  obtain ⟨d, hd⟩ := List.exists_mem_of_ne_nil ds hne
  exact List.sum_pos_iff_exists_pos_nat.mpr ⟨d, hd, hds d hd⟩

theorem SameInStages.of_plain (ht : t.WellFormed) (hvoid : t.isVoid = false) {ds : List Nat}
    (hne : ds ≠ []) (hds : ∀ d ∈ ds, 1 ≤ d) {staged : Except TypeError (TypeTree Nat k.form)}
    {once : Except TypeError (TypeTree Nat k.arrayForm)}
    (hstaged : staged.map plain = (k.wrapAll ds t.plain : ExceptT TypeError Id _).run)
    (honce : once.map plain = (k.makeArray ds.sum t.plain : ExceptT TypeError Id _).run) :
    k.SameInStages (ds.sum + k.inner t) staged once := by
  have ht' : t.plain.WellFormed := (wellFormed_plain t).mpr ht
  have hvoid' : t.plain.isVoid = false := (isVoid_mapTags _ t).trans hvoid
  obtain ⟨hmax, hb⟩ := innermost_isBase ht' hvoid'
  rw [eq_arrayed ht' hvoid'] at hstaged honce
  rw [run_makeArray_arrayed hb] at honce
  rw [← inner_plain]
  have hone := one_le_sum hne hds
  constructor
  · intro hle
    rw [run_wrapAll_of_le hb hds hle, arrayed_of_pos (by omega)] at hstaged
    rw [if_pos ⟨hone, hle⟩] at honce
    obtain ⟨u, rfl, hu⟩ := Pool.map_eq_ok.mp hstaged
    obtain ⟨a, rfl, ha⟩ := Pool.map_eq_ok.mp honce
    refine ⟨u, a, rfl, rfl, ?_, ?_⟩
    · rw [hu, ofArray_plain, ha]
    · rw [← dimension_plain, ha, dimension_flat]
  · intro hlt
    obtain ⟨d, hd⟩ := run_wrapAll_of_lt hb hds hmax hlt
    rw [hd, map_eq_error_iff] at hstaged
    rw [if_neg fun h => by omega, map_eq_error_iff] at honce
    exact ⟨_, _, hstaged, honce⟩

end

end TypeStyle

/-! ## In sessions -/

namespace Session

open Pool TypeTree TypeStyle

variable {s : Session} {f : Form}

/-- What a computation gives in a session. -/
def outcomeOf {α : Type} (s : Session) (x : ExceptT TypeError PoolM α) : Except TypeError α :=
  (x.run s.pool).1

/-- In a canonical session a tree that is held is what every computation gives that gives a
tree that is equal as a type. -/
theorem Valid.outcomeOf_eq_of_holds (h : s.Valid True)
    {x : ExceptT TypeError PoolM (TypeTree Nat f)} {y : ExceptT TypeError Id (TypeTree Unit f)}
    (hx : Refines True (Tagged True) s.pool x y) {t : TypeTree Nat f} (ht : s.Holds t)
    (hy : y.run = .ok t.plain) : s.outcomeOf x = .ok t := by
  obtain ⟨u, hu, huplain⟩ := Pool.map_eq_ok.mp ((hx.map_plain h.sound).trans hy)
  obtain ⟨hsound, hext, hR⟩ := hx h.sound
  change Outcome (Tagged True) _ (x.run s.pool).1 _ at hR
  rw [hu, hy] at hR
  have hnew : Tagged True (x.run s.pool).2 u t.plain := hR
  have hkept := h.holds_tree ht
  have hold := hext.good hkept.good hkept.kept
  -- The objects of both trees are registered after the run.
  obtain rfl : u = t := by
    refine TypeTree.eq_of_plain_eq ?_ huplain
    intro v hv w hw hplain
    exact eq_of_plain_eq (s := { s with pool := (x.run s.pool).2 }) hsound
      (hnew.good.registered trivial v hv) (hold.registered trivial w hw) hplain
  exact hu

/-- What holds of the arrays of a session: they are built flat, in steps or at once, an array
is the array of its elements, and elements of elements end at the base. -/
structure BuildsArrays (s : Session) (k : TypeStyle) : Prop where
  builds : ∀ t : TypeTree Nat k.form, s.Holds t → ∀ d,
    k.BuildsFlat d t (s.outcomeOf (k.makeArray d t))
  stages : ∀ t : TypeTree Nat k.form, s.Holds t → t.isVoid = false →
    ∀ ds : List Nat, ds ≠ [] → (∀ d ∈ ds, 1 ≤ d) →
      k.SameInStages (ds.sum + k.inner t) (s.outcomeOf (k.wrapAll ds t))
        (s.outcomeOf (k.makeArray ds.sum t))
  rebuilds : ∀ a : TypeTree Nat k.arrayForm, s.Holds a →
    (s.outcomeOf (k.rebuild a)).map plain = .ok a.plain
  peels : ∀ a : TypeTree Nat k.arrayForm, s.Holds a →
    ((k.peel (k.dimension a) (k.ofArray a) : PoolM _).run s.pool).1.map plain =
      some (k.base a).plain

/-- What holds if there is one object for each type: an array that is held is the one that
is built, in steps or at once, and the one that is put together again from its elements. -/
structure SharesArrays (s : Session) (k : TypeStyle) : Prop where
  stages : ∀ t : TypeTree Nat k.form, s.Holds t → t.isVoid = false →
    ∀ ds : List Nat, ds ≠ [] → (∀ d ∈ ds, 1 ≤ d) →
    ∀ a : TypeTree Nat k.arrayForm, s.Holds a → k.dimension a = ds.sum + k.inner t →
      (k.base a).plain = (k.innermost t).plain →
      s.outcomeOf (k.wrapAll ds t) = .ok (k.ofArray a) ∧
        s.outcomeOf (k.makeArray ds.sum t) = .ok a
  rebuilds : ∀ a : TypeTree Nat k.arrayForm, s.Holds a → s.outcomeOf (k.rebuild a) = .ok a

theorem Valid.tagged {canonical : Prop} (h : s.Valid canonical) {t : TypeTree Nat f}
    (ht : s.Holds t) : Tagged canonical s.pool t t.plain :=
  .of_good (h.holds_tree ht).good

theorem holds_ofArray {k : TypeStyle} {a : TypeTree Nat k.arrayForm} (h : s.Holds a) :
    s.Holds (k.ofArray a) := by
  cases k <;> exact h

theorem Valid.buildsArrays {canonical : Prop} (h : s.Valid canonical) (k : TypeStyle) :
    s.BuildsArrays k where
  builds t ht d := by
    refine .of_plain (h.holds_tree ht).good.wellFormed ?_
    exact (refines_makeArray d (h.tagged ht)).map_plain h.sound
  stages t ht hvoid ds hne hds := by
    refine .of_plain (h.holds_tree ht).good.wellFormed hvoid hne hds ?_ ?_
    · exact (refines_wrapAll ds (h.tagged ht)).map_plain h.sound
    · exact (refines_makeArray ds.sum (h.tagged ht)).map_plain h.sound
  rebuilds a ha := by
    have hheld := h.holds_tree ha
    rw [← run_rebuild ((wellFormed_plain a).mpr hheld.good.wellFormed)]
    exact (refines_rebuild hheld).map_plain h.sound
  peels a ha := by
    have hwf := (wellFormed_plain a).mpr (h.holds_tree ha).good.wellFormed
    obtain ⟨-, -, hpeel⟩ := runs_peel (k.dimension a)
      (tagged_ofArray (h.tagged ha)) h.sound
    have hflat := eq_arrayed (wellFormed_ofArray.mpr hwf)
      (isVoid_ofArray a.plain)
    rw [inner_ofArray, innermost_ofArray, dimension_plain,
      base_plain] at hflat
    rw [hflat] at hpeel
    exact hpeel.trans (peel_arrayed _ _)

theorem Valid.sharesArrays (h : s.Valid True) (k : TypeStyle) : s.SharesArrays k where
  stages t ht hvoid ds hne hds a ha hdimension hbase := by
    have ht' : t.plain.WellFormed := (wellFormed_plain t).mpr (h.holds_tree ht).good.wellFormed
    have hvoid' : t.plain.isVoid = false := (isVoid_mapTags _ t).trans hvoid
    have hone := one_le_sum hne hds
    have hflat : a.plain = k.flat () (ds.sum + k.inner t.plain) (k.innermost t.plain) := by
      rw [eq_flat a.plain, dimension_plain, base_plain, hdimension,
        hbase, inner_plain, innermost_plain]
    have ha' : a.plain.WellFormed := (wellFormed_plain a).mpr (h.holds_tree ha).good.wellFormed
    obtain ⟨⟨-, hle⟩, hb, -⟩ := wellFormed_flat.mp (hflat ▸ ha')
    constructor
    · refine h.outcomeOf_eq_of_holds (refines_wrapAll ds (h.tagged ht))
        (holds_ofArray ha) ?_
      rw [eq_arrayed ht' hvoid', run_wrapAll_of_le hb hds hle,
        arrayed_of_pos (by omega), ofArray_plain, hflat]
    · refine h.outcomeOf_eq_of_holds (refines_makeArray ds.sum (h.tagged ht)) ha ?_
      rw [run_makeArray hvoid', if_pos ⟨hone, hle⟩, hflat]
  rebuilds a ha := by
    have hheld := h.holds_tree ha
    exact h.outcomeOf_eq_of_holds (refines_rebuild hheld) ha
      (run_rebuild ((wellFormed_plain a).mpr hheld.good.wellFormed))

/-- **Arrays are flat, and exact at the limits.** In every session, for descriptors and for
signatures, what is built over a type is one array with all dimensions, exactly if there are
between 1 and 255 of them. Steps make no difference, and an array can be taken apart and put
together again. While the pool is on, these are not only equal arrays but the same ones. -/
theorem buildsArrays_of_start (c : Intern.Config) (steps : List Step) (k : TypeStyle) :
    let s := (start c).after steps
    s.BuildsArrays k ∧
      (c.enabled = true → (∀ st ∈ steps, st.keepsEnabled = true) → s.SharesArrays k) := by
  intro s
  refine ⟨(valid_after_start c steps).buildsArrays k, fun hc hsteps => ?_⟩
  have hvalid : s.Valid True := (valid_start c fun _ => hc).after steps fun _ => hsteps
  exact hvalid.sharesArrays k

/-- One dimension over 254 is allowed, two are not, and a dimension that fills the machine word
is refused as it is. -/
theorem buildsArrays_of_start_at_limit :
    let b : TypeTree Nat .typeSignature :=
      .sigReference (.refClass (.classType 0 .topLevel "a" .nil))
    let t : TypeTree Nat .typeSignature := .sigReference (.refArray (.arrayType 1 254 b))
    let a : TypeTree Nat .arrayType := .arrayType 2 255 b
    let s := (start {}).after
      [.value (.arrayType .checked 254 (.classType .checked none "a" [])) (some "t"),
        .value (.arrayType .checked 1 (.register "t")) (some "a")]
    s.Holds t ∧ s.Holds a ∧
      s.outcomeOf (makeArray .signature 1 t) = .ok a ∧
      s.outcomeOf (makeArray .signature 2 t) = .error (.construction (.invalidDimension 256)) ∧
      s.outcomeOf (makeArray .signature (2 ^ 64 - 1) t) =
        .error (.construction (.invalidDimension (2 ^ 64 - 1))) ∧
      s.outcomeOf (wrapAll .signature [100, 155] b) = .ok (.sigReference (.refArray a)) ∧
      s.outcomeOf (rebuild .signature a) = .ok a := by
  intro b t a s
  have ht : s.Holds t := by decide +kernel
  have ha : s.Holds a := by decide +kernel
  have hb : s.Holds b := by decide +kernel
  obtain ⟨hbuilds, hshares⟩ := buildsArrays_of_start {}
    [.value (.arrayType .checked 254 (.classType .checked none "a" [])) (some "t"),
      .value (.arrayType .checked 1 (.register "t")) (some "a")] .signature
  have hshared := hshares rfl (by decide)
  have hrefused : ∀ d, 2 ≤ d → s.outcomeOf (makeArray .signature d t) =
      .error (.construction (.invalidDimension (reported d 254))) :=
    fun d hd => (hbuilds.builds t ht d).refused rfl fun h => by
      have hle : d + 254 ≤ 255 := h.2
      omega
  exact ⟨ht, ha, (hshared.stages t ht rfl [1] (by decide) (by decide) a ha rfl rfl).2,
    hrefused 2 (by decide), hrefused (2 ^ 64 - 1) (by decide),
    (hshared.stages b hb rfl [100, 155] (by decide) (by decide) a ha rfl rfl).1,
    hshared.rebuilds a ha⟩

end Session

end ClassfileTypes
