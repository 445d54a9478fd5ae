import ClassfileTypes.Proofs.Tables
import Mathlib.Algebra.BigOperators.Group.Finset.Basic
import Mathlib.Algebra.GroupWithZero.Nat

/-!
# What purges and sweeps do

A sweep goes through the tables that are tracked, each once. It leaves a table alone whose
size has hardly changed, and purges the others; so it reports how many it left alone, and by
how much the others shrank. A purge of the registry is a sweep of all its tables that leaves
none alone.
-/

namespace ClassfileTypes.Intern.Registry

variable {κ ν : Type} [BEq κ] [LawfulBEq κ] {r r' r'' : Registry κ ν} {alive : ν → Bool}
  {kind k : κ} {threshold : Nat} {stats : PurgeStats} {e : Tracked κ} {es : List (Tracked κ)}

/-! ## One table -/

theorem table_purgeTable_self :
    (r.purgeTable alive kind).2.table kind = ((r.table kind).purge alive).2 := by
  show (r.replaceTable kind _).table kind = _
  by_cases h : kind ∈ r.kinds
  · exact table_replaceTable_self h
  · rw [table_of_notMem (by rwa [kinds_replaceTable]), table_of_notMem h, Table.purge_empty]

theorem table_purgeTable_of_ne (h : k ≠ kind) :
    (r.purgeTable alive kind).2.table k = r.table k :=
  table_replaceTable_of_ne h

theorem removed_purgeTable : (r.purgeTable alive kind).1 =
    r.count kind - (r.purgeTable alive kind).2.count kind := by
  unfold count
  rw [table_purgeTable_self]
  exact Table.removed_purge

omit [LawfulBEq κ] in
/-- A table whose size has hardly changed is left alone. -/
theorem sweepTable_of_lt (h : e.change (r.count e.kind) < threshold) :
    r.sweepTable alive threshold stats e =
      ({ stats with skipped := stats.skipped + 1 }, e, r) :=
  if_pos h

omit [LawfulBEq κ] in
/-- The others are purged, and tracked with their new size. -/
theorem sweepTable_of_le (h : threshold ≤ e.change (r.count e.kind)) :
    r.sweepTable alive threshold stats e =
      ({ stats with removed := stats.removed + (r.purgeTable alive e.kind).1 },
        { e with lastSize := (r.purgeTable alive e.kind).2.count e.kind },
        (r.purgeTable alive e.kind).2) :=
  if_neg (Nat.not_lt.mpr h)

section

omit [LawfulBEq κ]

theorem tables_sweepTable : (r.sweepTable alive threshold stats e).1.tables = stats.tables := by
  unfold sweepTable
  split_ifs <;> rfl

theorem kind_sweepTable : (r.sweepTable alive threshold stats e).2.1.kind = e.kind := by
  unfold sweepTable
  split_ifs <;> rfl

theorem skipped_sweepTable : (r.sweepTable alive threshold stats e).1.skipped =
    stats.skipped + if e.change (r.count e.kind) < threshold then 1 else 0 := by
  unfold sweepTable
  split_ifs <;> rfl

end

theorem removed_sweepTable : (r.sweepTable alive threshold stats e).1.removed =
    stats.removed +
      (r.count e.kind - (r.sweepTable alive threshold stats e).2.2.count e.kind) := by
  rcases Nat.lt_or_ge (e.change (r.count e.kind)) threshold with h | h
  · rw [sweepTable_of_lt h, Nat.sub_self]
    rfl
  · rw [sweepTable_of_le h, removed_purgeTable]

theorem table_sweepTable_of_ne (h : k ≠ e.kind) :
    (r.sweepTable alive threshold stats e).2.2.table k = r.table k := by
  unfold sweepTable
  split_ifs
  · rfl
  · exact table_purgeTable_of_ne h

/-! ## Purged or left alone -/

/-- Some tables are purged, and the registry is the same otherwise, but for what its sweeper
keeps track of. -/
structure Purges (alive : ν → Bool) (r r' : Registry κ ν) : Prop where
  config : r'.config = r.config
  enabled : r'.enabled = r.enabled
  kinds : r'.kinds = r.kinds
  table : ∀ k, r'.table k = r.table k ∨ r'.table k = ((r.table k).purge alive).2

namespace Purges

omit [LawfulBEq κ]

theorem refl : r.Purges alive r where
  config := rfl
  enabled := rfl
  kinds := rfl
  table _ := Or.inl rfl

theorem trans (h : r.Purges alive r') (h' : r'.Purges alive r'') : r.Purges alive r'' where
  config := h'.config.trans h.config
  enabled := h'.enabled.trans h.enabled
  kinds := h'.kinds.trans h.kinds
  table k := by
    rcases h.table k with heq | heq <;> rcases h'.table k with heq' | heq'
    · exact Or.inl (heq'.trans heq)
    · exact Or.inr (heq'.trans (by rw [heq]))
    · exact Or.inr (heq'.trans heq)
    · exact Or.inr (heq'.trans (by rw [heq, Table.purge_purge]))

end Purges

theorem purges_purgeTable : r.Purges alive (r.purgeTable alive kind).2 where
  config := rfl
  enabled := rfl
  kinds := kinds_replaceTable
  table k := by
    by_cases h : k = kind
    · exact Or.inr (h ▸ table_purgeTable_self)
    · exact Or.inl (table_purgeTable_of_ne h)

theorem purges_sweepTable : r.Purges alive (r.sweepTable alive threshold stats e).2.2 := by
  unfold sweepTable
  split_ifs
  · exact Purges.refl
  · exact purges_purgeTable

theorem purges_sweepTables :
    r.Purges alive (sweepTables alive threshold stats es r).2.2 := by
  induction es generalizing stats r with
  | nil => exact Purges.refl
  | cons e es ih => exact purges_sweepTable.trans ih

/-! ## A round through distinct tables -/

section

omit [LawfulBEq κ]

theorem sweepTables_cons : sweepTables alive threshold stats (e :: es) r =
    let one := r.sweepTable alive threshold stats e
    let rest := sweepTables alive threshold one.1 es one.2.2
    (rest.1, one.2.1 :: rest.2.1, rest.2.2) :=
  rfl

theorem tables_sweepTables :
    (sweepTables alive threshold stats es r).1.tables = stats.tables := by
  induction es generalizing stats r with
  | nil => rfl
  | cons e es ih => exact ih.trans tables_sweepTable

/-- The same tables are tracked. -/
theorem kinds_sweepTables : (sweepTables alive threshold stats es r).2.1.map Tracked.kind =
    es.map Tracked.kind := by
  induction es generalizing stats r with
  | nil => rfl
  | cons e es ih => exact List.cons_eq_cons.mpr ⟨kind_sweepTable, ih⟩

theorem tracking_sweepTables :
    (sweepTables alive threshold stats es r).2.2.sweeper = r.sweeper ∧
      (sweepTables alive threshold stats es r).2.2.pending = r.pending := by
  induction es generalizing stats r with
  | nil => exact ⟨rfl, rfl⟩
  | cons e es ih =>
      have hone : (r.sweepTable alive threshold stats e).2.2.sweeper = r.sweeper ∧
          (r.sweepTable alive threshold stats e).2.2.pending = r.pending := by
        unfold sweepTable
        split_ifs <;> exact ⟨rfl, rfl⟩
      exact ⟨ih.1.trans hone.1, ih.2.trans hone.2⟩

end

theorem table_sweepTables_of_notMem (h : k ∉ es.map Tracked.kind) :
    (sweepTables alive threshold stats es r).2.2.table k = r.table k := by
  induction es generalizing stats r with
  | nil => rfl
  | cons e es ih =>
      obtain ⟨hne, hrest⟩ := not_or.mp (mt List.mem_cons.mpr h)
      exact (ih hrest).trans (table_sweepTable_of_ne hne)

theorem count_sweepTables_of_notMem (h : k ∉ es.map Tracked.kind) :
    (sweepTables alive threshold stats es r).2.2.count k = r.count k :=
  congrArg Table.size (table_sweepTables_of_notMem h)

theorem count_sweepTable_of_mem (hnew : e.kind ∉ es.map Tracked.kind)
    (hk : k ∈ es.map Tracked.kind) :
    (r.sweepTable alive threshold stats e).2.2.count k = r.count k :=
  congrArg Table.size (table_sweepTable_of_ne fun heq => hnew (heq ▸ hk))

/-- **What is left alone** are the tables whose size has hardly changed. -/
theorem skipped_sweepTables (hnodup : (es.map Tracked.kind).Nodup) :
    (sweepTables alive threshold stats es r).1.skipped =
      stats.skipped + es.countP fun e => e.change (r.count e.kind) < threshold := by
  induction es generalizing stats r with
  | nil => rfl
  | cons e es ih =>
      obtain ⟨hnew, hrest⟩ := List.nodup_cons.mp hnodup
      have hcount : (es.countP fun e' =>
          e'.change ((r.sweepTable alive threshold stats e).2.2.count e'.kind) < threshold) =
            es.countP fun e' => e'.change (r.count e'.kind) < threshold :=
        List.countP_congr fun e' he' => by
          rw [count_sweepTable_of_mem hnew (List.mem_map_of_mem he')]
      rw [sweepTables_cons]
      dsimp only
      rw [ih hrest, skipped_sweepTable, hcount, List.countP_cons, Nat.add_assoc,
        Nat.add_comm (ite _ _ _)]
      simp only [decide_eq_true_eq]

/-- **What is removed** is what the tables lose. -/
theorem removed_sweepTables (hnodup : (es.map Tracked.kind).Nodup) :
    (sweepTables alive threshold stats es r).1.removed = stats.removed +
      ((es.map Tracked.kind).map fun k => r.count k -
        (sweepTables alive threshold stats es r).2.2.count k).sum := by
  induction es generalizing stats r with
  | nil => rfl
  | cons e es ih =>
      obtain ⟨hnew, hrest⟩ := List.nodup_cons.mp hnodup
      -- The later tables were not touched before, and this one is not touched again.
      have hself : (sweepTables alive threshold stats (e :: es) r).2.2.count e.kind =
          (r.sweepTable alive threshold stats e).2.2.count e.kind :=
        count_sweepTables_of_notMem hnew
      have hothers : ((es.map Tracked.kind).map fun k =>
          (r.sweepTable alive threshold stats e).2.2.count k -
            (sweepTables alive threshold stats (e :: es) r).2.2.count k) =
          (es.map Tracked.kind).map fun k => r.count k -
            (sweepTables alive threshold stats (e :: es) r).2.2.count k :=
        List.map_congr_left fun k hk => by rw [count_sweepTable_of_mem hnew hk]
      have hremoved : (sweepTables alive threshold stats (e :: es) r).1.removed =
          (r.sweepTable alive threshold stats e).1.removed +
            ((es.map Tracked.kind).map fun k =>
              (r.sweepTable alive threshold stats e).2.2.count k -
                (sweepTables alive threshold stats (e :: es) r).2.2.count k).sum :=
        ih hrest
      rw [hremoved, hothers, removed_sweepTable, List.map_cons, List.map_cons, List.sum_cons,
        hself, Nat.add_assoc]

/-! ## A purge of the registry -/

theorem table_sweepTables_zero (h : k ∈ es.map Tracked.kind) :
    (sweepTables alive 0 stats es r).2.2.table k = ((r.table k).purge alive).2 := by
  induction es generalizing stats r with
  | nil => cases h
  | cons e es ih =>
      have hself : (r.sweepTable alive 0 stats e).2.2.table e.kind =
          ((r.table e.kind).purge alive).2 := by
        rw [sweepTable_of_le (Nat.zero_le _)]
        exact table_purgeTable_self
      by_cases hmem : k ∈ es.map Tracked.kind
      · rw [sweepTables_cons]
        dsimp only
        rw [ih hmem]
        by_cases heq : k = e.kind
        · rw [heq, hself, Table.purge_purge]
        · rw [table_sweepTable_of_ne heq]
      · obtain rfl : k = e.kind := (List.mem_cons.mp h).resolve_right hmem
        exact (table_sweepTables_of_notMem hmem).trans hself

omit [BEq κ] [LawfulBEq κ] in
/-- The tables that a purge looks at are those of all kinds. -/
theorem map_kind_kinds :
    (r.tables.map fun e => ({ kind := e.1 } : Tracked κ)).map Tracked.kind = r.kinds := by
  rw [List.map_map]
  rfl

theorem purges_purge : r.Purges alive (r.purge alive).2 :=
  purges_sweepTables

/-- The table of each kind is purged. -/
theorem table_purge : (r.purge alive).2.table k = ((r.table k).purge alive).2 := by
  by_cases h : k ∈ r.kinds
  · exact table_sweepTables_zero (map_kind_kinds ▸ h)
  · rw [table_of_notMem h, table_of_notMem (by rwa [purges_purge.kinds]), Table.purge_empty]

theorem kindsDistinct_purge (h : r.KindsDistinct) : (r.purge alive).2.KindsDistinct := by
  unfold KindsDistinct
  rw [purges_purge.kinds]
  exact h

/-- A purge makes no table longer. -/
theorem count_purge_le : (r.purge alive).2.count k ≤ r.count k := by
  unfold count
  rw [table_purge]
  exact Table.size_purge_le

/-- **What a purge reports**: it looks at the tables of all kinds, leaves none alone, and
removes what they lose. -/
theorem stats_purge (h : r.KindsDistinct) : (r.purge alive).1 = ⟨r.kindCount, 0,
    (r.kinds.map fun k => r.count k - (r.purge alive).2.count k).sum⟩ := by
  have hnodup : ((r.tables.map fun e => ({ kind := e.1 } : Tracked κ)).map Tracked.kind).Nodup :=
    map_kind_kinds ▸ h
  have htables : (r.purge alive).1.tables = r.kindCount :=
    tables_sweepTables.trans (List.length_map _)
  have hskipped : (r.purge alive).1.skipped = 0 := by
    refine (skipped_sweepTables hnodup).trans ?_
    rw [Nat.zero_add, List.countP_eq_zero]
    intro e _
    rw [decide_eq_true_iff]
    exact Nat.not_lt_zero _
  have hremoved : (r.purge alive).1.removed =
      (r.kinds.map fun k => r.count k - (r.purge alive).2.count k).sum := by
    refine (removed_sweepTables hnodup).trans ?_
    rw [Nat.zero_add, map_kind_kinds]
    rfl
  rw [← htables, ← hskipped, ← hremoved]

/-- Kinds without a table lose nothing. -/
theorem sum_drop_eq [DecidableEq κ] (h : r.KindsDistinct) {kinds : List κ}
    (hnodup : kinds.Nodup) (hsub : r.kinds ⊆ kinds) :
    (kinds.map fun k => r.count k - (r.purge alive).2.count k).sum =
      (r.kinds.map fun k => r.count k - (r.purge alive).2.count k).sum := by
  rw [← List.sum_toFinset _ hnodup, ← List.sum_toFinset _ h]
  have htoFinset : r.kinds.toFinset ⊆ kinds.toFinset := fun k hk =>
    List.mem_toFinset.mpr (hsub (List.mem_toFinset.mp hk))
  refine (Finset.sum_subset htoFinset fun k _ hk => ?_).symm
  have hzero : r.count k = 0 := by
    unfold count
    rw [table_of_notMem (mt List.mem_toFinset.mpr hk)]
    rfl
  rw [hzero, Nat.zero_sub]

/-! ## The sweeper -/

omit [LawfulBEq κ] in
/-- Without a sweeper, no round takes place. -/
theorem sweep_of_none (h : r.sweeper = none) : r.sweep alive = (none, r) := by
  unfold sweep
  rw [h]

theorem purges_sweep : r.Purges alive (r.sweep alive).2 := by
  unfold sweep
  cases r.sweeper with
  | none => exact Purges.refl
  | some tracked =>
      have h : r.Purges alive
          (r.sweepCycle alive r.config.sweepThreshold tracked).2.2 := purges_sweepTables
      exact ⟨h.config, h.enabled, h.kinds, h.table⟩

end ClassfileTypes.Intern.Registry
