import ClassfileTypes.Intern.Registry
import Mathlib.Data.List.Nodup
import Mathlib.Tactic.Common

/-!
# What tables and registries keep

A table is read as the set of its entries. No operation makes a second entry for
a key; registering and purging lose the entries of dead values only, and the one
whose key is registered again. A registry is read as one table for each kind.
-/

namespace ClassfileTypes

/-- Values that are changed key by key. -/
theorem lookup_map_values {κ α β : Type} [BEq κ] [LawfulBEq κ] (g : κ → α → β) (k : κ)
    (l : List (κ × α)) :
    (l.map fun e => (e.1, g e.1 e.2)).lookup k = (l.lookup k).map (g k) := by
  induction l with
  | nil => rfl
  | cons e l ih =>
      obtain ⟨k', a⟩ := e
      rw [List.map_cons, List.lookup_cons, List.lookup_cons, ih]
      by_cases hk : k = k'
      · subst hk
        simp
      · rw [beq_false_of_ne hk]

theorem mem_of_lookup_eq_some {κ α : Type} [BEq κ] [LawfulBEq κ] {k : κ} {a : α}
    {l : List (κ × α)} (h : l.lookup k = some a) : (k, a) ∈ l := by
  obtain ⟨l₁, l₂, rfl, -⟩ := List.lookup_eq_some_iff.mp h
  exact List.mem_append_right _ (List.mem_cons_self ..)

namespace Intern

namespace Table

variable {ν : Type} {t : Table ν} {alive : ν → Bool} {key : String} {e : String × ν} {v : ν}

/-- No key occurs twice. -/
def KeysDistinct (t : Table ν) : Prop :=
  (t.entries.map Prod.fst).Nodup

theorem keysDistinct_empty : KeysDistinct ({} : Table ν) :=
  List.nodup_nil

theorem KeysDistinct.eq_of_key_eq (h : t.KeysDistinct) {e e' : String × ν} (he : e ∈ t.entries)
    (he' : e' ∈ t.entries) (hkey : e.1 = e'.1) : e = e' :=
  List.inj_on_of_nodup_map h he he' hkey

/-- Looking a key up finds the entry that the table has for it. -/
theorem lookup_eq_some_iff (h : t.KeysDistinct) :
    t.entries.lookup key = some v ↔ (key, v) ∈ t.entries := by
  constructor
  · intro hlookup
    obtain ⟨l₁, l₂, heq, -⟩ := List.lookup_eq_some_iff.mp hlookup
    rw [heq]
    exact List.mem_append_right _ (List.mem_cons_self ..)
  · intro hmem
    cases hlookup : t.entries.lookup key with
    | none =>
        have hne := List.lookup_eq_none_iff.mp hlookup (key, v) hmem
        simp at hne
    | some w =>
        obtain ⟨l₁, l₂, heq, -⟩ := List.lookup_eq_some_iff.mp hlookup
        have hw : (key, w) ∈ t.entries := by
          rw [heq]
          exact List.mem_append_right _ (List.mem_cons_self ..)
        exact congrArg some (Prod.mk.inj (h.eq_of_key_eq hw hmem rfl)).2

/-- **A key finds the live value that is registered for it, and nothing else.** -/
theorem find?_eq_some_iff (h : t.KeysDistinct) :
    t.find? alive key = some v ↔ (key, v) ∈ t.entries ∧ alive v = true := by
  unfold find?
  rw [Option.filter_eq_some_iff, lookup_eq_some_iff h]

/-- **A purge keeps exactly the entries of live values.** -/
theorem mem_purge : e ∈ (t.purge alive).2.entries ↔ e ∈ t.entries ∧ alive e.2 = true :=
  List.mem_filter

theorem keysDistinct_purge (h : t.KeysDistinct) : (t.purge alive).2.KeysDistinct :=
  List.Nodup.sublist (List.filter_sublist.map _) h

/-- A purge makes no table longer. -/
theorem size_purge_le : (t.purge alive).2.size ≤ t.size :=
  List.length_filter_le _ _

/-- A purge tells by how much the table shrinks. -/
theorem removed_purge : (t.purge alive).1 = t.size - (t.purge alive).2.size :=
  rfl

/-- A second purge changes nothing. -/
theorem purge_purge : ((t.purge alive).2.purge alive).2 = (t.purge alive).2 := by
  have hfilter : (t.purge alive).2.entries.filter (fun e => alive e.2) =
      (t.purge alive).2.entries :=
    List.filter_eq_self.mpr fun e he => (mem_purge.mp he).2
  show Table.mk _ _ = Table.mk _ _
  rw [hfilter]
  rfl

theorem purge_empty : (({} : Table ν).purge alive).2 = {} :=
  rfl

variable {s : Strategy}

/-- The entries of the table after a value is registered, before any purge. -/
theorem mem_replaced :
    e ∈ (key, v) :: t.entries.filter (fun e => e.1 != key) ↔
      e = (key, v) ∨ e ∈ t.entries ∧ e.1 ≠ key := by
  rw [List.mem_cons, List.mem_filter]
  simp

/-- What is in a table after a value is registered was there under another key, or
is the new entry. -/
theorem mem_of_mem_register (h : e ∈ (t.register s alive key v).entries) :
    e = (key, v) ∨ e ∈ t.entries ∧ e.1 ≠ key := by
  dsimp only [register] at h
  split_ifs at h with hpurge
  · exact mem_replaced.mp (mem_purge.mp h).1
  · exact mem_replaced.mp h

/-- Registering a value keeps the entries of live values, if their key is not registered
again. -/
theorem mem_register_of_mem (he : e = (key, v) ∨ e ∈ t.entries ∧ e.1 ≠ key)
    (halive : alive e.2 = true) : e ∈ (t.register s alive key v).entries := by
  dsimp only [register]
  split_ifs with hpurge
  · exact mem_purge.mpr ⟨mem_replaced.mpr he, halive⟩
  · exact mem_replaced.mpr he

/-- The new value is registered, whether or not the table purges itself: it is alive. -/
theorem self_mem_register (hv : alive v = true) : (key, v) ∈ (t.register s alive key v).entries :=
  mem_register_of_mem (Or.inl rfl) hv

/-- Registering a value keeps the live values of other keys. -/
theorem mem_register_of_alive (he : e ∈ t.entries) (hkey : e.1 ≠ key)
    (halive : alive e.2 = true) : e ∈ (t.register s alive key v).entries :=
  mem_register_of_mem (Or.inr ⟨he, hkey⟩) halive

theorem keysDistinct_register (h : t.KeysDistinct) :
    (t.register s alive key v).KeysDistinct := by
  have hfiltered : (t.entries.filter fun e => e.1 != key).map Prod.fst |>.Nodup :=
    List.Nodup.sublist (List.filter_sublist.map _) h
  have hreplaced : KeysDistinct
      { t with entries := (key, v) :: t.entries.filter fun e => e.1 != key } := by
    refine List.nodup_cons.mpr ⟨?_, hfiltered⟩
    intro hmem
    obtain ⟨e, he, hkey⟩ := List.mem_map.mp hmem
    simp [hkey] at he
  dsimp only [register]
  split_ifs with hpurge
  · exact keysDistinct_purge hreplaced
  · exact hreplaced

/-! ## What is found after a change -/

/-- **A purge does not change what is found.** -/
theorem find?_purge (h : t.KeysDistinct) :
    (t.purge alive).2.find? alive key = t.find? alive key := by
  apply Option.ext
  intro w
  have hpurged : (t.purge alive).2.KeysDistinct := keysDistinct_purge h
  rw [find?_eq_some_iff h, find?_eq_some_iff hpurged, mem_purge, and_assoc, and_self]

/-- The new value is found. -/
theorem find?_register_self (h : t.KeysDistinct) (hv : alive v = true) :
    (t.register s alive key v).find? alive key = some v :=
  (find?_eq_some_iff (keysDistinct_register h)).mpr ⟨self_mem_register hv, hv⟩

/-- Of the other keys, the same values are found as before, even if the table purges
itself. -/
theorem find?_register_of_ne (h : t.KeysDistinct) {k : String} (hk : k ≠ key) :
    (t.register s alive key v).find? alive k = t.find? alive k := by
  apply Option.ext
  intro w
  rw [find?_eq_some_iff h, find?_eq_some_iff (keysDistinct_register h)]
  constructor
  · rintro ⟨hmem, hw⟩
    rcases mem_of_mem_register hmem with heq | ⟨he, -⟩
    · exact absurd (congrArg Prod.fst heq) hk
    · exact ⟨he, hw⟩
  · rintro ⟨hmem, hw⟩
    exact ⟨mem_register_of_alive hmem hk hw, hw⟩

end Table

namespace Registry

variable {κ ν : Type} [BEq κ] {r : Registry κ ν} {kind k : κ} {t : Table ν}
  {alive : ν → Bool} {key : String} {v : ν}

/-! ## Acquiring -/

section

variable {m : Type → Type} [Monad m] {make : m ν} {alive : List ν → ν → Bool}

/-- While the registry is disabled, a value is made in any case. -/
theorem acquireWith_of_disabled (h : r.enabled = false) :
    r.acquireWith alive kind key make = (do let v ← make; pure (v, r)) := by
  unfold acquireWith
  rw [h]
  rfl

/-- The live value that is registered for the key is the answer, and nothing is made. -/
theorem acquireWith_of_find? [LawfulMonad m] {w : ν} (henabled : r.enabled = true)
    (h : (r.table kind).find? (alive []) key = some w) :
    r.acquireWith alive kind key make = pure (w, r.setTable kind (r.table kind)) := by
  simp [acquireWith, Table.acquireWith, henabled, h]

/-- Without one, a value is made and registered. -/
theorem acquireWith_of_find?_eq_none [LawfulMonad m] (henabled : r.enabled = true)
    (h : (r.table kind).find? (alive []) key = none) :
    r.acquireWith alive kind key make = (do
      let v ← make
      pure (v, r.setTable kind ((r.table kind).register r.config.strategy (alive [v]) key v))) := by
  simp [acquireWith, Table.acquireWith, henabled, h]

/-- **What is acquired** is what is found, or else what is made, once. -/
theorem fst_acquireWith [LawfulMonad m] :
    Prod.fst <$> r.acquireWith alive kind key make =
      (r.find? (alive []) kind key).elim make pure := by
  unfold find?
  cases henabled : r.enabled with
  | false => simp [acquireWith_of_disabled henabled]
  | true =>
      cases hfind : (r.table kind).find? (alive []) key with
      | some w => simp [acquireWith_of_find? henabled hfind]
      | none => simp [acquireWith_of_find?_eq_none henabled hfind]

end

theorem acquire_of_disabled (h : r.enabled = false) :
    r.acquire alive kind key v = (v, r) := by
  unfold acquire
  rw [acquireWith_of_disabled h]
  rfl

/-- The live value that is registered for the key is the answer. -/
theorem acquire_of_find? {w : ν} (henabled : r.enabled = true)
    (h : (r.table kind).find? alive key = some w) :
    r.acquire alive kind key v = (w, r.setTable kind (r.table kind)) := by
  unfold acquire
  rw [acquireWith_of_find? henabled h]
  rfl

/-- Without one, the candidate is registered. -/
theorem acquire_of_find?_eq_none (henabled : r.enabled = true)
    (h : (r.table kind).find? alive key = none) :
    r.acquire alive kind key v =
      (v, r.setTable kind ((r.table kind).register r.config.strategy alive key v)) := by
  unfold acquire
  rw [acquireWith_of_find?_eq_none henabled h]
  rfl

theorem fst_acquire :
    (r.acquire alive kind key v).1 = (r.find? alive kind key).getD v := by
  have hmade : Prod.fst <$> r.acquireWith (fun _ => alive) kind key (pure v : Id ν) =
      (r.find? alive kind key).elim (pure v) pure := fst_acquireWith
  refine hmade.trans ?_
  cases r.find? alive kind key <;> rfl

@[simp] theorem enabled_setTable : (r.setTable kind t).enabled = r.enabled := by
  unfold setTable
  split_ifs <;> rfl

@[simp] theorem config_setTable : (r.setTable kind t).config = r.config := by
  unfold setTable
  split_ifs <;> rfl

@[simp] theorem sweeper_setTable : (r.setTable kind t).sweeper = r.sweeper := by
  unfold setTable
  split_ifs <;> rfl

/-! ## The kinds that have a table -/

/-- The kinds that have a table. -/
def kinds (r : Registry κ ν) : List κ :=
  r.tables.map Prod.fst

omit [BEq κ] in
theorem length_kinds : r.kinds.length = r.kindCount :=
  List.length_map _

/-- No kind has two tables. -/
def KindsDistinct (r : Registry κ ν) : Prop :=
  r.kinds.Nodup

@[simp] theorem kinds_replaceTable : (r.replaceTable kind t).kinds = r.kinds := by
  have hkinds : Prod.fst ∘ (fun e : κ × Table ν => if e.1 == kind then (e.1, t) else e) =
      Prod.fst := by
    funext e
    dsimp only [Function.comp]
    split_ifs <;> rfl
  show (r.tables.map fun e => if e.1 == kind then (e.1, t) else e).map Prod.fst = _
  rw [List.map_map, hkinds]
  rfl

omit [BEq κ] in
@[simp] theorem kinds_addTable : (r.addTable kind t).kinds = r.kinds ++ [kind] :=
  List.map_append

variable [LawfulBEq κ]

theorem any_tables_iff : r.tables.any (·.1 == kind) = true ↔ kind ∈ r.kinds := by
  simp only [kinds, List.any_eq_true, beq_iff_eq, List.mem_map]

/-- A table is added for a kind that has none. -/
theorem kinds_setTable (r : Registry κ ν) (kind : κ) (t : Table ν) :
    (r.setTable kind t).kinds = r.kinds ∧ kind ∈ r.kinds ∨
      (r.setTable kind t).kinds = r.kinds ++ [kind] ∧ kind ∉ r.kinds := by
  unfold setTable
  split_ifs with hany
  · exact Or.inl ⟨kinds_replaceTable, any_tables_iff.mp hany⟩
  · exact Or.inr ⟨kinds_addTable, fun hmem => hany (any_tables_iff.mpr hmem)⟩

theorem kindsDistinct_setTable (h : r.KindsDistinct) : (r.setTable kind t).KindsDistinct := by
  unfold KindsDistinct
  rcases kinds_setTable r kind t with ⟨heq, -⟩ | ⟨heq, hnew⟩
  · exact heq ▸ h
  · rw [heq, ← List.concat_eq_append]
    exact List.Nodup.concat hnew h

/-! ## The table of a kind -/

theorem lookup_tables_eq_none_iff : r.tables.lookup kind = none ↔ kind ∉ r.kinds := by
  rw [List.lookup_eq_none_iff]
  constructor
  · intro h hmem
    obtain ⟨e, he, rfl⟩ := List.mem_map.mp hmem
    simpa using h e he
  · intro h e he
    rw [bne_iff_ne]
    rintro rfl
    exact h (List.mem_map_of_mem he)

/-- A kind without a table is as if its table were empty. -/
theorem table_of_notMem (h : kind ∉ r.kinds) : r.table kind = {} := by
  unfold table
  rw [lookup_tables_eq_none_iff.mpr h]
  rfl

theorem tables_replaceTable : (r.replaceTable kind t).tables =
    r.tables.map fun e => (e.1, if e.1 == kind then t else e.2) := by
  apply List.map_congr_left
  intro e _
  by_cases hkind : e.1 = kind <;> simp [hkind]

theorem table_replaceTable_of_ne (h : k ≠ kind) : (r.replaceTable kind t).table k = r.table k := by
  unfold table
  rw [tables_replaceTable, lookup_map_values (fun k' t' => if k' == kind then t else t')]
  simp [h]

theorem table_replaceTable_self (h : kind ∈ r.kinds) : (r.replaceTable kind t).table kind = t := by
  have hsome : r.tables.lookup kind ≠ none := mt lookup_tables_eq_none_iff.mp (not_not.mpr h)
  obtain ⟨t', ht'⟩ := Option.ne_none_iff_exists'.mp hsome
  unfold table
  rw [tables_replaceTable, lookup_map_values (fun k' t' => if k' == kind then t else t'), ht']
  simp

theorem table_addTable_of_ne (h : k ≠ kind) : (r.addTable kind t).table k = r.table k := by
  unfold addTable table
  rw [List.lookup_append]
  simp [List.lookup_cons, beq_false_of_ne h]

theorem table_addTable_self (h : kind ∉ r.kinds) : (r.addTable kind t).table kind = t := by
  unfold addTable table
  rw [List.lookup_append, lookup_tables_eq_none_iff.mpr h]
  simp

theorem table_setTable_self : (r.setTable kind t).table kind = t := by
  unfold setTable
  split_ifs with hany
  · exact table_replaceTable_self (any_tables_iff.mp hany)
  · exact table_addTable_self fun hmem => hany (any_tables_iff.mpr hmem)

theorem table_setTable_of_ne (h : k ≠ kind) : (r.setTable kind t).table k = r.table k := by
  unfold setTable
  split_ifs
  · exact table_replaceTable_of_ne h
  · exact table_addTable_of_ne h

theorem table_setTable_table : (r.setTable kind (r.table kind)).table k = r.table k := by
  by_cases hk : k = kind
  · rw [hk, table_setTable_self]
  · exact table_setTable_of_ne hk

end Registry

end Intern

end ClassfileTypes
