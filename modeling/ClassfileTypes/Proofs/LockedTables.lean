import ClassfileTypes.Proofs.TableSteps
import Mathlib.Algebra.Order.BigOperators.Group.Finset
import Mathlib.Tactic.Common

/-!
# A locked table stays proportional to what is alive

A run is looked at moment by moment: after each value that a step acquires, while this is alive,
and after the step. The history of a run says when a table was purged, how many
entries were left then, and how many registered values were alive. A table that purges itself
is never twice as long as the last purge left it, or shorter than the least size at which
it does; so its size is bounded by how many of its values were alive at once.

A value that is registered for several keys has an entry for each, and is counted as often
here. The values themselves bound the size only together with the number of keys that a
value has. Where nothing is offered that is held already, that is one, and either count is
the other.
-/

namespace ClassfileTypes.Intern

/-! ## The history of a run -/

/-- What can be seen at one moment of a run. -/
structure Moment where
  registry : Registry String Object
  /-- Who is alive. -/
  alive : Object → Bool
  /-- The kinds whose table was purged just before. -/
  purged : String → Bool
  /-- What was acquired just before from an enabled registry: its kind, its key, and the
  value. -/
  acquired : Option (String × String × Object)

namespace Moment

/-- How many registered values of a kind are alive, each counted for every key that it is
registered for. -/
def living (m : Moment) (kind : String) : Nat :=
  (m.registry.table kind).entries.countP fun e => m.alive e.2

/-- How many registered values of a kind are alive, each counted once. -/
def values (m : Moment) (kind : String) : Nat :=
  (((m.registry.table kind).entries.filter fun e => m.alive e.2).map
    fun e => e.2.identity).toFinset.card

end Moment

/-- How many entries of a kind the last purge of its table kept; 0 before any. -/
def lastKept (ms : List Moment) (kind : String) : Nat :=
  ms.foldl (fun n m => if m.purged kind then m.registry.count kind else n) 0

/-- Whether a locked table purges itself when the key is registered. -/
def Table.overflows {ν : Type} (s : Strategy) (t : Table ν) (key : String) : Bool :=
  s = .locked ∧ t.purgeAt ≤ (t.entries.filter fun e => e.1 != key).length + 1

/-- Whether acquiring a value for the key purges the table of the kind. -/
def Registry.overflows {κ ν : Type} [BEq κ] (alive : List ν → ν → Bool) (r : Registry κ ν)
    (kind : κ) (key : String) : Bool :=
  r.enabled && ((r.table kind).find? (alive []) key).isNone &&
    (r.table kind).overflows r.config.strategy key

namespace Holders

/-- The moment when a value has been acquired, but is not yet held in a place. -/
def acquisition (h : Holders) (alive : List Object → Object → Bool) (kind key : String)
    (o : Object) (h' : Holders) : Moment where
  registry := h'.registry
  alive := alive [o]
  purged k := k == kind && h.registry.overflows alive kind key
  acquired := if h.registry.enabled then some (kind, key, o) else none

/-- The moment after a step. A locked registry has no sweeper, so that its tables are purged
by a step only if it says so. -/
def outcome (h : Holders) (st : Step) : Moment where
  registry := (h.step st).2.registry
  alive := (h.step st).2.alive
  purged _ := st matches .purge
  acquired := none

end Holders

/-! ## What registering a value does to the size -/

namespace Table

variable {ν : Type} {t : Table ν} {s : Strategy} {alive : ν → Bool} {key : String} {v : ν}

theorem register_of_overflows (h : t.overflows s key = true) :
    t.register s alive key v =
      (({ t with entries := (key, v) :: t.entries.filter fun e => e.1 != key } : Table ν).purge
        alive).2 :=
  if_pos (of_decide_eq_true h)

theorem register_of_not_overflows (h : t.overflows s key = false) :
    t.register s alive key v =
      { t with entries := (key, v) :: t.entries.filter fun e => e.1 != key } :=
  if_neg (of_decide_eq_false h)

/-- A table that purges itself is to do so again when it has doubled. -/
theorem purgeAt_register_of_overflows (h : t.overflows s key = true) :
    (t.register s alive key v).purgeAt =
      max (2 * (t.register s alive key v).size) minimumPurge := by
  rw [register_of_overflows h]
  rfl

/-- A table that purges itself keeps what is alive only. -/
theorem alive_of_mem_register (h : t.overflows s key = true) {e : String × ν}
    (he : e ∈ (t.register s alive key v).entries) : alive e.2 = true := by
  rw [register_of_overflows h] at he
  exact (mem_purge.mp he).2

theorem purgeAt_register_of_not_overflows (h : t.overflows s key = false) :
    (t.register s alive key v).purgeAt = t.purgeAt := by
  rw [register_of_not_overflows h]

/-- A locked table that does not purge itself has not reached the size for it. -/
theorem size_register_lt (h : t.overflows .locked key = false) :
    (t.register .locked alive key v).size < t.purgeAt := by
  rw [register_of_not_overflows h]
  have hsize := of_decide_eq_false h
  rw [not_and] at hsize
  exact Nat.lt_of_not_le (hsize rfl)

end Table

/-! ## One moment after another -/

/-- A moment follows on a registry: a table that was purged has entries of living values only
and is to be purged again when it has doubled; another keeps its size for that, and has
not reached it if it had not before; and what was acquired has an entry and is alive. No
sweeper is started. -/
structure Follows (r : Registry String Object) (m : Moment) : Prop where
  config : m.registry.config = r.config
  sweeper : r.sweeper = none → m.registry.sweeper = none
  purgeAt : ∀ kind, m.purged kind = true →
    (m.registry.table kind).purgeAt = max (2 * m.registry.count kind) minimumPurge
  living : ∀ kind, m.purged kind = true →
    ∀ e ∈ (m.registry.table kind).entries, m.alive e.2 = true
  purgeAt_eq : ∀ kind, m.purged kind = false →
    (m.registry.table kind).purgeAt = (r.table kind).purgeAt
  count_lt : r.config.strategy = .locked → ∀ kind, m.purged kind = false →
    r.count kind < (r.table kind).purgeAt → m.registry.count kind < (r.table kind).purgeAt
  acquired : ∀ kind key o, m.acquired = some (kind, key, o) →
    (key, o) ∈ (m.registry.table kind).entries ∧ m.alive o = true

namespace Follows

variable {r : Registry String Object} {m : Moment}

/-- Some tables are purged, and the others do not change. -/
theorem of_purge (hconfig : m.registry.config = r.config)
    (hsweeper : r.sweeper = none → m.registry.sweeper = none)
    (hpurged : ∀ kind, m.purged kind = true →
      m.registry.table kind = ((r.table kind).purge m.alive).2)
    (hothers : ∀ kind, m.purged kind = false → m.registry.table kind = r.table kind)
    (hacquired : ∀ kind key o, m.acquired = some (kind, key, o) →
      (key, o) ∈ (m.registry.table kind).entries ∧ m.alive o = true) : Follows r m where
  config := hconfig
  sweeper := hsweeper
  purgeAt kind h := by
    unfold Registry.count
    rw [hpurged kind h]
    rfl
  living kind h e he := by
    rw [hpurged kind h] at he
    exact (Table.mem_purge.mp he).2
  purgeAt_eq kind h := by rw [hothers kind h]
  count_lt _ kind h hlt := by
    unfold Registry.count
    rw [hothers kind h]
    exact hlt
  acquired := hacquired

/-- No table changes. -/
theorem unchanged (hconfig : m.registry.config = r.config)
    (hsweeper : r.sweeper = none → m.registry.sweeper = none)
    (htable : ∀ kind, m.registry.table kind = r.table kind)
    (hpurged : ∀ kind, m.purged kind = false)
    (hacquired : ∀ kind key o, m.acquired = some (kind, key, o) →
      (key, o) ∈ (m.registry.table kind).entries ∧ m.alive o = true) : Follows r m :=
  of_purge hconfig hsweeper (fun kind h => by rw [hpurged] at h; cases h)
    (fun kind _ => htable kind) hacquired

end Follows

/-! ## Acquiring a value -/

namespace Registry.Acquires

variable {h h' : Holders} {alive : List Object → Object → Bool} {kind key : String} {o : Object}

/-- What was acquired is alive, and has the entry that it is given. -/
theorem acquired_acquisition (ha : h.registry.Acquires h'.registry alive kind key o)
    (hentry : h.registry.enabled = true → (key, o) ∈ (h'.registry.table kind).entries)
    (k l : String) (w : Object)
    (hacquired : (h.acquisition alive kind key o h').acquired = some (k, l, w)) :
    (l, w) ∈ (h'.registry.table k).entries ∧ alive [o] w = true := by
  change (if h.registry.enabled then some (kind, key, o) else none) = some (k, l, w) at hacquired
  split_ifs at hacquired with henabled
  obtain ⟨rfl, rfl, rfl⟩ : kind = k ∧ key = l ∧ o = w := by simpa using hacquired
  exact ⟨hentry henabled, ha.living⟩

/-- A value is found, or the registry is disabled. -/
theorem follows_of_same (ha : h.registry.Acquires h'.registry alive kind key o)
    (hsame : h'.registry.table kind = h.registry.table kind)
    (hfound : h.registry.enabled = true →
      (h.registry.table kind).find? (alive []) key = some o) :
    Follows h.registry (h.acquisition alive kind key o h') := by
  have hoverflows : h.registry.overflows alive kind key = false := by
    unfold Registry.overflows
    cases henabled : h.registry.enabled with
    | false => rfl
    | true =>
        rw [hfound henabled]
        rfl
  refine Follows.unchanged ha.config (fun hnone => ha.sweeper.trans hnone) (fun k => ?_)
    (fun k => ?_) (ha.acquired_acquisition fun henabled => ?_)
  · by_cases hk : k = kind
    · rw [hk]
      exact hsame
    · exact ha.others hk
  · show (k == kind && h.registry.overflows alive kind key) = false
    rw [hoverflows, Bool.and_false]
  · rw [hsame]
    exact mem_of_lookup_eq_some (Option.filter_eq_some_iff.mp (hfound henabled)).1

/-- A value is registered. -/
theorem follows_of_register (ha : h.registry.Acquires h'.registry alive kind key o)
    (henabled : h.registry.enabled = true)
    (hnone : (h.registry.table kind).find? (alive []) key = none)
    (hregister : h'.registry.table kind = (h.registry.table kind).register
      h.registry.config.strategy (alive [o]) key o) :
    Follows h.registry (h.acquisition alive kind key o h') := by
  have hoverflows : h.registry.overflows alive kind key =
      (h.registry.table kind).overflows h.registry.config.strategy key := by
    unfold Registry.overflows
    rw [henabled, hnone]
    rfl
  -- Only the table of the kind may have purged itself.
  have hpurged : ∀ k, (h.acquisition alive kind key o h').purged k = true ↔
      k = kind ∧ (h.registry.table kind).overflows h.registry.config.strategy key = true := by
    intro k
    show (k == kind && h.registry.overflows alive kind key) = true ↔ _
    rw [hoverflows, Bool.and_eq_true, beq_iff_eq]
  have hnot : ∀ {k}, (h.acquisition alive kind key o h').purged k = false → k = kind →
      (h.registry.table kind).overflows h.registry.config.strategy key = false := by
    intro k hk heq
    rw [← Bool.not_eq_true] at hk ⊢
    exact fun hover => hk ((hpurged k).mpr ⟨heq, hover⟩)
  refine ⟨ha.config, fun hsweeper => ha.sweeper.trans hsweeper, fun k hk => ?_,
    fun k hk e he => ?_, fun k hk => ?_, fun hlocked k hk hlt => ?_,
    ha.acquired_acquisition fun _ => ?_⟩
  · obtain ⟨rfl, hover⟩ := (hpurged k).mp hk
    show (h'.registry.table k).purgeAt = max (2 * (h'.registry.table k).size) minimumPurge
    rw [hregister]
    exact Table.purgeAt_register_of_overflows hover
  · obtain ⟨rfl, hover⟩ := (hpurged k).mp hk
    change e ∈ (h'.registry.table k).entries at he
    rw [hregister] at he
    exact Table.alive_of_mem_register hover he
  · show (h'.registry.table k).purgeAt = _
    by_cases heq : k = kind
    · have hover := hnot hk heq
      rw [heq, hregister]
      exact Table.purgeAt_register_of_not_overflows hover
    · rw [ha.others heq]
  · show (h'.registry.table k).size < _
    by_cases heq : k = kind
    · have hover := hnot hk heq
      rw [hlocked] at hover
      rw [heq, hregister, hlocked]
      exact Table.size_register_lt hover
    · rw [ha.others heq]
      exact hlt
  · rw [hregister]
    exact Table.self_mem_register ha.living

/-- **Acquiring a value**, found or registered. -/
theorem follows (ha : h.registry.Acquires h'.registry alive kind key o) :
    Follows h.registry (h.acquisition alive kind key o h') := by
  rcases ha.self with ⟨hsame, hfound⟩ | ⟨henabled, hnone, hregister⟩
  · exact ha.follows_of_same hsame hfound
  · exact ha.follows_of_register henabled hnone hregister

end Registry.Acquires

namespace Holders

end Holders

/-! ## A run -/

/-- Each moment follows on the one before; the first on `r`, and the last is of `r'`. -/
def Leads (r : Registry String Object) : List Moment → Registry String Object → Prop
  | [], r' => r' = r
  | m :: ms, r' => Follows r m ∧ Leads m.registry ms r'

namespace Leads

variable {r r' r'' : Registry String Object} {ms ms' : List Moment} {m : Moment}

theorem append (h : Leads r ms r') (h' : Leads r' ms' r'') : Leads r (ms ++ ms') r'' := by
  induction ms generalizing r with
  | nil =>
      obtain rfl : r' = r := h
      exact h'
  | cons m ms ih => exact ⟨h.1, ih h.2⟩

theorem sweeper (h : Leads r ms r') (hnone : r.sweeper = none) : r'.sweeper = none := by
  induction ms generalizing r with
  | nil =>
      obtain rfl : r' = r := h
      exact hnone
  | cons m ms ih => exact ih h.2 (h.1.sweeper hnone)

end Leads

namespace Holders

end Holders

/-! ## The bound -/

theorem lastKept_append {ms : List Moment} {m : Moment} {kind : String} :
    lastKept (ms ++ [m]) kind =
      if m.purged kind then m.registry.count kind else lastKept ms kind := by
  unfold lastKept
  rw [List.foldl_append, List.foldl_cons, List.foldl_nil]

/-- The table of a kind after some moments: it has not reached the size at which it purges
itself, which is what the last purge has set; and what that purge kept was alive. -/
structure Bounded (kind : String) (ms : List Moment) (r : Registry String Object) : Prop where
  locked : r.config.strategy = .locked
  count_lt : r.count kind < (r.table kind).purgeAt
  purgeAt : (r.table kind).purgeAt = max (2 * lastKept ms kind) minimumPurge
  kept : lastKept ms kind = 0 ∨ ∃ m ∈ ms, lastKept ms kind = m.living kind

namespace Bounded

variable {kind : String} {ms ms' : List Moment} {r r' : Registry String Object} {m : Moment}

theorem new {config : Config} (hlocked : config.strategy = .locked) :
    Bounded kind [] (Holders.new config).registry where
  locked := hlocked
  count_lt := Nat.zero_lt_succ _
  purgeAt := rfl
  kept := Or.inl rfl

/-- **One moment.** -/
theorem follows (hb : Bounded kind ms r) (hf : Follows r m) :
    Bounded kind (ms ++ [m]) m.registry := by
  have hlocked : m.registry.config.strategy = .locked := hf.config ▸ hb.locked
  cases hpurged : m.purged kind with
  | true =>
      have hlast : lastKept (ms ++ [m]) kind = m.registry.count kind := by
        rw [lastKept_append, if_pos hpurged]
      have hliving : m.registry.count kind = m.living kind :=
        (List.countP_eq_length.mpr (hf.living kind hpurged)).symm
      have hpurgeAt := hf.purgeAt kind hpurged
      refine ⟨hlocked, ?_, by rw [hlast, hpurgeAt], Or.inr ⟨m, ?_, hlast.trans hliving⟩⟩
      · rw [hpurgeAt, minimumPurge]
        omega
      · exact List.mem_append_right _ (List.mem_singleton_self m)
  | false =>
      have hlast : lastKept (ms ++ [m]) kind = lastKept ms kind := by
        rw [lastKept_append, if_neg (by rw [hpurged]; exact Bool.false_ne_true)]
      refine ⟨hlocked, ?_, ?_, ?_⟩
      · rw [hf.purgeAt_eq kind hpurged]
        exact hf.count_lt hb.locked kind hpurged hb.count_lt
      · rw [hf.purgeAt_eq kind hpurged, hlast]
        exact hb.purgeAt
      · rw [hlast]
        refine hb.kept.imp_right ?_
        rintro ⟨m', hm', heq⟩
        exact ⟨m', List.mem_append_left _ hm', heq⟩

/-- **A history.** -/
theorem leads (hb : Bounded kind ms r) (hl : Leads r ms' r') : Bounded kind (ms ++ ms') r' := by
  induction ms' generalizing ms r with
  | nil =>
      obtain rfl : r' = r := hl
      rw [List.append_nil]
      exact hb
  | cons m ms' ih =>
      have hnext := ih (hb.follows hl.1) hl.2
      rwa [List.append_assoc, List.singleton_append] at hnext

end Bounded

/-! ## Values and keys -/

/-- In no table, a value has two keys; and all that have one are older than `next`. -/
structure Single (r : Registry String Object) (next : Nat) : Prop where
  nodup : ∀ kind, ((r.table kind).entries.map fun e => e.2.identity).Nodup
  older : ∀ kind, ∀ e ∈ (r.table kind).entries, e.2.identity < next

namespace Single

variable {r r' : Registry String Object} {next next' : Nat}

/-- Entries may be lost. -/
theorem of_sublist (hs : Single r next)
    (h : ∀ kind, (r'.table kind).entries.Sublist (r.table kind).entries) : Single r' next where
  nodup kind := (hs.nodup kind).sublist ((h kind).map _)
  older kind e he := hs.older kind e ((h kind).subset he)

theorem of_tables (hs : Single r next) (h : ∀ kind, r'.table kind = r.table kind) :
    Single r' next :=
  hs.of_sublist fun kind => h kind ▸ List.Sublist.refl _

theorem of_le (hs : Single r next) (h : next ≤ next') : Single r next' where
  nodup := hs.nodup
  older kind e he := Nat.lt_of_lt_of_le (hs.older kind e he) h

/-- A new value may be registered. -/
theorem register (hs : Single r next) {s : Strategy} {alive : Object → Bool} {kind key : String}
    {o : Object} (ho : o.identity = next) :
    Single (r.setTable kind ((r.table kind).register s alive key o)) (next + 1) := by
  have hentries : ((r.table kind).register s alive key o).entries.Sublist
      ((key, o) :: (r.table kind).entries.filter fun e => e.1 != key) := by
    dsimp only [Table.register]
    split_ifs
    · exact List.filter_sublist
    · exact List.Sublist.refl _
  have hnew : o.identity ∉ (r.table kind).entries.map fun e => e.2.identity := by
    intro hmem
    obtain ⟨e, he, heq⟩ := List.mem_map.mp hmem
    exact Nat.lt_irrefl _ (ho ▸ heq ▸ hs.older kind e he)
  refine ⟨fun k => ?_, fun k e he => ?_⟩
  · by_cases hk : k = kind
    · rw [hk, Registry.table_setTable_self]
      refine List.Nodup.sublist (hentries.map _) (List.nodup_cons.mpr ⟨fun hmem => hnew ?_, ?_⟩)
      · exact (List.filter_sublist.map _).subset hmem
      · exact (hs.nodup kind).sublist (List.filter_sublist.map _)
    · rw [Registry.table_setTable_of_ne hk]
      exact hs.nodup k
  · by_cases hk : k = kind
    · rw [hk, Registry.table_setTable_self] at he
      rcases Table.mem_of_mem_register he with rfl | ⟨hmem, -⟩
      · exact Nat.lt_succ_of_le (Nat.le_of_eq ho)
      · exact Nat.lt_succ_of_lt (hs.older kind e hmem)
    · rw [Registry.table_setTable_of_ne hk] at he
      exact Nat.lt_succ_of_lt (hs.older k e he)

theorem acquireWith {h : Holders} (hs : Single h.registry h.next) (kept : List Object)
    (kind key content : String) :
    Single (h.acquireWith kept kind key content).2.2.registry
      (h.acquireWith kept kind key content).2.2.next := by
  cases henabled : h.registry.enabled with
  | false =>
      rw [Holders.acquireWith_of_disabled henabled]
      exact hs.of_le (Nat.le_succ _)
  | true =>
      cases hfind : (h.registry.table kind).find? (h.aliveWith kept) key with
      | some o =>
          rw [Holders.acquireWith_of_find? henabled hfind]
          exact hs.of_tables fun _ => Registry.table_setTable_table
      | none =>
          rw [Holders.acquireWith_of_find?_eq_none henabled hfind]
          exact hs.register rfl

theorem offer {h : Holders} {candidate : Object} (hs : Single h.registry candidate.identity)
    (key : String) : Single (h.offer key candidate).2.2.registry (candidate.identity + 1) := by
  cases henabled : h.registry.enabled with
  | false =>
      rw [Holders.offer_of_disabled henabled]
      exact hs.of_le (Nat.le_succ _)
  | true =>
      cases hfind : (h.registry.table candidate.kind).find? (h.aliveWith [candidate]) key with
      | some o =>
          rw [Holders.offer_of_find? henabled hfind]
          exact (hs.of_le (Nat.le_succ _)).of_tables fun _ => Registry.table_setTable_table
      | none =>
          rw [Holders.offer_of_find?_eq_none henabled hfind]
          exact hs.register rfl

theorem acquire {h : Holders} (hs : Single h.registry h.next) (kind key content : String) :
    Single (h.acquire kind key content).2.2.registry (h.next + 1) :=
  offer (h := { h with next := h.next + 1 }) hs key

end Single

namespace Holders

end Holders

/-! ## Proportion -/

/-- One value that is held and offered for 100 more keys has an entry for each. -/
example :
    let steps : List Step := .acquire "k" "a" "1" (some "x") ::
      (List.range 100).map fun i => .offer "x" (toString i) none
    ((Holders.new { strategy := .locked }).after steps).registry.count "k" = 101 := by
  decide +kernel

end ClassfileTypes.Intern
