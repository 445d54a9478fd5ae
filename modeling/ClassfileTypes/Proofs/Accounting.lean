import ClassfileTypes.Proofs.ReferenceMap
import ClassfileTypes.Proofs.TableSteps
import Mathlib.Algebra.BigOperators.Finprod
import Mathlib.Data.Set.Card

/-!
# What the entries of a registry stand for

An entry stands for a key that was acquired. How many there are is told without tables: of
each kind the keys are in use that were acquired since the last purge, while the registry was
enabled, and those whose value was alive at that purge. A table that does not purge itself has an
entry for each of them; one that does may have lost those whose value has died. A purge
leaves the keys whose value is alive.
-/

namespace ClassfileTypes.Intern

/-! ## The keys in use -/

/-- The keys that a label and `count` numbers give. -/
def numbered (label : String) (first count : Nat) : Set String :=
  {l | ∃ i, first ≤ i ∧ i < first + count ∧ l = label ++ toString i}

namespace Reference

/-- The keys for which a step acquires a value of a kind. What is offered has its own. -/
def keys (s : Reference) (st : Step) (kind : String) : Set String :=
  match st with
  | .acquire k key _ _ | .acquireWith k key _ _ => {l | kind = k ∧ l = key}
  | .offer source key _ => {l | ∃ o, s.first? source = some o ∧ kind = o.kind ∧ l = key}
  | .fill k label first n _ => {l | kind = k ∧ l ∈ numbered label first n}
  | _ => ∅

/-- The keys of a kind whose registered value is alive. -/
def live (s : Reference) (kind : String) : Set String :=
  {key | (s.current? [] kind key).isSome}

/-- The keys in use after a step, for each kind, when `used` were in use before it. A purge
starts again with those whose value is alive. -/
def use (s : Reference) (used : String → Set String) (st : Step) : String → Set String :=
  match st with
  | .purge => s.live
  | st => fun kind => if s.enabled then used kind ∪ s.keys st kind else used kind

/-- What is offered is registered under its own kind. -/
theorem use_offer_of_some {s : Reference} {used : String → Set String} {source key : String}
    {place : Option String} {o : Object} (h : s.first? source = some o) :
    s.use used (.offer source key place) = fun kind =>
      if s.enabled then used kind ∪ {l | kind = o.kind ∧ l = key} else used kind := by
  have hkeys : ∀ kind, s.keys (.offer source key place) kind = {l | kind = o.kind ∧ l = key} := by
    refine fun kind => Set.ext fun l => ⟨?_, fun hl => ⟨o, h, hl⟩⟩
    rintro ⟨o', ho', hl⟩
    obtain rfl := Option.some.inj (h.symm.trans ho')
    exact hl
  exact funext fun kind => congrArg (if s.enabled then used kind ∪ · else used kind) (hkeys kind)

/-- If the place is empty, nothing is offered. -/
theorem use_offer_of_none {s : Reference} {used : String → Set String} {source key : String}
    {place : Option String} (h : s.first? source = none) :
    s.use used (.offer source key place) = fun kind =>
      if s.enabled then used kind ∪ ∅ else used kind := by
  have hkeys : ∀ kind, s.keys (.offer source key place) kind = ∅ := by
    refine fun kind => Set.eq_empty_of_forall_notMem ?_
    rintro l ⟨o, ho, -⟩
    rw [h] at ho
    cases ho
  exact funext fun kind => congrArg (if s.enabled then used kind ∪ · else used kind) (hkeys kind)

/-- The keys in use after a run. -/
def inUse (s : Reference) (used : String → Set String) : List Step → String → Set String
  | [] => used
  | st :: sts => (s.step st).2.inUse (s.use used st) sts

end Reference

/-- Whether no step of a run sweeps. -/
def Holders.calm (h : Holders) : List Step → Bool
  | [] => true
  | st :: sts => !h.sweeps st && (h.step st).2.calm sts

/-! ## The keys that have an entry -/

namespace Table

variable {ν : Type} {t : Table ν}

/-- The keys that have an entry. -/
def keys (t : Table ν) : Set String :=
  {key | ∃ v, (key, v) ∈ t.entries}

/-- A table has as many entries as keys. -/
theorem KeysDistinct.encard_keys (h : t.KeysDistinct) : t.keys.encard = t.size := by
  have hkeys : t.keys = (t.entries.map Prod.fst).toFinset := by
    ext key
    simp [keys]
  rw [hkeys, Set.encard_coe_eq_coe_finsetCard, List.toFinset_card_of_nodup h, List.length_map]
  rfl

/-- Registering a value adds its key, and may lose others. -/
theorem keys_register_subset {s : Strategy} {alive : ν → Bool} {key : String} {v : ν} :
    (t.register s alive key v).keys ⊆ t.keys ∪ {key} := by
  rintro l ⟨w, hw⟩
  rcases mem_of_mem_register hw with heq | ⟨hmem, -⟩
  · exact Or.inr (congrArg Prod.fst heq)
  · exact Or.inl ⟨w, hmem⟩

/-- A table that does not purge itself loses no key. -/
theorem subset_keys_register {alive : ν → Bool} {key : String} {v : ν} :
    t.keys ∪ {key} ⊆ (t.register .concurrent alive key v).keys := by
  have hentries : (t.register .concurrent alive key v).entries =
      (key, v) :: t.entries.filter (fun e => e.1 != key) := by
    rw [register, if_neg fun hpurge => nomatch hpurge.1]
  have hself : (key, v) ∈ (t.register .concurrent alive key v).entries :=
    hentries ▸ mem_replaced.mpr (Or.inl rfl)
  rintro l (⟨w, hw⟩ | rfl)
  · by_cases hl : l = key
    · exact ⟨v, hl ▸ hself⟩
    · exact ⟨w, hentries ▸ mem_replaced.mpr (Or.inr ⟨hw, hl⟩)⟩
  · exact ⟨v, hself⟩

end Table

/-! ## What acquiring does to the keys -/

/-- What acquiring values for some keys of each kind does to the keys that have an entry. -/
structure Registry.Gains {κ ν : Type} [BEq κ] (r r' : Registry κ ν) (acquired : κ → Set String) :
    Prop where
  config : r'.config = r.config
  enabled : r'.enabled = r.enabled
  kindsDistinct : r.KindsDistinct → r'.KindsDistinct
  off : r.enabled = false → ∀ k, (r'.table k).keys = (r.table k).keys
  keys_subset : ∀ k, (r'.table k).keys ⊆ (r.table k).keys ∪ acquired k
  subset_keys : r.enabled = true → r.config.strategy = .concurrent →
    ∀ k, (r.table k).keys ∪ acquired k ⊆ (r'.table k).keys

namespace Registry

variable {κ ν : Type} [BEq κ] {r r' r'' : Registry κ ν} {acquired acquired' : κ → Set String}

/-- Nothing is acquired. -/
theorem Gains.nothing : r.Gains r fun _ => ∅ where
  config := rfl
  enabled := rfl
  kindsDistinct h := h
  off _ _ := rfl
  keys_subset _ := Set.subset_union_left
  subset_keys _ _ _ := Set.union_subset subset_rfl (Set.empty_subset _)

theorem Gains.trans (h : r.Gains r' acquired) (h' : r'.Gains r'' acquired') :
    r.Gains r'' fun k => acquired k ∪ acquired' k where
  config := h'.config.trans h.config
  enabled := h'.enabled.trans h.enabled
  kindsDistinct hkinds := h'.kindsDistinct (h.kindsDistinct hkinds)
  off hoff k := (h'.off (h.enabled.trans hoff) k).trans (h.off hoff k)
  keys_subset k := by
    rw [← Set.union_assoc]
    exact (h'.keys_subset k).trans (Set.union_subset_union_left _ (h.keys_subset k))
  subset_keys hon hstrategy k := by
    rw [← Set.union_assoc]
    refine Set.Subset.trans ?_
      (h'.subset_keys (h.enabled.trans hon) (h.config ▸ hstrategy) k)
    exact Set.union_subset_union_left _ (h.subset_keys hon hstrategy k)

/-- Acquiring one value. -/
theorem Acquires.gains [LawfulBEq κ] {alive : List ν → ν → Bool} {kind : κ} {key : String} {o : ν}
    (h : r.Acquires r' alive kind key o) : r.Gains r' fun k => {l | k = kind ∧ l = key} where
  config := h.config
  enabled := h.enabled
  kindsDistinct := h.kindsDistinct
  off hoff k := by
    by_cases hk : k = kind
    · subst hk
      rcases h.self with ⟨hsame, -⟩ | ⟨hon, -⟩
      · rw [hsame]
      · rw [hoff] at hon
        cases hon
    · rw [h.others hk]
  keys_subset k := by
    by_cases hk : k = kind
    · subst hk
      rcases h.self with ⟨hsame, -⟩ | ⟨-, -, hregister⟩
      · rw [hsame]
        exact Set.subset_union_left
      · rw [hregister]
        exact Table.keys_register_subset.trans
          (Set.union_subset_union_right _ fun l hl => ⟨rfl, hl⟩)
    · rw [h.others hk]
      exact Set.subset_union_left
  subset_keys hon hstrategy k := by
    by_cases hk : k = kind
    · subst hk
      rcases h.self with ⟨hsame, hfound⟩ | ⟨-, -, hregister⟩
      · rw [hsame]
        have hentry := mem_of_lookup_eq_some (Option.filter_eq_some_iff.mp (hfound hon)).1
        exact Set.union_subset subset_rfl fun l hl => hl.2 ▸ ⟨o, hentry⟩
      · rw [hregister, hstrategy]
        refine Set.Subset.trans ?_ Table.subset_keys_register
        exact Set.union_subset_union_right _ fun l hl => hl.2
    · rw [h.others hk]
      exact Set.union_subset subset_rfl fun l hl => absurd hl.1 hk

end Registry

namespace Holders

theorem numbered_zero (label : String) (first : Nat) : numbered label first 0 = ∅ := by
  refine Set.eq_empty_of_forall_notMem ?_
  rintro l ⟨i, hle, hlt, -⟩
  exact Nat.not_lt.mpr hle hlt

theorem numbered_succ (label : String) (first count : Nat) : numbered label first (count + 1) =
    {label ++ toString first} ∪ numbered label (first + 1) count := by
  ext l
  constructor
  · rintro ⟨i, hle, hlt, rfl⟩
    rcases Nat.eq_or_lt_of_le hle with rfl | hgt
    · exact Or.inl rfl
    · exact Or.inr ⟨i, hgt, by omega, rfl⟩
  · rintro (rfl | ⟨i, hle, hlt, rfl⟩)
    · exact ⟨first, Nat.le_refl _, by omega, rfl⟩
    · exact ⟨i, by omega, by omega, rfl⟩

/-- Filling is acquiring in turn. -/
theorem gains_fill (kind label : String) (keep : Bool) (first count : Nat) (kept : List Object)
    (h : Holders) :
    h.registry.Gains (fill kind label keep first count kept h).2.2.registry fun k =>
      {l | k = kind ∧ l ∈ numbered label first count} := by
  induction count generalizing first kept h with
  | zero =>
      have hnothing : (fun k => {l | k = kind ∧ l ∈ numbered label first 0}) = fun _ => ∅ := by
        funext k
        rw [numbered_zero]
        exact Set.eq_empty_of_forall_notMem fun l hl => hl.2
      rw [hnothing]
      exact Registry.Gains.nothing
  | succ count ih =>
      have hfirst : (fun k => {l | k = kind ∧ l ∈ numbered label first (count + 1)}) = fun k =>
          {l | k = kind ∧ l = label ++ toString first} ∪
            {l | k = kind ∧ l ∈ numbered label (first + 1) count} := by
        funext k
        rw [numbered_succ]
        exact Set.ext fun l => and_or_left
      rw [hfirst]
      have hacquires := h.acquires_acquireWith kept kind (label ++ toString first)
        (label ++ toString first)
      exact hacquires.gains.trans (ih (first + 1) _ _)

end Holders

/-! ## A run -/

/-- The keys that have an entry are in use. Those of a registry whose tables do not purge
themselves are all that are. -/
structure Uses (strategy : Strategy) (used : String → Set String) (r : Registry String Object) :
    Prop where
  config : r.config.strategy = strategy
  kindsDistinct : r.KindsDistinct
  keys_subset : ∀ kind, (r.table kind).keys ⊆ used kind
  subset_keys : strategy = .concurrent → ∀ kind, used kind ⊆ (r.table kind).keys

/-- A purge leaves the keys whose registered value is alive. -/
theorem Simulates.keys_purge {h : Holders} {s : Reference} (hsim : Simulates [] h s)
    (kind : String) : ((h.step .purge).2.registry.table kind).keys = s.live kind := by
  show ((h.registry.purge h.alive).2.table kind).keys = _
  rw [Registry.table_purge]
  ext key
  have hcurrent : s.current? [] kind key = (h.registry.table kind).find? h.alive key := by
    rw [← hsim.find_eq, Places.aliveWith_nil]
  show (∃ o, (key, o) ∈ ((h.registry.table kind).purge h.alive).2.entries) ↔
    (s.current? [] kind key).isSome = true
  rw [hcurrent, Option.isSome_iff_exists]
  refine exists_congr fun o => ?_
  rw [Table.mem_purge, Table.find?_eq_some_iff (hsim.distinct kind)]

namespace Uses

variable {strategy : Strategy} {used : String → Set String} {h : Holders} {s : Reference}

theorem new (config : Config) :
    Uses config.strategy (fun _ => ∅) (Holders.new config).registry where
  config := rfl
  kindsDistinct := List.nodup_nil
  keys_subset _ := fun _ ⟨_, hw⟩ => nomatch hw
  subset_keys _ _ := Set.empty_subset _

/-- Keys may be acquired. -/
theorem gains {r r' : Registry String Object} (hu : Uses strategy used r)
    {acquired : String → Set String} (hg : r.Gains r' acquired) :
    Uses strategy (fun kind => if r.enabled then used kind ∪ acquired kind else used kind) r' := by
  have hstrategy : r'.config.strategy = strategy := by rw [hg.config, hu.config]
  cases henabled : r.enabled with
  | false =>
      refine ⟨hstrategy, hg.kindsDistinct hu.kindsDistinct, fun kind => ?_, fun hs kind => ?_⟩
      · rw [hg.off henabled kind]
        exact hu.keys_subset kind
      · rw [hg.off henabled kind]
        exact hu.subset_keys hs kind
  | true =>
      refine ⟨hstrategy, hg.kindsDistinct hu.kindsDistinct, fun kind => ?_, fun hs kind => ?_⟩
      · exact (hg.keys_subset kind).trans (Set.union_subset_union_left _ (hu.keys_subset kind))
      · exact Set.Subset.trans (Set.union_subset_union_left _ (hu.subset_keys hs kind))
          (hg.subset_keys henabled (hu.config.trans hs) kind)

/-- Nothing is acquired, and the tables stay as they are. -/
theorem unchanged {r : Registry String Object} (hu : Uses strategy used r)
    (r' : Registry String Object) (hconfig : r'.config = r.config) (htables : r'.tables = r.tables)
    (on : Bool) : Uses strategy (fun kind => if on then used kind ∪ ∅ else used kind) r' := by
  have hused : (fun kind => if on then used kind ∪ ∅ else used kind) = used := by
    funext kind
    rw [Set.union_empty, ite_self]
  have htable : ∀ kind, r'.table kind = r.table kind := fun kind => by
    unfold Registry.table
    rw [htables]
  rw [hused]
  refine ⟨hconfig ▸ hu.config, ?_, fun kind => ?_, fun hs kind => ?_⟩
  · unfold Registry.KindsDistinct Registry.kinds
    rw [htables]
    exact hu.kindsDistinct
  · rw [htable]
    exact hu.keys_subset kind
  · rw [htable]
    exact hu.subset_keys hs kind

/-- **One step**, which does not sweep. -/
theorem step (hu : Uses strategy used h.registry) (hsim : Simulates [] h s) {st : Step}
    (hcalm : h.sweeps st = false) : Uses strategy (s.use used st) (h.step st).2.registry := by
  have hlooks := h.registry_of_onlyLooks st
  cases st with
  | acquire kind key content place =>
      have hg := hu.gains
        (Holders.acquires_offer { h with next := h.next + 1 } key ⟨h.next, kind, content⟩).gains
      rw [hsim.enabled] at hg
      exact hg
  | offer source key place =>
      rw [Holders.step]
      cases hc : h.first? source with
      | none =>
          rw [Reference.use_offer_of_none (hsim.places ▸ hc)]
          exact hu.unchanged h.registry rfl rfl s.enabled
      | some candidate =>
          have hg := hu.gains (h.acquires_offer key candidate).gains
          rw [hsim.enabled] at hg
          rw [Reference.use_offer_of_some (hsim.places ▸ hc)]
          exact hg
  | acquireWith kind key content place =>
      have hg := hu.gains (h.acquires_acquireWith [] kind key content).gains
      rw [hsim.enabled] at hg
      exact hg
  | fill kind label first count place =>
      have hg := hu.gains (Holders.gains_fill kind label place.isSome first count [] h)
      rw [hsim.enabled] at hg
      exact hg
  | purge =>
      have hpurges : h.registry.Purges h.alive (h.step .purge).2.registry :=
        Registry.purges_purge
      refine ⟨hpurges.config ▸ hu.config, Registry.kindsDistinct_purge hu.kindsDistinct,
        fun kind => ?_, fun _ kind => ?_⟩
      · exact (hsim.keys_purge kind).subset
      · exact (hsim.keys_purge kind).superset
  | sweep =>
      rw [Holders.registry_of_sweeper_eq_none (Registry.sweeper_eq_none hcalm) (Or.inl rfl)]
      exact hu.unchanged _ rfl rfl s.enabled
  | awaitSweep kind =>
      rw [Holders.registry_of_sweeper_eq_none (Registry.sweeper_eq_none hcalm)
        (Or.inr ⟨kind, rfl⟩)]
      exact hu.unchanged _ rfl rfl s.enabled
  | enable on => exact hu.unchanged (h.registry.setEnabled on) rfl rfl s.enabled
  | shutdown => exact hu.unchanged h.registry.shutdown rfl rfl s.enabled
  | find _ _ _ | drop _ | copy _ _ | sameObject _ _ | count _ | stats | describe =>
      rw [hlooks rfl]
      exact hu.unchanged _ rfl rfl s.enabled

/-- **A run**, in which no step sweeps. -/
theorem after (hu : Uses strategy used h.registry) (hsim : Simulates [] h s) {steps : List Step}
    (hcalm : h.calm steps = true) :
    Uses strategy (s.inUse used steps) (h.after steps).registry := by
  induction steps generalizing h s used with
  | nil => exact hu
  | cons st steps ih =>
      obtain ⟨hst, hsteps⟩ := Bool.and_eq_true_iff.mp hcalm
      have hst : h.sweeps st = false := by rwa [Bool.not_eq_true'] at hst
      exact ih (hu.step hsim hst) (hsim.step st).2 hsteps

end Uses

/-! ## The account -/

/-- What the numbers of entries are, and what a purge does to them, when `used` are the keys
in use and `live` those whose value is alive. -/
structure Accounts (strategy : Strategy) (used live : String → Set String) (h : Holders) :
    Prop where
  concurrent : strategy = .concurrent →
    ∀ kind, (h.registry.count kind : ℕ∞) = (used kind).encard
  locked : strategy = .locked →
    ∀ kind, (live kind).encard ≤ h.registry.count kind ∧
      (h.registry.count kind : ℕ∞) ≤ (used kind).encard
  le : ∀ kind, (h.step .purge).2.registry.count kind ≤ h.registry.count kind
  purged : (h.step .purge).1 = .purged ⟨h.registry.kindCount, 0,
    ∑ᶠ kind, (h.registry.count kind - (h.step .purge).2.registry.count kind)⟩
  left : ∀ kind, ((h.step .purge).2.registry.count kind : ℕ∞) = (live kind).encard
  again : ((h.step .purge).2.step .purge).1 = .purged ⟨h.registry.kindCount, 0, 0⟩

namespace Registry

variable {κ ν : Type} [DecidableEq κ] {r : Registry κ ν}

/-- What a purge removes is by how much the numbers of all kinds drop. -/
theorem stats_purge_eq_finsum (h : r.KindsDistinct) (alive : ν → Bool) : (r.purge alive).1 =
    ⟨r.kindCount, 0, ∑ᶠ k, (r.count k - (r.purge alive).2.count k)⟩ := by
  have hsupport : (Function.support fun k => r.count k - (r.purge alive).2.count k) ⊆
      r.kinds.toFinset := by
    intro k hk
    by_contra hnot
    have hzero : r.count k = 0 := by
      unfold count
      rw [table_of_notMem (mt List.mem_toFinset.mpr hnot)]
      rfl
    exact hk (Nat.sub_eq_zero_of_le (hzero ▸ Nat.zero_le _))
  rw [stats_purge h, finsum_eq_sum_of_support_subset _ hsupport, List.sum_toFinset _ h]

end Registry

theorem Uses.accounts {strategy : Strategy} {used : String → Set String} {h : Holders}
    {s : Reference} (hu : Uses strategy used h.registry) (hsim : Simulates [] h s) :
    Accounts strategy used s.live h := by
  have hcount : ∀ kind, (h.registry.count kind : ℕ∞) = (h.registry.table kind).keys.encard :=
    fun kind => (hsim.distinct kind).encard_keys.symm
  have hpurged : Simulates [] (h.step .purge).2 s := (hsim.step .purge).2
  have hleft : ∀ {h' : Holders}, Simulates [] h' s → ∀ kind,
      ((h'.step .purge).2.registry.count kind : ℕ∞) = (s.live kind).encard := by
    intro h' hsim' kind
    rw [← hsim'.keys_purge kind]
    exact ((hsim'.step .purge).2.distinct kind).encard_keys.symm
  refine ⟨fun hs kind => ?_, fun _ kind => ⟨?_, ?_⟩, fun kind => ?_, ?_, hleft hsim, ?_⟩
  · rw [hcount, Set.Subset.antisymm (hu.keys_subset kind) (hu.subset_keys hs kind)]
  · rw [← hleft hsim kind]
    exact Nat.cast_le.mpr Registry.count_purge_le
  · rw [hcount]
    exact Set.encard_le_encard (hu.keys_subset kind)
  · exact Registry.count_purge_le
  · exact congrArg Reply.purged (Registry.stats_purge_eq_finsum hu.kindsDistinct h.alive)
  · -- The numbers are the same as after the first purge.
    have hsame : ∀ kind, (h.registry.purge h.alive).2.count kind -
        ((h.registry.purge h.alive).2.purge h.alive).2.count kind = 0 := by
      intro kind
      have heq := (hleft hsim kind).trans (hleft hpurged kind).symm
      exact Nat.sub_eq_zero_of_le (Nat.le_of_eq (Nat.cast_inj.mp heq))
    have hkindCount : (h.registry.purge h.alive).2.kindCount = h.registry.kindCount := by
      rw [← Registry.length_kinds, Registry.purges_purge.kinds, Registry.length_kinds]
    refine congrArg Reply.purged ((Registry.stats_purge_eq_finsum
      (Registry.kindsDistinct_purge hu.kindsDistinct) h.alive).trans ?_)
    rw [hkindCount, finsum_eq_zero_of_forall_eq_zero hsame]

/-- **The entries of a registry are accounted for.** After any run without a sweep, a registry
whose tables do not purge themselves has an entry for every key in use; one whose tables do
has one for every key whose value is alive, and for no key that is not in use. A purge looks
at every table and answers by how much the numbers of all kinds drop; it leaves exactly the
keys whose value is alive, and another purge has nothing to remove. -/
theorem accounts_of_run (config : Config) {steps : List Step}
    (hcalm : (Holders.new config).calm steps = true) :
    Accounts config.strategy ((Reference.new config.enabled).inUse (fun _ => ∅) steps)
      ((Reference.new config.enabled).after steps).live ((Holders.new config).after steps) :=
  ((Uses.new config).after (Simulates.new config) hcalm).accounts
    ((Simulates.new config).after steps)

/-- An entry of a dead value is used again for its key, what is acquired while the registry
is disabled has none, and one that was purged is not counted any more. A value that is offered
for a second key has a second entry. -/
theorem accounts_of_run_with_reused_entry :
    let steps : List Step := [.acquire "k" "a" "1" none, .acquireWith "k" "b" "2" none, .purge,
      .acquire "k" "b" "3" none, .acquire "k" "b" "4" (some "x"), .acquire "k" "c" "5" none,
      .offer "x" "e" none, .enable false, .acquire "k" "d" "6" (some "y"), .enable true, .count "k"]
    (Holders.new {}).calm steps = true ∧
      Accounts .concurrent ((Reference.new true).inUse (fun _ => ∅) steps)
        ((Reference.new true).after steps).live ((Holders.new {}).after steps) ∧
      ((Holders.new {}).after steps).registry.count "k" = 3 ∧
      (((Holders.new {}).after steps).step .purge).1 = .purged ⟨1, 0, 1⟩ :=
  ⟨rfl, accounts_of_run {} rfl, rfl, rfl⟩

end ClassfileTypes.Intern
