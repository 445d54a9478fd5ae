import ClassfileTypes.Proofs.TableSteps

/-!
# What the sweeper keeps track of

As long as there is a sweeper, every table is tracked or pending, and once. A table that has
been swept is settled: there is nothing to do for it until its size changes or a value dies. So
after two rounds all tables have been looked at, and a third does nothing; and if the sweeper
minds every change, two rounds are a purge of the registry.
-/

namespace ClassfileTypes.Intern

namespace Registry

variable {κ ν : Type} [BEq κ] [LawfulBEq κ] {r r' : Registry κ ν} {alive : ν → Bool}
  {kind k : κ} {threshold : Nat} {stats : PurgeStats} {e : Tracked κ} {es : List (Tracked κ)}

/-! ## Settled tables -/

/-- A sweep has nothing to do for a tracked table: its size has hardly changed, or it was purged
last and nothing has died since. -/
def Settled (alive : ν → Bool) (threshold : Nat) (r : Registry κ ν) (e : Tracked κ) : Prop :=
  e.change (r.count e.kind) < threshold ∨
    e.lastSize = r.count e.kind ∧ ((r.table e.kind).purge alive).2 = r.table e.kind

omit [LawfulBEq κ] in
theorem Settled.congr (h : r.Settled alive threshold e)
    (htable : r'.table e.kind = r.table e.kind) : r'.Settled alive threshold e := by
  unfold Settled count
  rw [htable]
  exact h

theorem settled_sweepTable : (r.sweepTable alive threshold stats e).2.2.Settled alive threshold
    (r.sweepTable alive threshold stats e).2.1 := by
  rcases Nat.lt_or_ge (e.change (r.count e.kind)) threshold with h | h
  · rw [sweepTable_of_lt h]
    exact Or.inl h
  · rw [sweepTable_of_le h]
    refine Or.inr ⟨rfl, ?_⟩
    dsimp only
    rw [table_purgeTable_self, Table.purge_purge]

/-- **Every table that was swept is settled.** -/
theorem settled_sweepTables (hnodup : (es.map Tracked.kind).Nodup) :
    ∀ e ∈ (sweepTables alive threshold stats es r).2.1,
      (sweepTables alive threshold stats es r).2.2.Settled alive threshold e := by
  induction es generalizing stats r with
  | nil => exact fun e he => absurd he List.not_mem_nil
  | cons e es ih =>
      obtain ⟨hnew, hrest⟩ := List.nodup_cons.mp hnodup
      refine List.forall_mem_cons.mpr ⟨settled_sweepTable.congr ?_, ih hrest⟩
      rw [kind_sweepTable]
      exact table_sweepTables_of_notMem hnew

theorem table_sweepTable_of_settled (h : r.Settled alive threshold e) :
    (r.sweepTable alive threshold stats e).2.2.table k = r.table k := by
  by_cases hk : k = e.kind
  · rcases Nat.lt_or_ge (e.change (r.count e.kind)) threshold with hlt | hle
    · rw [sweepTable_of_lt hlt]
    · rw [sweepTable_of_le hle, hk]
      exact table_purgeTable_self.trans (h.resolve_left (Nat.not_lt.mpr hle)).2
  · exact table_sweepTable_of_ne hk

/-- A sweep of settled tables changes none. -/
theorem table_sweepTables_of_settled (h : ∀ e ∈ es, r.Settled alive threshold e) :
    (sweepTables alive threshold stats es r).2.2.table k = r.table k := by
  induction es generalizing stats r with
  | nil => rfl
  | cons e es ih =>
      obtain ⟨he, hes⟩ := List.forall_mem_cons.mp h
      refine (ih fun e' he' => (hes e' he').congr ?_).trans (table_sweepTable_of_settled he)
      exact table_sweepTable_of_settled he

/-! ## Tracked and pending tables -/

/-- While there is a sweeper, the strategy is one that has it, and every table is tracked or
pending, and once. -/
structure Tracks (r : Registry κ ν) : Prop where
  kindsDistinct : r.KindsDistinct
  strategy : ∀ es, r.sweeper = some es → r.config.strategy.usesSweeper = true
  perm : ∀ es, r.sweeper = some es → (es.map Tracked.kind ++ r.pending).Perm r.kinds

namespace Tracks

/-- A table that is added is pending. -/
theorem setTable (h : r.Tracks) {t : Table ν} : (r.setTable kind t).Tracks where
  kindsDistinct := kindsDistinct_setTable h.kindsDistinct
  strategy es hes := by
    rw [sweeper_setTable] at hes
    rw [config_setTable]
    exact h.strategy es hes
  perm es hes := by
    rw [sweeper_setTable] at hes
    unfold Registry.setTable
    split_ifs
    · rw [kinds_replaceTable]
      exact h.perm es hes
    · have hpending : (r.addTable kind t).pending = r.pending ++ [kind] :=
        if_pos (h.strategy es hes)
      rw [kinds_addTable, hpending, ← List.append_assoc]
      exact (h.perm es hes).append_right [kind]

theorem acquires {alive : List ν → ν → Bool} {key : String} {o : ν} (h : r.Tracks)
    (ha : r.Acquires r' alive kind key o) : r'.Tracks := by
  rcases ha.registry with rfl | ⟨t, rfl⟩
  · exact h
  · exact h.setTable

theorem purge (h : r.Tracks) : (r.purge alive).2.Tracks where
  kindsDistinct := kindsDistinct_purge h.kindsDistinct
  strategy es hes := by
    rw [purges_purge.config]
    exact h.strategy es (tracking_sweepTables.1.symm.trans hes)
  perm es hes := by
    rw [purges_purge.kinds]
    have hpending : (r.purge alive).2.pending = r.pending := tracking_sweepTables.2
    rw [hpending]
    exact h.perm es (tracking_sweepTables.1.symm.trans hes)

omit [BEq κ] [LawfulBEq κ] in
/-- In a round, no table is tracked twice. -/
theorem nodup (h : r.Tracks) (hes : r.sweeper = some es) : (es.map Tracked.kind).Nodup :=
  (List.sublist_append_left _ _).nodup (((h.perm es hes).nodup_iff).mpr h.kindsDistinct)

end Tracks

/-! ## Rounds -/

/-- What the sweeper does in a round: it sweeps what it tracks, and then tracks the pending tables
too. -/
structure Round (alive : ν → Bool) (es : List (Tracked κ)) (r r' : Registry κ ν) : Prop where
  purges : r.Purges alive r'
  table : ∀ k, r'.table k =
    (sweepTables alive r.config.sweepThreshold ⟨es.length, 0, 0⟩ es r).2.2.table k
  sweeper : r'.sweeper = some
    ((sweepTables alive r.config.sweepThreshold ⟨es.length, 0, 0⟩ es r).2.1 ++
      r.pending.map fun k => { kind := k })
  pending : r'.pending = []

omit [LawfulBEq κ] in
theorem sweep_of_some (hes : r.sweeper = some es) : (r.sweep alive).2 =
    (r.sweepCycle alive r.config.sweepThreshold es).2.2.mergePending
      (r.sweepCycle alive r.config.sweepThreshold es).2.1 := by
  unfold sweep
  rw [hes]

theorem round_sweep (hes : r.sweeper = some es) : Round alive es r (r.sweep alive).2 := by
  refine ⟨purges_sweep, fun k => ?_, ?_, ?_⟩
  · rw [sweep_of_some hes]
    rfl
  · rw [sweep_of_some hes, ← tracking_sweepTables.2]
    rfl
  · rw [sweep_of_some hes]
    rfl

omit [LawfulBEq κ] in
theorem Tracks.round (h : r.Tracks) (hes : r.sweeper = some es) (hr : Round alive es r r') :
    r'.Tracks where
  kindsDistinct := by
    unfold KindsDistinct
    rw [hr.purges.kinds]
    exact h.kindsDistinct
  strategy _ _ := by
    rw [hr.purges.config]
    exact h.strategy es hes
  perm es' hes' := by
    obtain rfl := Option.some.inj (hr.sweeper.symm.trans hes')
    have hpending : (r.pending.map fun k => ({ kind := k } : Tracked κ)).map Tracked.kind =
        r.pending := by
      rw [List.map_map]
      exact List.map_id _
    rw [hr.pending, hr.purges.kinds, List.append_nil, List.map_append, kinds_sweepTables, hpending]
    exact h.perm es hes

theorem Tracks.sweep (h : r.Tracks) : (r.sweep alive).2.Tracks := by
  cases hes : r.sweeper with
  | none =>
      rw [sweep_of_none hes]
      exact h
  | some es => exact h.round hes (round_sweep hes)

/-- **A third round does nothing.** -/
theorem table_sweep_of_swept_twice (h : r.Tracks) :
    ((((r.sweep alive).2.sweep alive).2.sweep alive).2.table k) =
      ((r.sweep alive).2.sweep alive).2.table k := by
  cases hes : r.sweeper with
  | none =>
      have hsame : (r.sweep alive).2 = r := by rw [sweep_of_none hes]
      rw [hsame, hsame, hsame]
  | some es =>
      have hfirst : Round alive es r (r.sweep alive).2 := round_sweep hes
      have hsecond : Round alive _ _ ((r.sweep alive).2.sweep alive).2 :=
        round_sweep hfirst.sweeper
      have hthird : Round alive _ _ (((r.sweep alive).2.sweep alive).2.sweep alive).2 :=
        round_sweep hsecond.sweeper
      -- In the second round nothing is pending, so that the third tracks what it has swept.
      rw [hthird.table, hsecond.purges.config, hfirst.pending, List.map_nil, List.append_nil]
      refine table_sweepTables_of_settled fun e he => ?_
      exact (settled_sweepTables (h.sweep.nodup hfirst.sweeper) e he).congr (hsecond.table _)

/-- **A sweeper that minds every change purges the registry** in two rounds. -/
theorem table_of_swept_twice (h : r.Tracks) (hes : r.sweeper = some es)
    (hzero : r.config.sweepThreshold = 0) :
    ((r.sweep alive).2.sweep alive).2.table k = ((r.table k).purge alive).2 := by
  have hfirst : Round alive es r (r.sweep alive).2 := round_sweep hes
  obtain ⟨es', hes'⟩ : ∃ es', (r.sweep alive).2.sweeper = some es' := ⟨_, hfirst.sweeper⟩
  have hsecond : Round alive es' _ ((r.sweep alive).2.sweep alive).2 := round_sweep hes'
  have hkinds : ((r.sweep alive).2.sweep alive).2.kinds = r.kinds :=
    hsecond.purges.kinds.trans hfirst.purges.kinds
  by_cases hk : k ∈ r.kinds
  · have htracked := h.sweep.perm es' hes'
    rw [hfirst.pending, List.append_nil, hfirst.purges.kinds] at htracked
    rw [hsecond.table, hfirst.purges.config, hzero,
      table_sweepTables_zero (htracked.mem_iff.mpr hk)]
    rcases hfirst.purges.table k with heq | heq
    · rw [heq]
    · rw [heq, Table.purge_purge]
  · rw [table_of_notMem hk, table_of_notMem (hkinds ▸ hk), Table.purge_empty]

end Registry

/-! ## Runs -/

namespace Holders

variable {h : Holders}

theorem tracks_fill (kind label : String) (keep : Bool) (first count : Nat) (kept : List Object)
    (ht : h.registry.Tracks) : (fill kind label keep first count kept h).2.2.registry.Tracks := by
  induction count generalizing first kept h with
  | zero => exact ht
  | succ count ih => exact ih _ _ (ht.acquires (h.acquires_acquireWith kept kind _ _))

theorem tracks_step (ht : h.registry.Tracks) (st : Step) : (h.step st).2.registry.Tracks := by
  have hlooks := h.registry_of_onlyLooks st
  cases st with
  | acquire kind key content place =>
      exact ht.acquires
        (acquires_offer { h with next := h.next + 1 } key ⟨h.next, kind, content⟩)
  | offer source key place =>
      rw [step]
      cases h.first? source with
      | none => exact ht
      | some candidate => exact ht.acquires (h.acquires_offer key candidate)
  | acquireWith kind key content place =>
      exact ht.acquires (h.acquires_acquireWith [] kind key content)
  | fill kind label first count place => exact tracks_fill _ _ _ _ _ _ ht
  | purge => exact ht.purge
  | enable on => exact ⟨ht.kindsDistinct, ht.strategy, ht.perm⟩
  | shutdown =>
      refine ⟨ht.kindsDistinct, fun es hes => ?_, fun es hes => ?_⟩
      · cases hes
      · cases hes
  | sweep =>
      rw [step_sweep]
      exact ht.sweep
  | awaitSweep kind => exact ht.sweep.sweep
  | find _ _ _ | drop _ | copy _ _ | sameObject _ _ | count _ | stats | describe =>
      rw [hlooks rfl]
      exact ht

theorem tracks_new (config : Config) : (new config).registry.Tracks where
  kindsDistinct := List.nodup_nil
  strategy es hes := by
    change (if config.strategy.usesSweeper then some [] else none) = some es at hes
    show config.strategy.usesSweeper = true
    split_ifs at hes with hstrategy
    exact hstrategy
  perm es hes := by
    change (if config.strategy.usesSweeper then some [] else none) = some es at hes
    split_ifs at hes
    obtain rfl := Option.some.inj hes
    exact List.Perm.refl _

/-- **In every run, the sweeper keeps track of every table, or is to hear of it.** -/
theorem tracks_after (ht : h.registry.Tracks) (steps : List Step) :
    (h.after steps).registry.Tracks := by
  induction steps generalizing h with
  | nil => exact ht
  | cons st steps ih => exact ih (tracks_step ht st)

/-- **Waiting for the sweeper is enough.** After any run, once it has been waited for, a further
round leaves every table as it is; and if it minds every change, its rounds have purged every
table. -/
theorem swept_of_awaited (config : Config) (steps : List Step) (kind k : String) :
    let h := (new config).after steps
    let h' := (h.step (.awaitSweep kind)).2
    (h'.step .sweep).2.registry.table k = h'.registry.table k ∧
      (h.registry.hasSweeper = true → h.registry.config.sweepThreshold = 0 →
        h'.registry.table k = ((h.registry.table k).purge h.alive).2) := by
  have ht : ((new config).after steps).registry.Tracks := tracks_after (tracks_new config) steps
  refine ⟨?_, fun hsweeper hzero => ?_⟩
  · rw [step_sweep]
    exact Registry.table_sweep_of_swept_twice ht
  · obtain ⟨es, hes⟩ := Option.isSome_iff_exists.mp hsweeper
    exact Registry.table_of_swept_twice ht hes hzero

/-- A table that is made before the first round is purged in the second. -/
example :
    let h := (new { sweepThreshold := 0 }).after
      [.acquire "k" "a" "1" none, .acquire "k" "b" "2" (some "x"), .sweep]
    h.registry.count "k" = 2 ∧ (h.step .sweep).2.registry.count "k" = 1 := by
  decide +kernel

end Holders

end ClassfileTypes.Intern
