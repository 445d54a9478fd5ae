import ClassfileTypes.Proofs.Reference
import ClassfileTypes.Proofs.Sweeps

/-!
# What the steps of a run do to the tables

Acquiring a value leaves every table as it is, or registers the value in the table of its
kind; nothing else that it does shows in the registry. Some steps only look at the registry, and
a sweep without a sweeper does nothing.
-/

namespace ClassfileTypes.Intern

/-! ## Acquiring -/

/-- What acquiring `o` for a key does to a registry: at most the table of the kind is set.
Either `o` was found, or the registry is disabled, and the table is what it was; or nothing was
found, and `o` is registered. It is alive while it is held for the registry. -/
structure Registry.Acquires {κ ν : Type} [BEq κ] (r r' : Registry κ ν)
    (alive : List ν → ν → Bool) (kind : κ) (key : String) (o : ν) : Prop where
  registry : r' = r ∨ ∃ t, r' = r.setTable kind t
  living : alive [o] o = true
  self : r'.table kind = r.table kind ∧
        (r.enabled = true → (r.table kind).find? (alive []) key = some o) ∨
      r.enabled = true ∧ (r.table kind).find? (alive []) key = none ∧
        r'.table kind = (r.table kind).register r.config.strategy (alive [o]) key o

namespace Registry

variable {κ ν : Type} [BEq κ] {r r' : Registry κ ν} {kind k : κ} {alive : List ν → ν → Bool}
  {key : String} {o : ν}

namespace Acquires

theorem config (h : r.Acquires r' alive kind key o) : r'.config = r.config := by
  rcases h.registry with rfl | ⟨t, rfl⟩
  · rfl
  · exact config_setTable

theorem enabled (h : r.Acquires r' alive kind key o) : r'.enabled = r.enabled := by
  rcases h.registry with rfl | ⟨t, rfl⟩
  · rfl
  · exact enabled_setTable

theorem sweeper (h : r.Acquires r' alive kind key o) : r'.sweeper = r.sweeper := by
  rcases h.registry with rfl | ⟨t, rfl⟩
  · rfl
  · exact sweeper_setTable

variable [LawfulBEq κ]

theorem kindsDistinct (h : r.Acquires r' alive kind key o) (hkinds : r.KindsDistinct) :
    r'.KindsDistinct := by
  rcases h.registry with rfl | ⟨t, rfl⟩
  · exact hkinds
  · exact kindsDistinct_setTable hkinds

theorem others (h : r.Acquires r' alive kind key o) (hk : k ≠ kind) : r'.table k = r.table k := by
  rcases h.registry with rfl | ⟨t, rfl⟩
  · rfl
  · exact table_setTable_of_ne hk

end Acquires

theorem acquires_of_disabled (henabled : r.enabled = false) (ho : alive [o] o = true) :
    r.Acquires r alive kind key o where
  registry := Or.inl rfl
  living := ho
  self := Or.inl ⟨rfl, fun h => by rw [henabled] at h; cases h⟩

variable [LawfulBEq κ]

theorem acquires_of_find? (hfind : (r.table kind).find? (alive []) key = some o)
    (ho : alive [o] o = true) :
    r.Acquires (r.setTable kind (r.table kind)) alive kind key o where
  registry := Or.inr ⟨_, rfl⟩
  living := ho
  self := Or.inl ⟨table_setTable_self, fun _ => hfind⟩

variable (alive) in
theorem acquires_of_find?_eq_none (henabled : r.enabled = true)
    (hfind : (r.table kind).find? (alive []) key = none) (ho : alive [o] o = true) :
    r.Acquires (r.setTable kind ((r.table kind).register r.config.strategy (alive [o]) key o))
      alive kind key o where
  registry := Or.inr ⟨_, rfl⟩
  living := ho
  self := Or.inr ⟨henabled, hfind, table_setTable_self⟩

end Registry

namespace Holders

/-- **Acquiring a value**, made only if it is needed. -/
theorem acquires_acquireWith (h : Holders) (kept : List Object) (kind key content : String) :
    h.registry.Acquires (h.acquireWith kept kind key content).2.2.registry
      (fun held => h.aliveWith (held ++ kept)) kind key
      (h.acquireWith kept kind key content).1 := by
  cases henabled : h.registry.enabled with
  | false =>
      rw [acquireWith_of_disabled henabled]
      exact Registry.acquires_of_disabled henabled Places.aliveWith_self
  | true =>
      cases hfind : (h.registry.table kind).find? (h.aliveWith kept) key with
      | some o =>
          rw [acquireWith_of_find? henabled hfind]
          exact Registry.acquires_of_find? hfind Places.aliveWith_self
      | none =>
          rw [acquireWith_of_find?_eq_none henabled hfind]
          exact Registry.acquires_of_find?_eq_none (fun held => h.aliveWith (held ++ kept))
            henabled hfind Places.aliveWith_self

/-- **Offering a value**, which is held all the time. -/
theorem acquires_offer (h : Holders) (key : String) (candidate : Object) :
    h.registry.Acquires (h.offer key candidate).2.2.registry
      (fun _ => h.aliveWith [candidate]) candidate.kind key (h.offer key candidate).1 := by
  cases henabled : h.registry.enabled with
  | false =>
      rw [offer_of_disabled henabled]
      exact Registry.acquires_of_disabled henabled Places.aliveWith_self
  | true =>
      cases hfind : (h.registry.table candidate.kind).find? (h.aliveWith [candidate]) key with
      | some o =>
          rw [offer_of_find? henabled hfind]
          exact Registry.acquires_of_find? hfind (Option.filter_eq_some_iff.mp hfind).2
      | none =>
          rw [offer_of_find?_eq_none henabled hfind]
          exact Registry.acquires_of_find?_eq_none (fun _ => h.aliveWith [candidate])
            henabled hfind Places.aliveWith_self

end Holders

/-! ## Looking and sweeping -/

/-- Whether a step only looks at the registry, or changes what is held. -/
def Step.onlyLooks : Step → Bool
  | .find _ _ _ | .drop _ | .copy _ _ | .sameObject _ _ | .count _ | .stats | .describe => true
  | _ => false

namespace Holders

theorem registry_of_onlyLooks (h : Holders) (st : Step) (hst : st.onlyLooks = true) :
    (h.step st).2.registry = h.registry := by
  cases st with
  | find kind key place =>
      rw [step]
      cases h.registry.find? h.alive kind key <;> rfl
  | copy source place =>
      rw [step]
      cases h.place? source <;> rfl
  | sameObject a b =>
      rw [step]
      cases h.first? a with
      | none => rfl
      | some o => cases h.first? b <;> rfl
  | drop _ | count _ | stats | describe => rfl
  | acquire _ _ _ _ | offer _ _ _ | acquireWith _ _ _ _ | fill _ _ _ _ _ | purge | enable _
  | shutdown | sweep | awaitSweep _ => cases hst

end Holders

theorem Registry.sweeper_eq_none {κ ν : Type} {r : Registry κ ν} (h : r.hasSweeper = false) :
    r.sweeper = none :=
  Option.isNone_iff_eq_none.mp (Option.isSome_eq_false_iff.mp h)

namespace Holders

/-- Without a sweeper, no round takes place. -/
theorem sweep_of_none {h : Holders} (hnone : h.registry.sweeper = none) : h.sweep = (none, h) := by
  unfold sweep
  rw [Registry.sweep_of_none hnone]

/-- Whether a step sweeps. -/
def sweeps (h : Holders) : Step → Bool
  | .sweep | .awaitSweep _ => h.registry.hasSweeper
  | _ => false

/-- Waiting for a sweeper that does not exist changes nothing. -/
theorem registry_of_sweeper_eq_none {h : Holders} (hnone : h.registry.sweeper = none) {st : Step}
    (hst : st = .sweep ∨ ∃ kind, st = .awaitSweep kind) :
    (h.step st).2.registry = h.registry := by
  rcases hst with rfl | ⟨kind, rfl⟩
  · rw [step_sweep, sweep_of_none hnone]
  · show h.sweep.2.sweep.2.registry = _
    rw [sweep_of_none hnone, sweep_of_none hnone]

end Holders

end ClassfileTypes.Intern
