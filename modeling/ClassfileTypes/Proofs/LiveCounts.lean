import ClassfileTypes.Proofs.Identity
import ClassfileTypes.Proofs.Sweeps

/-!
# What a purge leaves

As long as a pool is on, everything that is alive is registered, and once. So after a
purge the table of a kind has an entry for each type of the kind that the registers
reach, and no other: sharing does not show in the number, and neither does what died.
What was removed is what the tables lost.
-/

namespace ClassfileTypes

namespace Composite

theorem mem_all (k : Composite) : k ∈ all := by
  cases k <;> decide

theorem nodup_all : all.Nodup := by
  decide

end Composite

namespace Pool

variable {p : Pool} {k : Composite}

theorem mem_table_purge {e : String × AnyTree Nat} :
    e ∈ (p.purge.2.registry.table k).entries ↔
      e ∈ (p.registry.table k).entries ∧ p.isLive e.2 = true := by
  show e ∈ ((p.registry.purge p.isLive).2.table k).entries ↔ _
  rw [Intern.Registry.table_purge]
  exact Intern.Table.mem_purge

/-- **What a purge removes** is what the tables lose. -/
theorem Sound.removed_eq_sum {canonical : Prop} (hs : Sound canonical p) :
    p.purge.1 = (Composite.all.map fun k => p.count k - p.purge.2.count k).sum := by
  have hstats : (p.registry.purge p.isLive).1 = _ :=
    Intern.Registry.stats_purge hs.kindsDistinct
  exact (congrArg Intern.PurgeStats.removed hstats).trans (Intern.Registry.sum_drop_eq
    hs.kindsDistinct Composite.nodup_all fun k _ => Composite.mem_all k).symm

/-- The types of a kind that trees reach. -/
def typesIn (trees : List (AnyTree Nat)) (k : Composite) : Finset (AnyTree Unit) :=
  (((trees.flatMap fun t => t.2.nodes).filter fun v => v.2.composite? = some k).map
    AnyTree.plain).toFinset

theorem mem_typesIn {trees : List (AnyTree Nat)} {w : AnyTree Unit} :
    w ∈ typesIn trees k ↔
      ∃ v, (∃ t ∈ trees, v ∈ t.2.nodes) ∧ v.2.composite? = some k ∧ v.plain = w := by
  unfold typesIn
  simp only [List.mem_toFinset, List.mem_map, List.mem_filter, List.mem_flatMap,
    decide_eq_true_eq, and_assoc]

/-- In a canonical pool an object of a kind is registered and alive exactly if what is
held reaches it. -/
theorem Sound.live_iff (hs : Sound True p) {v : AnyTree Nat} :
    (v.2.key, v) ∈ (p.registry.table k).entries ∧ p.isLive v = true ↔
      (∃ t ∈ p.held, v ∈ t.2.nodes) ∧ v.2.composite? = some k := by
  constructor
  · rintro ⟨hentry, hlive⟩
    have hkind := hs.kind k _ hentry
    obtain ⟨i, htag, t, ht, hi⟩ := isLive_iff.mp hlive
    -- What has its identity is the object itself.
    obtain ⟨w, hw, hwtag⟩ := TypeTree.mem_tags_iff.mp hi
    have hregistered := (hs.held t ht).registered trivial w hw
    obtain rfl := hs.identified trivial v w ⟨k, hkind, hentry⟩ hregistered
      (htag.trans hwtag.symm)
    exact ⟨⟨t, ht, hw⟩, hkind⟩
  · rintro ⟨⟨t, ht, hv⟩, hkind⟩
    obtain ⟨k', hkind', hentry⟩ := (hs.held t ht).registered trivial v hv
    obtain rfl : k' = k := Option.some.inj (hkind'.symm.trans hkind)
    exact ⟨hentry, (keeps_of_mem_held ht).isLive hv⟩

/-- Two entries of a kind are never equal as types. -/
theorem Sound.nodup_types {canonical : Prop} (hs : Sound canonical p) (k : Composite) :
    ((p.registry.table k).entries.map fun e => e.2.plain).Nodup := by
  have hentries := List.Nodup.of_map Prod.fst (hs.keysDistinct k)
  refine hentries.map_on ?_
  intro e he e' he' hplain
  have hkey := (AnyTree.key_eq_iff (hs.wellFormed k e he) (hs.wellFormed k e' he')
    (hs.kind k e he) (hs.kind k e' he')).mpr hplain
  rw [← hs.key k e he, ← hs.key k e' he'] at hkey
  exact (hs.keysDistinct k).eq_of_key_eq he he' hkey

/-- **What a purge leaves** of a kind: the types that are alive, each once. -/
theorem Sound.count_purge (hs : Sound True p) (k : Composite) :
    p.purge.2.count k = (typesIn p.held k).card := by
  have htypes : ((p.purge.2.registry.table k).entries.map fun e => e.2.plain).toFinset =
      typesIn p.held k := by
    ext w
    rw [mem_typesIn, List.mem_toFinset, List.mem_map]
    constructor
    · rintro ⟨e, he, rfl⟩
      obtain ⟨hentry, hlive⟩ := mem_table_purge.mp he
      have hself : (e.2.2.key, e.2) ∈ (p.registry.table k).entries := hs.key k e hentry ▸ hentry
      obtain ⟨hreached, hkind⟩ := hs.live_iff.mp ⟨hself, hlive⟩
      exact ⟨e.2, hreached, hkind, rfl⟩
    · rintro ⟨v, hreached, hkind, rfl⟩
      exact ⟨(v.2.key, v), mem_table_purge.mpr (hs.live_iff.mpr ⟨hreached, hkind⟩), rfl⟩
  rw [← htypes, List.toFinset_card_of_nodup (hs.purge.nodup_types k), List.length_map]
  rfl

end Pool

namespace Session

/-- The types of a kind that occur in the registers: the trees that they hold, the parts
of these at every depth, and the declarations of variables. -/
def types (s : Session) (k : Composite) : Finset (AnyTree Unit) :=
  Pool.typesIn (s.registers.map (·.2)) k

/-- What there is after a purge, and what the purge answers. -/
structure Purges (s : Session) (o : Reply × Session) : Prop where
  counts : ∀ k, o.2.pool.count k = (o.2.types k).card
  le : ∀ k, o.2.pool.count k ≤ s.pool.count k
  removed : o.1 = .removed (Composite.all.map fun k => s.pool.count k - o.2.pool.count k).sum

/-- **The pool is the live types.** As long as the pool is on, a purge leaves as many
entries of a kind as there are types of the kind in the registers, and it answers by how
much the numbers of all kinds drop. -/
theorem purges_of_enabled {c : Intern.Config} (hc : c.enabled = true) {steps : List Step}
    (hsteps : ∀ st ∈ steps, st.keepsEnabled = true) :
    ((start c).after steps).Purges (((start c).after steps).step .purge) := by
  have hvalid : ((start c).after steps).Valid True :=
    (valid_start c fun _ => hc).after steps fun _ => hsteps
  refine ⟨?_, fun _ => Intern.Registry.count_purge_le,
    congrArg Reply.removed hvalid.sound.removed_eq_sum⟩
  intro k
  exact (hvalid.sound.count_purge k).trans (by rw [hvalid.held]; rfl)

/-- A variable keeps its declaration and the bound of this, and an array its base, while
the method and the other class go. -/
theorem purges_of_dropped_method :
    let s := (start {}).after
      [.value (.unconstrained "T") (some "t"), .value (.boundVariable (.register "t")) (some "v"),
        .value (.arrayDescriptor .checked 2 (.classDescriptor .checked "a")) (some "d"),
        .value (.methodDescriptor .checked [.register "d"] (.classDescriptor .checked "b"))
          (some "m"), .drop "t", .drop "m"]
    s.Purges (s.step .purge) ∧ s.pool.count .classDescriptor = 2 ∧
      ((s.step .purge).2.types .classDescriptor).card = 1 ∧
      ((s.step .purge).2.types .typeParameter).card = 1 ∧
      ((s.step .purge).2.types .methodDescriptor).card = 0 := by
  refine ⟨purges_of_enabled rfl (by decide), ?_⟩
  decide +kernel

end Session

end ClassfileTypes
