import ClassfileTypes.Pool.Basic
import ClassfileTypes.Proofs.Nodes
import ClassfileTypes.Proofs.Sweeps
import ClassfileTypes.Proofs.UniqueReading

/-!
# The invariant of a pool

Whatever happens to a pool, its tables hold well-formed trees of their kind, each
under its own key, never two under one, and no kind has two tables. That is `Sound`.

A pool is *canonical* while it has been on from the start: then every object that
is alive is registered, and an object is told by its identity. Both are part of
`Sound` under the assumption `canonical`; a pool that is turned on and off now and
then is the case where this is `False`.

What a computation may do to a pool is `Extends`: identities are only added, what is
alive stays registered, and what is registered anew has a new identity.
-/

namespace ClassfileTypes

namespace AnyTree

variable {ι : Type}

@[simp] theorem as?_mk {f : Form} (t : TypeTree ι f) : as? ⟨f, t⟩ f = some t := by
  simp [as?]

end AnyTree

namespace Pool

variable {canonical : Prop} {p q : Pool} {f : Form} {t : TypeTree Nat f}

/-! ## Liveness -/

/-- A tree that is held reaches the object. -/
def Reaches (p : Pool) (i : Nat) : Prop :=
  ∃ t ∈ p.held, i ∈ t.2.tags

theorem isLive_iff {v : AnyTree Nat} :
    p.isLive v = true ↔ ∃ i, v.2.tag? = some i ∧ p.Reaches i := by
  unfold isLive Reaches
  rw [Option.any_eq_true]
  constructor
  · rintro ⟨i, htag, hany⟩
    obtain ⟨t, ht, hi⟩ := List.any_eq_true.mp hany
    refine ⟨i, htag, t, ht, ?_⟩
    rw [TypeTree.hasTag_eq_contains] at hi
    exact List.contains_iff_mem.mp hi
  · rintro ⟨i, htag, t, ht, hi⟩
    refine ⟨i, htag, List.any_eq_true.mpr ⟨t, ht, ?_⟩⟩
    rw [TypeTree.hasTag_eq_contains]
    exact List.contains_iff_mem.mpr hi

/-- Everything in the tree is alive. -/
def Keeps (p : Pool) (t : TypeTree Nat f) : Prop :=
  ∀ i ∈ t.tags, p.Reaches i

theorem keeps_of_mem_held {v : AnyTree Nat} (hv : v ∈ p.held) : p.Keeps v.2 :=
  fun _ hi => ⟨v, hv, hi⟩

theorem Keeps.isLive (h : p.Keeps t) {v : AnyTree Nat} (hv : v ∈ t.nodes) :
    p.isLive v = true := by
  obtain ⟨i, hi⟩ := TypeTree.tag?_of_mem_nodes hv
  exact isLive_iff.mpr ⟨i, hi, h i (TypeTree.mem_tags_iff.mpr ⟨v, hv, hi⟩)⟩

theorem Keeps.congr (h : p.Keeps t) (hheld : q.held = p.held) : q.Keeps t := by
  intro i hi
  obtain ⟨v, hv, htag⟩ := h i hi
  exact ⟨v, hheld ▸ hv, htag⟩

theorem isLive_congr (hheld : q.held = p.held) (v : AnyTree Nat) : q.isLive v = p.isLive v := by
  unfold isLive
  rw [hheld]

/-- What is alive stays alive when more is held. -/
theorem isLive_hold {v w : AnyTree Nat} (h : p.isLive v = true) :
    { p with held := w :: p.held }.isLive v = true := by
  obtain ⟨i, htag, t, ht, hi⟩ := isLive_iff.mp h
  exact isLive_iff.mpr ⟨i, htag, t, List.mem_cons_of_mem _ ht, hi⟩

/-! ## The invariant -/

/-- The tree is in the table of its kind, under its key. -/
def Registers (p : Pool) (v : AnyTree Nat) : Prop :=
  ∃ k, v.2.composite? = some k ∧ (v.2.key, v) ∈ (p.registry.table k).entries

/-- A tree of the pool: well formed, made before now, and in a canonical pool
registered with all that it reaches. -/
structure Good (canonical : Prop) (p : Pool) {f : Form} (t : TypeTree Nat f) : Prop where
  wellFormed : t.WellFormed
  older : ∀ i ∈ t.tags, i < p.next
  registered : canonical → ∀ v ∈ t.nodes, p.Registers v

/-- The invariant. -/
structure Sound (canonical : Prop) (p : Pool) : Prop where
  kindsDistinct : p.registry.KindsDistinct
  keysDistinct : ∀ k, (p.registry.table k).KeysDistinct
  /-- Entries are trees of the kind. -/
  kind : ∀ k, ∀ e ∈ (p.registry.table k).entries, e.2.2.composite? = some k
  key : ∀ k, ∀ e ∈ (p.registry.table k).entries, e.1 = e.2.2.key
  wellFormed : ∀ k, ∀ e ∈ (p.registry.table k).entries, e.2.2.WellFormed
  older : ∀ k, ∀ e ∈ (p.registry.table k).entries, ∀ i ∈ e.2.2.tags, i < p.next
  held : ∀ v ∈ p.held, p.Good canonical v.2
  enabled : canonical → p.registry.enabled = true
  /-- An object is told by its identity. -/
  identified : canonical → ∀ v w, p.Registers v → p.Registers w → v.2.tag? = w.2.tag? → v = w

/-- What a computation may do to a pool. -/
structure Extends (p q : Pool) : Prop where
  held : q.held = p.held
  next : p.next ≤ q.next
  enabled : q.registry.enabled = p.registry.enabled
  entries : ∀ k, ∀ e ∈ (p.registry.table k).entries, p.isLive e.2 = true →
    e ∈ (q.registry.table k).entries
  /-- A new entry is for a new object. -/
  origin : ∀ k, ∀ e ∈ (q.registry.table k).entries,
    e ∈ (p.registry.table k).entries ∨ ∃ i, e.2.2.tag? = some i ∧ p.next ≤ i

namespace Extends

theorem refl (p : Pool) : p.Extends p :=
  ⟨rfl, Nat.le_refl _, rfl, fun _ _ he _ => he, fun _ _ he => Or.inl he⟩

theorem trans {r : Pool} (hpq : p.Extends q) (hqr : q.Extends r) : p.Extends r where
  held := hqr.held.trans hpq.held
  next := Nat.le_trans hpq.next hqr.next
  enabled := hqr.enabled.trans hpq.enabled
  entries k e he hlive := by
    apply hqr.entries k e (hpq.entries k e he hlive)
    rw [isLive_congr hpq.held]
    exact hlive
  origin k e he := by
    rcases hqr.origin k e he with he | ⟨i, htag, hi⟩
    · exact hpq.origin k e he
    · exact Or.inr ⟨i, htag, Nat.le_trans hpq.next hi⟩

theorem keeps (h : p.Extends q) (ht : p.Keeps t) : q.Keeps t :=
  ht.congr h.held

/-- A tree that is kept alive stays a tree of the pool. -/
theorem good (h : p.Extends q) (hgood : p.Good canonical t) (hkept : p.Keeps t) :
    q.Good canonical t := by
  refine ⟨hgood.wellFormed, fun i hi => Nat.lt_of_lt_of_le (hgood.older i hi) h.next, ?_⟩
  intro hc v hv
  obtain ⟨k, hkind, hentry⟩ := hgood.registered hc v hv
  exact ⟨k, hkind, h.entries k _ hentry (hkept.isLive hv)⟩

end Extends

theorem Good.of_mem_parts (h : p.Good canonical t) {x : AnyTree Nat} (hx : x ∈ t.parts) :
    p.Good canonical x.2 := by
  refine ⟨TypeTree.wellFormed_of_mem_parts h.wellFormed hx, ?_, ?_⟩
  · intro i hi
    exact h.older i (TypeTree.mem_tags_iff_parts.mpr (Or.inr ⟨x, hx, hi⟩))
  · intro hc v hv
    exact h.registered hc v (TypeTree.mem_nodes_iff_parts.mpr (Or.inr ⟨x, hx, hv⟩))

theorem Keeps.of_mem_parts (h : p.Keeps t) {x : AnyTree Nat} (hx : x ∈ t.parts) : p.Keeps x.2 :=
  fun i hi => h i (TypeTree.mem_tags_iff_parts.mpr (Or.inr ⟨x, hx, hi⟩))

/-- Only the identity and the tables matter to a tree of the pool. -/
theorem Good.congr (h : p.Good canonical t) (hnext : p.next ≤ q.next)
    (hregistry : q.registry = p.registry) : q.Good canonical t := by
  refine ⟨h.wellFormed, fun i hi => Nat.lt_of_lt_of_le (h.older i hi) hnext, ?_⟩
  intro hc v hv
  unfold Registers
  rw [hregistry]
  exact h.registered hc v hv

/-! ## Losing entries -/

/-- A pool that loses entries of dead objects stays sound. -/
theorem Sound.shrink (hs : Sound canonical p) (hext : p.Extends q)
    (hkinds : q.registry.KindsDistinct)
    (hdistinct : ∀ k, (q.registry.table k).KeysDistinct)
    (hentries : ∀ k, ∀ e ∈ (q.registry.table k).entries, e ∈ (p.registry.table k).entries)
    (henabled : q.registry.enabled = p.registry.enabled) : Sound canonical q where
  kindsDistinct := hkinds
  keysDistinct := hdistinct
  kind k e he := hs.kind k e (hentries k e he)
  key k e he := hs.key k e (hentries k e he)
  wellFormed k e he := hs.wellFormed k e (hentries k e he)
  older k e he i hi := Nat.lt_of_lt_of_le (hs.older k e (hentries k e he) i hi) hext.next
  held v hv := by
    rw [hext.held] at hv
    exact hext.good (hs.held v hv) (keeps_of_mem_held hv)
  enabled hc := henabled.trans (hs.enabled hc)
  identified hc v w hv hw htag := by
    obtain ⟨k, hkind, hentry⟩ := hv
    obtain ⟨k', hkind', hentry'⟩ := hw
    exact hs.identified hc v w ⟨k, hkind, hentries k _ hentry⟩
      ⟨k', hkind', hentries k' _ hentry'⟩ htag

/-- **A purge removes nothing that is alive.** -/
theorem extends_purge (p : Pool) : p.Extends p.purge.2 where
  held := rfl
  next := Nat.le_refl _
  enabled := Intern.Registry.purges_purge.enabled
  entries k e he hlive := by
    show e ∈ ((p.registry.purge p.isLive).2.table k).entries
    rw [Intern.Registry.table_purge]
    exact Intern.Table.mem_purge.mpr ⟨he, hlive⟩
  origin k e he := by
    change e ∈ ((p.registry.purge p.isLive).2.table k).entries at he
    rw [Intern.Registry.table_purge] at he
    exact Or.inl (Intern.Table.mem_purge.mp he).1

theorem Sound.purge (hs : Sound canonical p) : Sound canonical p.purge.2 := by
  refine hs.shrink (extends_purge p)
    (Intern.Registry.kindsDistinct_purge hs.kindsDistinct) ?_ ?_
    Intern.Registry.purges_purge.enabled
  · intro k
    show ((p.registry.purge p.isLive).2.table k).KeysDistinct
    rw [Intern.Registry.table_purge]
    exact Intern.Table.keysDistinct_purge (hs.keysDistinct k)
  · intro k e he
    change e ∈ ((p.registry.purge p.isLive).2.table k).entries at he
    rw [Intern.Registry.table_purge] at he
    exact (Intern.Table.mem_purge.mp he).1

/-! ## Holding -/

theorem Sound.hold (hs : Sound canonical p) {vs : List (AnyTree Nat)}
    (hvs : ∀ v ∈ vs, p.Good canonical v.2) : Sound canonical { p with held := vs } where
  kindsDistinct := hs.kindsDistinct
  keysDistinct := hs.keysDistinct
  kind := hs.kind
  key := hs.key
  wellFormed := hs.wellFormed
  older := hs.older
  held v hv := (hvs v hv).congr (Nat.le_refl _) rfl
  enabled := hs.enabled
  identified := hs.identified

/-! ## Objects that are alive -/

/-- An object whose identity occurs in a tree of the pool is one of its trees. -/
theorem good_of_tag {x : AnyTree Nat} {k : Composite} {e : String × AnyTree Nat} {i : Nat}
    (hs : Sound canonical p) (he : e ∈ (p.registry.table k).entries) (htag : e.2.2.tag? = some i)
    (hx : p.Good canonical x.2) (hi : i ∈ x.2.tags) : p.Good canonical e.2.2 := by
  refine ⟨hs.wellFormed k e he, hs.older k e he, ?_⟩
  intro hc v hv
  obtain ⟨w, hw, hwtag⟩ := TypeTree.mem_tags_iff.mp hi
  have hregistered : p.Registers e.2 :=
    ⟨k, hs.kind k e he, by rw [← hs.key k e he]; exact he⟩
  have heq : e.2 = w :=
    hs.identified hc _ _ hregistered (hx.registered hc w hw) (htag.trans hwtag.symm)
  rw [heq] at hv
  exact hx.registered hc v (TypeTree.nodes_trans hw hv)

/-- **A live object that is registered is a tree of the pool.** -/
theorem Sound.good_of_isLive (hs : Sound canonical p) {k : Composite} {e : String × AnyTree Nat}
    (he : e ∈ (p.registry.table k).entries) (hlive : p.isLive e.2 = true) :
    p.Good canonical e.2.2 := by
  obtain ⟨i, htag, v, hv, hi⟩ := isLive_iff.mp hlive
  exact good_of_tag hs he htag (hs.held v hv) hi

/-- The next identity is nobody's yet. -/
theorem Sound.tag?_ne_next (hs : Sound canonical p) {k : Composite} {e : String × AnyTree Nat}
    (he : e ∈ (p.registry.table k).entries) : e.2.2.tag? ≠ some p.next := by
  intro htag
  have hlt := hs.older k e he p.next (TypeTree.mem_tags_iff_parts.mpr (Or.inl htag))
  exact Nat.lt_irrefl _ hlt

/-! ## Interning -/

/-- A tree that may be interned: its identity is the next one, and its parts are
trees of the pool. -/
structure Draft (canonical : Prop) (p : Pool) {f : Form} (t : TypeTree Nat f) : Prop where
  tag : t.tag? = some p.next
  wellFormed : t.WellFormed
  parts : ∀ x ∈ t.parts, p.Good canonical x.2

theorem Draft.older (h : p.Draft canonical t) {i : Nat} (hi : i ∈ t.tags) :
    i = p.next ∨ ∃ x ∈ t.parts, i ∈ x.2.tags := by
  rcases TypeTree.mem_tags_iff_parts.mp hi with htag | hparts
  · rw [h.tag] at htag
    exact Or.inl (Option.some.inj htag).symm
  · exact Or.inr hparts

/-- The tree that is interned reaches itself and trees that are registered. -/
theorem Draft.registered (h : p.Draft canonical t) (hc : canonical) {v : AnyTree Nat}
    (hv : v ∈ t.nodes) : v = ⟨f, t⟩ ∨ p.Registers v := by
  rcases TypeTree.mem_nodes_iff_parts.mp hv with ⟨rfl, -⟩ | ⟨x, hx, hv⟩
  · exact Or.inl rfl
  · exact Or.inr ((h.parts x hx).registered hc v hv)

theorem Draft.lt_next (h : p.Draft canonical t) {i : Nat} (hi : i ∈ t.tags) : i < p.next + 1 := by
  rcases h.older hi with rfl | ⟨x, hx, hi⟩
  · exact Nat.lt_succ_self _
  · exact Nat.lt_succ_of_lt ((h.parts x hx).older i hi)

/-- The tree is alive while it is held. -/
theorem Draft.isLive_self (h : p.Draft canonical t) :
    { p with held := ⟨f, t⟩ :: p.held }.isLive ⟨f, t⟩ = true := by
  have htags : p.next ∈ t.tags := TypeTree.mem_tags_iff_parts.mpr (Or.inl h.tag)
  exact isLive_iff.mpr ⟨p.next, h.tag, ⟨f, t⟩, List.mem_cons_self, htags⟩

/-- A live object that answers for the tree is a tree of the pool, also when it is
alive as a part of the tree only. -/
theorem Draft.good_of_isLive (h : p.Draft canonical t) (hs : Sound canonical p) {k : Composite}
    {e : String × AnyTree Nat} (he : e ∈ (p.registry.table k).entries)
    (hlive : { p with held := ⟨f, t⟩ :: p.held }.isLive e.2 = true) :
    p.Good canonical e.2.2 := by
  obtain ⟨i, htag, v, hv, hi⟩ := isLive_iff.mp hlive
  rcases List.mem_cons.mp hv with rfl | hv
  · rcases h.older hi with rfl | ⟨x, hx, hi⟩
    · exact absurd htag (hs.tag?_ne_next he)
    · exact good_of_tag hs he htag (h.parts x hx) hi
  · exact good_of_tag hs he htag (hs.held v hv) hi

/-- What holds of a pool and a tree that it has made. -/
structure Makes (canonical : Prop) (p q : Pool) {f : Form} (t : TypeTree Nat f) : Prop where
  sound : Sound canonical q
  ext : p.Extends q
  good : q.Good canonical t

/-- Nothing is registered or lost: an object answers, or the pool is off. -/
theorem makes_of_tables (hs : Sound canonical p) (hheld : q.held = p.held)
    (hnext : q.next = p.next + 1) (hkinds : q.registry.KindsDistinct)
    (htables : ∀ k, q.registry.table k = p.registry.table k)
    (henabled : q.registry.enabled = p.registry.enabled) {u : TypeTree Nat f}
    (hu : u.WellFormed) (holder : ∀ i ∈ u.tags, i < q.next)
    (hregistered : canonical → ∀ v ∈ u.nodes, p.Registers v) : Makes canonical p q u := by
  have hext : p.Extends q := by
    refine ⟨hheld, hnext ▸ Nat.le_succ _, henabled, ?_, ?_⟩
    · intro k e he _
      rw [htables]
      exact he
    · intro k e he
      rw [htables] at he
      exact Or.inl he
  refine ⟨hs.shrink hext hkinds ?_ ?_ henabled, hext, hu, holder, ?_⟩
  · intro k
    rw [htables]
    exact hs.keysDistinct k
  · intro k e he
    rw [htables] at he
    exact he
  · intro hc v hv
    unfold Registers
    simp only [htables]
    exact hregistered hc v hv

/-- The pool has a new entry, for the tree that was asked for. Entries of what is dead
may be gone. -/
structure Adds (p q : Pool) {f : Form} (t : TypeTree Nat f) (k : Composite) : Prop where
  held : q.held = p.held
  next : q.next = p.next + 1
  enabled : q.registry.enabled = p.registry.enabled
  self : (t.key, ⟨f, t⟩) ∈ (q.registry.table k).entries
  kindsDistinct : p.registry.KindsDistinct → q.registry.KindsDistinct
  keysDistinct : ∀ l, (p.registry.table l).KeysDistinct → (q.registry.table l).KeysDistinct
  kept : ∀ l, ∀ e ∈ (p.registry.table l).entries,
    { p with held := ⟨f, t⟩ :: p.held }.isLive e.2 = true → e ∈ (q.registry.table l).entries
  origin : ∀ l, ∀ e ∈ (q.registry.table l).entries,
    e ∈ (p.registry.table l).entries ∨ l = k ∧ e = (t.key, ⟨f, t⟩)

/-- The tree is registered, since no live object has its key. -/
theorem adds_of_register (hs : Sound canonical p) (hd : p.Draft canonical t) {k : Composite}
    {s : Intern.Strategy}
    (hheld : q.held = p.held) (hnext : q.next = p.next + 1)
    (henabled : q.registry.enabled = p.registry.enabled)
    (hkinds : p.registry.KindsDistinct → q.registry.KindsDistinct)
    (hnone : (p.registry.table k).find? { p with held := ⟨f, t⟩ :: p.held }.isLive t.key = none)
    (hself : q.registry.table k = (p.registry.table k).register s
      { p with held := ⟨f, t⟩ :: p.held }.isLive t.key ⟨f, t⟩)
    (hother : ∀ l, l ≠ k → q.registry.table l = p.registry.table l) : p.Adds q t k where
  held := hheld
  next := hnext
  enabled := henabled
  self := by
    rw [hself]
    exact Intern.Table.self_mem_register hd.isLive_self
  kindsDistinct := hkinds
  keysDistinct l hl := by
    by_cases hk : l = k
    · subst hk
      rw [hself]
      exact Intern.Table.keysDistinct_register hl
    · rw [hother l hk]
      exact hl
  kept l e he hlive := by
    by_cases hk : l = k
    · subst hk
      rw [hself]
      refine Intern.Table.mem_register_of_alive he ?_ hlive
      -- Another live object with the key would have been found.
      intro hkey
      have hentry : (t.key, e.2) ∈ (p.registry.table l).entries := by
        rw [← hkey]
        exact he
      have hfound := (Intern.Table.find?_eq_some_iff (hs.keysDistinct l)).mpr ⟨hentry, hlive⟩
      rw [hnone] at hfound
      exact absurd hfound (by simp)
    · rw [hother l hk]
      exact he
  origin l e he := by
    by_cases hk : l = k
    · subst hk
      rw [hself] at he
      rcases Intern.Table.mem_of_mem_register he with heq | ⟨he, -⟩
      · exact Or.inr ⟨rfl, heq⟩
      · exact Or.inl he
    · rw [hother l hk] at he
      exact Or.inl he

theorem Adds.extends {k : Composite} (h : p.Adds q t k) (htag : t.tag? = some p.next) :
    p.Extends q where
  held := h.held
  next := h.next ▸ Nat.le_succ _
  enabled := h.enabled
  entries l e he hlive := h.kept l e he (isLive_hold hlive)
  origin l e he := by
    rcases h.origin l e he with he | ⟨-, rfl⟩
    · exact Or.inl he
    · exact Or.inr ⟨p.next, htag, Nat.le_refl _⟩

/-- What holds of the entries that were there and of the new one holds of all. -/
theorem Adds.forall_entries {k : Composite} (h : p.Adds q t k)
    {P : Composite → String × AnyTree Nat → Prop}
    (hold : ∀ l, ∀ e ∈ (p.registry.table l).entries, P l e) (hnew : P k (t.key, ⟨f, t⟩)) :
    ∀ l, ∀ e ∈ (q.registry.table l).entries, P l e := by
  intro l e he
  rcases h.origin l e he with he | ⟨rfl, rfl⟩
  · exact hold l e he
  · exact hnew

theorem Adds.good {k : Composite} (h : p.Adds q t k) (hd : p.Draft canonical t)
    (hkind : t.composite? = some k) : q.Good canonical t := by
  refine ⟨hd.wellFormed, fun i hi => h.next ▸ hd.lt_next hi, ?_⟩
  intro hc v hv
  rcases hd.registered hc hv with rfl | ⟨l, hl, hentry⟩
  · exact ⟨k, hkind, h.self⟩
  · -- What the tree reaches is alive as long as the tree is.
    refine ⟨l, hl, h.kept l _ hentry ?_⟩
    obtain ⟨i, hi⟩ := TypeTree.tag?_of_mem_nodes hv
    have htags : i ∈ t.tags := TypeTree.mem_tags_iff.mpr ⟨v, hv, hi⟩
    exact isLive_iff.mpr ⟨i, hi, ⟨f, t⟩, List.mem_cons_self, htags⟩

/-- The new identity is not one of an older entry. -/
theorem Adds.identified {k : Composite} (h : p.Adds q t k) (hs : Sound canonical p)
    (hd : p.Draft canonical t) (hc : canonical) (v w : AnyTree Nat) (hv : q.Registers v)
    (hw : q.Registers w) (htag : v.2.tag? = w.2.tag?) : v = w := by
  obtain ⟨kv, hkv, hv⟩ := hv
  obtain ⟨kw, hkw, hw⟩ := hw
  rcases h.origin kv _ hv with hv' | ⟨rfl, hv'⟩ <;> rcases h.origin kw _ hw with hw' | ⟨rfl, hw'⟩
  · exact hs.identified hc v w ⟨kv, hkv, hv'⟩ ⟨kw, hkw, hw'⟩ htag
  · obtain ⟨-, rfl⟩ := Prod.mk.inj hw'
    exact absurd (htag.trans hd.tag) (hs.tag?_ne_next hv')
  · obtain ⟨-, rfl⟩ := Prod.mk.inj hv'
    exact absurd (htag.symm.trans hd.tag) (hs.tag?_ne_next hw')
  · rw [(Prod.mk.inj hv').2, (Prod.mk.inj hw').2]

theorem Adds.makes {k : Composite} (h : p.Adds q t k) (hs : Sound canonical p)
    (hd : p.Draft canonical t) (hkind : t.composite? = some k) : Makes canonical p q t where
  ext := h.extends hd.tag
  good := h.good hd hkind
  sound := {
    kindsDistinct := h.kindsDistinct hs.kindsDistinct
    keysDistinct := fun l => h.keysDistinct l (hs.keysDistinct l)
    kind := h.forall_entries hs.kind hkind
    key := h.forall_entries hs.key rfl
    wellFormed := h.forall_entries hs.wellFormed hd.wellFormed
    older := h.forall_entries
      (fun l e he i hi => Nat.lt_of_lt_of_le (hs.older l e he i hi) (h.extends hd.tag).next)
      (h.good hd hkind).older
    held := by
      rw [h.held]
      exact fun v hv => (h.extends hd.tag).good (hs.held v hv) (keeps_of_mem_held hv)
    enabled := by
      rw [h.enabled]
      exact hs.enabled
    identified := h.identified hs hd }

/-- **Interning.** The answer is equal as a type to the tree that was asked for, it
is a tree of the pool, and nothing that is alive is lost. -/
theorem intern_spec (hs : Sound canonical p) {draft : Nat → TypeTree Nat f}
    (hd : p.Draft canonical (draft p.next)) :
    Makes canonical p (p.intern draft).2 (p.intern draft).1 ∧
      (p.intern draft).1.plain = (draft p.next).plain := by
  obtain ⟨k, hkind⟩ : ∃ k, (draft p.next).composite? = some k := by
    rw [← Option.isSome_iff_exists, TypeTree.isSome_composite?, hd.tag]
    rfl
  have hform : f = k.form := TypeTree.form_of_composite? hkind
  unfold intern
  simp only [hkind]
  cases henabled : p.registry.enabled with
  | false =>
      -- Off: the tree is the answer, and no table changes.
      rw [Intern.Registry.acquire_of_disabled henabled]
      simp only [AnyTree.as?_mk, Option.getD_some, and_true]
      apply makes_of_tables hs (by rfl) (by rfl) (by exact hs.kindsDistinct) (fun _ => by rfl)
        (by rfl) hd.wellFormed
      · exact fun i hi => hd.lt_next hi
      · intro hc
        rw [hs.enabled hc] at henabled
        exact absurd henabled (by decide)
  | true =>
      cases hfind : (p.registry.table k).find?
          { p with held := ⟨f, draft p.next⟩ :: p.held }.isLive (draft p.next).key with
      | some v =>
          -- A live object has the key, and by its key it is equal as a type.
          obtain ⟨hentry, hlive⟩ :=
            (Intern.Table.find?_eq_some_iff (hs.keysDistinct k)).mp hfind
          have hgood := hd.good_of_isLive hs hentry hlive
          have hvkind : v.2.composite? = some k := hs.kind k _ hentry
          have hvkey : (draft p.next).key = v.2.key := hs.key k _ hentry
          rw [Intern.Registry.acquire_of_find? henabled hfind]
          obtain ⟨g, u⟩ := v
          obtain rfl : g = k.form := TypeTree.form_of_composite? hvkind
          subst hform
          simp only [AnyTree.as?_mk, Option.getD_some]
          constructor
          · apply makes_of_tables hs (by rfl) (by rfl)
              (by exact Intern.Registry.kindsDistinct_setTable hs.kindsDistinct)
              (fun k' => by exact Intern.Registry.table_setTable_table)
              (by exact Intern.Registry.enabled_setTable) hgood.wellFormed
            · exact fun i hi => Nat.lt_succ_of_lt (hgood.older i hi)
            · exact hgood.registered
          · exact (TypeTree.key_eq_iff hgood.wellFormed hd.wellFormed).mp hvkey.symm
      | none =>
          rw [Intern.Registry.acquire_of_find?_eq_none henabled hfind]
          simp only [AnyTree.as?_mk, Option.getD_some, and_true]
          refine Adds.makes ?_ hs hd hkind
          exact adds_of_register hs hd rfl rfl Intern.Registry.enabled_setTable
            Intern.Registry.kindsDistinct_setTable hfind Intern.Registry.table_setTable_self
            fun l hl => Intern.Registry.table_setTable_of_ne hl

/-- **Finding.** What is found is a live tree of the pool with the given key. -/
theorem find?_spec (hs : Sound canonical p) {k : Composite} {key : String}
    {u : TypeTree Nat k.form} (h : p.find? k key = some u) :
    p.Good canonical u ∧ u.composite? = some k ∧ u.key = key := by
  obtain ⟨v, hv, hu⟩ := Option.bind_eq_some_iff.mp h
  have hfind : (p.registry.table k).find? p.isLive key = some v := by
    unfold Intern.Registry.find? at hv
    split_ifs at hv
    exact hv
  obtain ⟨hentry, hlive⟩ := (Intern.Table.find?_eq_some_iff (hs.keysDistinct k)).mp hfind
  obtain ⟨g, t⟩ := v
  obtain rfl : g = k.form := TypeTree.form_of_composite? (hs.kind k _ hentry)
  rw [AnyTree.as?_mk] at hu
  obtain rfl := Option.some.inj hu
  exact ⟨hs.good_of_isLive hentry hlive, hs.kind k _ hentry, (hs.key k _ hentry).symm⟩

end Pool

end ClassfileTypes
