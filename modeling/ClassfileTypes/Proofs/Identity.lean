import ClassfileTypes.Proofs.Sessions
import ClassfileTypes.Proofs.UniqueReading

/-!
# Keys and objects

Two composite trees of one kind that sessions can make have the same key exactly
if they are equal as types. So in a session whose pool is never off, two of them
are one object exactly if they are equal as types: the pool has one entry for a
key, and it keeps the entries of what is held.
-/

namespace ClassfileTypes

/-- Trees of one kind have the same key exactly if they are equal as types. -/
theorem AnyTree.key_eq_iff {ι κ : Type} {v : AnyTree ι} {w : AnyTree κ} {k : Composite}
    (hv : v.2.WellFormed) (hw : w.2.WellFormed) (hkv : v.2.composite? = some k)
    (hkw : w.2.composite? = some k) : v.2.key = w.2.key ↔ v.plain = w.plain := by
  obtain ⟨f, t⟩ := v
  obtain ⟨g, u⟩ := w
  obtain rfl : f = k.form := TypeTree.form_of_composite? hkv
  obtain rfl : g = k.form := TypeTree.form_of_composite? hkw
  rw [show (t.key = u.key ↔ _) from TypeTree.key_eq_iff hv hw]
  constructor
  · intro h
    exact congrArg (Sigma.mk k.form) h
  · intro h
    exact eq_of_heq (Sigma.mk.inj h).2

namespace Session

open Pool

variable {canonical : Prop} {s : Session} {v w : AnyTree Nat}

/-- A composite tree that a register holds, or that what a register holds reaches. -/
def Reaches (s : Session) (v : AnyTree Nat) : Prop :=
  ∃ e ∈ s.registers, v ∈ e.2.2.nodes

instance (s : Session) (v : AnyTree Nat) : Decidable (s.Reaches v) :=
  inferInstanceAs (Decidable (∃ e ∈ s.registers, v ∈ e.2.2.nodes))

theorem Reaches.exists_kind (h : s.Reaches v) : ∃ k, v.2.composite? = some k := by
  obtain ⟨e, -, hv⟩ := h
  obtain ⟨i, hi⟩ := TypeTree.tag?_of_mem_nodes hv
  rw [← Option.isSome_iff_exists, TypeTree.isSome_composite?, hi]
  rfl

theorem Valid.wellFormed_of_reaches (h : s.Valid canonical) (hv : s.Reaches v) :
    v.2.WellFormed := by
  obtain ⟨e, he, hv⟩ := hv
  exact TypeTree.wellFormed_of_mem_nodes (h.holds e he).good.wellFormed hv

/-- In a canonical session everything that is reached is registered. -/
theorem Valid.registers_of_reaches (h : s.Valid canonical) (hc : canonical) (hv : s.Reaches v) :
    s.pool.Registers v := by
  obtain ⟨e, he, hv⟩ := hv
  exact (h.holds e he).good.registered hc v hv

/-- **Keys tell trees apart.** Whatever sessions make them. -/
theorem key_eq_key_iff {c c' : Intern.Config} {steps steps' : List Step} {a b : AnyTree Nat}
    (ha : ((start c).after steps).Reaches a) (hb : ((start c').after steps').Reaches b)
    (hkind : a.2.composite? = b.2.composite?) : a.2.key = b.2.key ↔ a.plain = b.plain := by
  obtain ⟨k, hk⟩ := ha.exists_kind
  exact AnyTree.key_eq_iff ((valid_after_start c steps).wellFormed_of_reaches ha)
    ((valid_after_start c' steps').wellFormed_of_reaches hb) hk (hkind ▸ hk)

/-- A name may hold `#`, it may be given in two ways, and the sessions may differ. -/
theorem key_eq_key_iff_in_two_sessions :
    (TypeTree.classDescriptor 0 "a/b#").key = (TypeTree.classDescriptor 1 "a/b#").key ↔
      AnyTree.plain ⟨_, .classDescriptor 0 "a/b#"⟩ =
        AnyTree.plain ⟨_, .classDescriptor 1 "a/b#"⟩ :=
  @key_eq_key_iff {} { strategy := .locked }
    [.value (.classDescriptor .checked "a/b#") (some "x")]
    [.enable false, .value .objectDescriptor (some "x"),
      .value (.classDescriptor .asserted "a.b#") (some "y")]
    ⟨_, .classDescriptor 0 "a/b#"⟩ ⟨_, .classDescriptor 1 "a/b#"⟩
    (by decide +kernel) (by decide +kernel) rfl

/-- Two registered trees of one kind with the same key are the same object. -/
theorem eq_of_registers (hs : Sound canonical s.pool) (hv : s.pool.Registers v)
    (hw : s.pool.Registers w) (hkind : v.2.composite? = w.2.composite?)
    (hkey : v.2.key = w.2.key) : v = w := by
  obtain ⟨k, hk, hv⟩ := hv
  obtain ⟨k', hk', hw⟩ := hw
  obtain rfl : k = k' := Option.some.inj (hk.symm.trans (hkind.trans hk'))
  have hentry := (hs.keysDistinct k).eq_of_key_eq hv hw hkey
  exact congrArg Prod.snd hentry

/-- In a canonical session an object is told by what it is as a type. -/
theorem Valid.tag?_eq_iff (h : s.Valid canonical) (hc : canonical) (hv : s.Reaches v)
    (hw : s.Reaches w) (hkind : v.2.composite? = w.2.composite?) :
    v.2.tag? = w.2.tag? ↔ v.plain = w.plain := by
  have hrv := h.registers_of_reaches hc hv
  have hrw := h.registers_of_reaches hc hw
  constructor
  · intro htag
    rw [h.sound.identified hc v w hrv hrw htag]
  · intro hplain
    obtain ⟨k, hk⟩ := hv.exists_kind
    have hkey := (AnyTree.key_eq_iff (h.wellFormed_of_reaches hv) (h.wellFormed_of_reaches hw) hk
      (hkind ▸ hk)).mpr hplain
    rw [eq_of_registers h.sound hrv hrw hkind hkey]

/-- **One object for each tree.** As long as the pool is on, two trees of one kind
that are alive are the same object exactly if they are equal as types. -/
theorem same?_eq_isEqual {c : Intern.Config} (hc : c.enabled = true) {steps : List Step}
    (hsteps : ∀ st ∈ steps, st.keepsEnabled = true) {a b : AnyTree Nat}
    (ha : ((start c).after steps).Reaches a) (hb : ((start c).after steps).Reaches b)
    (hkind : a.2.composite? = b.2.composite?) : same? a b = some (a.isEqual b) := by
  have hvalid : ((start c).after steps).Valid True :=
    (valid_start c fun _ => hc).after steps fun _ => hsteps
  have hiff := hvalid.tag?_eq_iff trivial ha hb hkind
  obtain ⟨e, -, hea⟩ := ha
  obtain ⟨e', -, heb⟩ := hb
  obtain ⟨i, hi⟩ := TypeTree.tag?_of_mem_nodes hea
  obtain ⟨j, hj⟩ := TypeTree.tag?_of_mem_nodes heb
  rw [hi, hj, Option.some_inj, ← AnyTree.isEqual_iff] at hiff
  unfold same?
  rw [if_pos hkind, hi, hj]
  refine congrArg some ?_
  rw [Bool.eq_iff_iff, decide_eq_true_iff]
  exact hiff

/-- A class that was read, also inside a larger text, is the class that was made by name before,
also after a purge. -/
theorem same?_eq_isEqual_after_purge :
    same? ⟨_, .classDescriptor 0 "a"⟩ ⟨_, .classDescriptor 0 "a"⟩ =
      some (AnyTree.isEqual ⟨_, .classDescriptor 0 "a"⟩ ⟨_, .classDescriptor 0 "a"⟩) :=
  @same?_eq_isEqual {} rfl
    [.value (.classDescriptor .checked "a") (some "x"), .purge,
      .value (.parse .classDescriptor "La;") (some "y"), .drop "x",
      .value (.parseAt .classDescriptor "([La;)V" 2) (some "z")]
    (by decide) ⟨_, .classDescriptor 0 "a"⟩ ⟨_, .classDescriptor 0 "a"⟩
    (by decide +kernel) (by decide +kernel) rfl

end Session

end ClassfileTypes
