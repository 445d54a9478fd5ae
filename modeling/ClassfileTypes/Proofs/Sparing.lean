import ClassfileTypes.Proofs.Making
import Mathlib.Data.List.Basic

/-!
# Computations that register nothing in vain

A pool that has a live object for every type in a tree has no reason to change its tables
while the tree is made again. That is so if the computation asks for nothing but parts of
what it gives in the end. A run *spares* the pool in this sense if it refines the plain one,
and changes no table as long as the pool has all the types in the plain outcome.

What a computation was given has to be in the outcome too, so that a sequence of
computations can be put together: the outcome of each is needed by the next.
-/

namespace ClassfileTypes.Pool

open TypeTree

variable {p q : Pool} {f g : Form} {α β γ δ ε ε' : Type}

/-! ## Types that a pool has -/

/-- There is a live object for the type. -/
def Has (p : Pool) (w : AnyTree Unit) : Prop :=
  ∀ k, w.2.composite? = some k → ((p.registry.table k).find? p.isLive w.2.key).isSome

theorem Has.congr {w : AnyTree Unit} (h : p.Has w) (hheld : q.held = p.held)
    (htables : ∀ k, q.registry.table k = p.registry.table k) : q.Has w := by
  intro k hk
  rw [htables, funext (isLive_congr hheld)]
  exact h k hk

/-- More is found when more is held. -/
theorem isSome_find?_hold {t : Intern.Table (AnyTree Nat)} {key : String} {v : AnyTree Nat}
    (h : (t.find? p.isLive key).isSome) :
    (t.find? { p with held := v :: p.held }.isLive key).isSome := by
  obtain ⟨w, hw⟩ := Option.isSome_iff_exists.mp h
  obtain ⟨hlookup, hlive⟩ := Option.filter_eq_some_iff.mp hw
  exact Option.isSome_iff_exists.mpr
    ⟨w, Option.filter_eq_some_iff.mpr ⟨hlookup, isLive_hold hlive⟩⟩

theorem Has.hold {w : AnyTree Unit} (h : p.Has w) {t : TypeTree Nat f} : (p.hold t).Has w :=
  fun k hk => isSome_find?_hold (h k hk)

/-- The types in what was made are those that were needed and more, and the tables are the
same if the pool had them all. -/
structure Spared (p : Pool) (needed made : List (AnyTree Unit)) (q : Pool) : Prop where
  subset : needed ⊆ made
  tables : (∀ w ∈ made, p.Has w) → ∀ k, q.registry.table k = p.registry.table k

/-- What is held meanwhile does not matter. -/
theorem Spared.of_hold {needed made : List (AnyTree Unit)} {t : TypeTree Nat f}
    (h : (p.hold t).Spared needed made q) : p.Spared needed made q :=
  ⟨h.subset, fun hmade => h.tables fun w hw => (hmade w hw).hold⟩

/-! ## Sparing runs -/

/-- Values are related, and the pool was spared. -/
def Sparing (R : Pool → α → β → Prop) (nodes : β → List (AnyTree Unit))
    (needed : List (AnyTree Unit)) (p q : Pool) (a : α) (b : β) : Prop :=
  R q a b ∧ p.Spared needed (nodes b) q

/-- The run refines the plain one, and spares the pool. -/
abbrev Spares (R : Pool → α → β → Prop) (nodes : β → List (AnyTree Unit))
    (needed : List (AnyTree Unit)) (p : Pool) (x : ExceptT ε PoolM α) (y : ExceptT ε Id β) :
    Prop :=
  Refines True (Sparing R nodes needed p) p x y

variable {R : Pool → α → β → Prop} {S : Pool → γ → δ → Prop} {nodes : β → List (AnyTree Unit)}
  {nodes' : δ → List (AnyTree Unit)} {needed needed' : List (AnyTree Unit)}
  {x : ExceptT ε PoolM α} {y : ExceptT ε Id β}

instance [Lasting R] : Lasting (Sparing R nodes needed p) where
  congr hnext hregistry h :=
    ⟨Lasting.congr (R := R) hnext hregistry h.1, h.2.subset, fun hmade k => by
      rw [hregistry]
      exact h.2.tables hmade k⟩

namespace Spares

theorem pure {a : α} {b : β} (hR : R p a b) (hsubset : needed ⊆ nodes b) :
    Spares R nodes needed p (Pure.pure a : ExceptT ε PoolM α) (Pure.pure b) :=
  Refines.pure ⟨hR, hsubset, fun _ _ => rfl⟩

/-- Less may be needed. -/
theorem of_subset (hx : Spares R nodes needed p x y) (hsubset : needed' ⊆ needed) :
    Spares R nodes needed' p x y :=
  hx.mono fun _ _ _ _ h => ⟨h.1, List.Subset.trans hsubset h.2.subset, h.2.tables⟩

/-- **Computations in sequence.** The second one needs the outcome of the first one. -/
theorem bind {first : List (AnyTree Unit)} {k : α → ExceptT ε PoolM γ} {l : β → ExceptT ε Id δ}
    (hx : Spares R nodes first p x y)
    (hk : ∀ q a b, p.Extends q → R q a b → first ⊆ nodes b → y.run = .ok b →
      Spares S nodes' (needed ++ nodes b) q (k a) (l b)) :
    Spares S nodes' needed p (x >>= k) (y >>= l) := by
  apply Refines.bind hx
  rintro q a b hext ⟨hR, hspared⟩ hy
  refine (hk q a b hext hR hspared.subset hy).mono ?_
  rintro q' c d - ⟨hS, hspared'⟩
  obtain ⟨hneeded, hmade⟩ := List.append_subset.mp hspared'.subset
  refine ⟨hS, hneeded, fun hhas kind => ?_⟩
  -- The second computation starts with the tables that the pool had.
  have hsame := hspared.tables fun w hw => hhas w (hmade hw)
  rw [hspared'.tables (fun w hw => (hhas w hw).congr hext.held hsame), hsame]

/-- The first computation has put what was needed into its outcome. -/
theorem through {k : α → ExceptT ε PoolM γ} {l : β → ExceptT ε Id δ}
    (hx : Spares R nodes needed p x y)
    (hk : ∀ q a b, p.Extends q → R q a b → y.run = .ok b →
      Spares S nodes' (nodes b) q (k a) (l b)) :
    Spares S nodes' needed p (x >>= k) (y >>= l) := by
  apply bind hx
  intro q a b hext hR hsubset hy
  exact (hk q a b hext hR hy).of_subset (List.append_subset.mpr ⟨hsubset, List.Subset.refl _⟩)

/-- Holding a tree to the end. -/
theorem held [Lasting R] {t : TypeTree Nat f} {u : TypeTree Unit f} (ht : p.Good True t)
    (hx : Spares R nodes needed (p.hold t) x y) :
    Spares R nodes needed p (MonadPool.holding t x) (MonadPool.holding u y) :=
  (Refines.held ht hx).mono fun _ _ _ _ h => ⟨h.1, h.2.of_hold⟩

/-- A tree is held while something is computed, and is still there afterwards. -/
theorem holding_bind [Lasting R] {t : TypeTree Nat f} {u : TypeTree Unit f}
    (ht : Tagged True p t u) (hx : Spares R nodes [] (p.hold t) x y)
    {k : α → ExceptT ε PoolM γ} {l : β → ExceptT ε Id δ}
    (hk : ∀ q a b, p.Extends q → Tagged True q t u → R q a b →
      Spares S nodes' (needed ++ nodes b) q (k a) (l b)) :
    Spares S nodes' needed p (MonadPool.holding t x >>= k) (MonadPool.holding u y >>= l) := by
  have hheld : Spares (fun q a b => R q a b ∧ q.Good True t) nodes [] p
      (MonadPool.holding t x) (MonadPool.holding u y) :=
    (Refines.holding (u := u) ht.good hx).mono fun _ _ _ _ h =>
      ⟨⟨h.1.1, h.2⟩, h.1.2.of_hold⟩
  apply bind hheld
  rintro q a b hext ⟨hR, hgood⟩ - -
  exact hk q a b hext ⟨hgood, ht.plain⟩ hR

end Spares

/-! ## Asking for one tree -/

/-- At most one tree is asked for, and it is the outcome. -/
def AsksOnce (x : ExceptT ε PoolM (TypeTree Nat f)) : Prop :=
  (∃ e, x = throw e) ∨ ∃ draft, x = MonadPool.intern draft

theorem AsksOnce.intern {draft : Nat → TypeTree Nat f} :
    AsksOnce (MonadPool.intern draft : ExceptT ε PoolM _) :=
  Or.inr ⟨draft, rfl⟩

/-- A check comes before. -/
theorem AsksOnce.checked_bind {a : Except ConstructionError α}
    {k : α → ExceptT TypeError PoolM (TypeTree Nat f)} (hk : ∀ b, AsksOnce (k b)) :
    AsksOnce (checked a >>= k) := by
  cases a with
  | ok b => exact hk b
  | error e => exact Or.inl ⟨_, rfl⟩

/-- A pool that has the types in the tree that answers has answered with one of its own. -/
theorem table_intern_of_has {draft : Nat → TypeTree Nat f}
    (hhas : ∀ w ∈ (p.intern draft).1.plain.nodes, p.Has w) (k : Composite) :
    (p.intern draft).2.registry.table k = p.registry.table k := by
  unfold Pool.intern at hhas ⊢
  dsimp only at hhas ⊢
  cases hkind : (draft p.next).composite? with
  | none => rfl
  | some kind =>
      rw [hkind] at hhas
      dsimp only at hhas ⊢
      cases henabled : p.registry.enabled with
      | false => rw [Intern.Registry.acquire_of_disabled henabled]
      | true =>
          cases hfind : (p.registry.table kind).find?
              { p with held := ⟨f, draft p.next⟩ :: p.held }.isLive (draft p.next).key with
          | some v =>
              rw [Intern.Registry.acquire_of_find? henabled hfind]
              exact Intern.Registry.table_setTable_table
          | none =>
              -- The candidate would be the answer, but the pool has an object for it.
              rw [Intern.Registry.acquire_of_find?_eq_none henabled hfind] at hhas
              simp only [AnyTree.as?_mk, Option.getD_some] at hhas
              have hplain : (draft p.next).plain.composite? = some kind := by
                rw [← hkind]
                exact composite?_mapTags _ _
              obtain ⟨i, htag⟩ : ∃ i, (draft p.next).plain.tag? = some i := by
                rw [← Option.isSome_iff_exists, ← isSome_composite?, hplain]
                rfl
              have hfound := isSome_find?_hold (v := ⟨f, draft p.next⟩)
                (hhas _ (self_mem_nodes htag) kind hplain)
              rw [key_plain, hfind] at hfound
              cases hfound

/-- **Making one tree** spares the pool, if what was needed is in the tree. -/
theorem AsksOnce.spares {x : ExceptT ε PoolM (TypeTree Nat f)} {y : ExceptT ε Id (TypeTree Unit f)}
    (hx : AsksOnce x) (hr : Refines True (Tagged True) p x y)
    (hsubset : ∀ u, y.run = .ok u → needed ⊆ u.nodes) :
    Spares (Tagged True) TypeTree.nodes needed p x y := by
  intro hs
  obtain ⟨hsound, hext, hR⟩ := hr hs
  refine ⟨hsound, hext, ?_⟩
  change Outcome (Tagged True) _ (x.run p).1 y.run at hR
  show Outcome (Sparing (Tagged True) TypeTree.nodes needed p) _ (x.run p).1 y.run
  cases hy : y.run with
  | error e' =>
      rw [hy] at hR
      cases hxp : (x.run p).1 with
      | ok t =>
          rw [hxp] at hR
          exact hR.elim
      | error e =>
          rw [hxp] at hR
          exact hR
  | ok u =>
      rcases hx with ⟨e, rfl⟩ | ⟨draft, rfl⟩
      · rw [hy] at hR
        exact hR.elim
      · rw [hy] at hR
        have ht : Tagged True (p.intern draft).2 (p.intern draft).1 u := hR
        refine ⟨ht, hsubset u hy, fun hhas => ?_⟩
        rw [← ht.plain] at hhas
        exact table_intern_of_has hhas

/-! ## The checked constructions -/

section

variable {o : TypeTree Nat .enclosing} {o' : TypeTree Unit .enclosing}
  {as : TypeTree Nat (.list .typeArgument)} {as' : TypeTree Unit (.list .typeArgument)}

theorem spares_makeClassDescriptor (n : String) :
    Spares (Tagged True) TypeTree.nodes [] p (makeClassDescriptor n) (makeClassDescriptor n) :=
  AsksOnce.spares (.checked_bind fun _ => .intern) (refines_makeClassDescriptor n)
    fun _ _ => List.nil_subset _

theorem spares_makeFreeVariable (n : String) :
    Spares (Tagged True) TypeTree.nodes [] p (makeFreeVariable n) (makeFreeVariable n) :=
  AsksOnce.spares (.checked_bind fun _ => .intern) (refines_makeFreeVariable n)
    fun _ _ => List.nil_subset _

theorem spares_makeClassType (n : String) (ho : Tagged True p o o') (has : Tagged True p as as') :
    Spares (Tagged True) TypeTree.nodes (o'.nodes ++ as'.nodes) p (makeClassType o n as)
      (makeClassType o' n as') := by
  have hasks : AsksOnce (makeClassType o n as : ExceptT TypeError PoolM _) := by
    cases o <;> exact .checked_bind fun _ => .intern
  refine hasks.spares (refines_makeClassType n ho has) ?_
  intro c hc
  cases o' <;>
    · obtain ⟨m, -, hc⟩ := run_bind_eq_ok.mp hc
      obtain rfl := Except.ok.inj hc
      exact List.subset_cons_self _ _

/-- An array over a base has the base in it; an array of arrays is made flat. -/
theorem spares_makeArrayDescriptor (d : Nat) {b : TypeTree Nat .typeDescriptor}
    {b' : TypeTree Unit .typeDescriptor} (hb : Tagged True p b b') (hbase : b'.IsBase) :
    Spares (Tagged True) TypeTree.nodes b'.nodes p (makeArrayDescriptor d b)
      (makeArrayDescriptor d b') := by
  refine AsksOnce.spares (.checked_bind fun _ => .intern) (refines_makeArrayDescriptor d hb) ?_
  intro a ha
  obtain ⟨-, rfl⟩ := eq_of_makeArrayDescriptor ha hbase
  exact List.subset_cons_self _ _

/-- An array over a base has the base in it; an array of arrays is made flat. -/
theorem spares_makeArrayType (d : Nat) {b : TypeTree Nat .typeSignature}
    {b' : TypeTree Unit .typeSignature} (hb : Tagged True p b b') (hbase : b'.IsBase) :
    Spares (Tagged True) TypeTree.nodes b'.nodes p (makeArrayType d b) (makeArrayType d b') := by
  refine AsksOnce.spares (.checked_bind fun _ => .intern) (refines_makeArrayType d hb) ?_
  intro a ha
  obtain ⟨-, rfl⟩ := eq_of_makeArrayType ha hbase
  exact List.subset_cons_self _ _

theorem spares_makeTypeParameter (n : String) {c : TypeTree Nat .classBound}
    {c' : TypeTree Unit .classBound} {is : TypeTree Nat (.list .referenceType)}
    {is' : TypeTree Unit (.list .referenceType)} (hc : Tagged True p c c')
    (his : Tagged True p is is') :
    Spares (Tagged True) TypeTree.nodes (c'.nodes ++ is'.nodes) p (makeTypeParameter n c is)
      (makeTypeParameter n c' is') := by
  have hasks : AsksOnce (makeTypeParameter n c is : ExceptT TypeError PoolM _) := by
    refine .checked_bind fun m => ?_
    split
    · exact Or.inl ⟨_, rfl⟩
    · exact .intern
  refine hasks.spares (refines_makeTypeParameter n hc his) ?_
  intro d hd
  obtain ⟨-, -, rfl⟩ := eq_of_makeTypeParameter hd
  exact List.subset_cons_self _ _

theorem spares_makeMethodDescriptor {ds : TypeTree Nat (.list .typeDescriptor)}
    {ds' : TypeTree Unit (.list .typeDescriptor)} {e : TypeTree Nat .typeDescriptor}
    {e' : TypeTree Unit .typeDescriptor} (hds : Tagged True p ds ds') (he : Tagged True p e e') :
    Spares (Tagged True) TypeTree.nodes (ds'.nodes ++ e'.nodes) p (makeMethodDescriptor ds e)
      (makeMethodDescriptor ds' e') := by
  refine AsksOnce.spares (.checked_bind fun _ => .intern) (refines_makeMethodDescriptor hds he) ?_
  intro d hd
  obtain ⟨-, rfl⟩ := eq_of_makeMethodDescriptor hd
  exact List.subset_cons_self _ _

theorem spares_makeMethodSignature {ts : TypeTree Nat (.list .typeParameter)}
    {ts' : TypeTree Unit (.list .typeParameter)} {ps : TypeTree Nat (.list .typeSignature)}
    {ps' : TypeTree Unit (.list .typeSignature)} {t : TypeTree Nat .typeSignature}
    {t' : TypeTree Unit .typeSignature} {es : TypeTree Nat (.list .throwsType)}
    {es' : TypeTree Unit (.list .throwsType)} (hts : Tagged True p ts ts')
    (hps : Tagged True p ps ps') (ht : Tagged True p t t') (hes : Tagged True p es es') :
    Spares (Tagged True) TypeTree.nodes (ts'.nodes ++ ps'.nodes ++ t'.nodes ++ es'.nodes) p
      (makeMethodSignature ts ps t es) (makeMethodSignature ts' ps' t' es') := by
  refine AsksOnce.spares (.checked_bind fun _ => .intern)
    (refines_makeMethodSignature hts hps ht hes) ?_
  intro d hd
  obtain ⟨-, rfl⟩ := eq_of_makeMethodSignature hd
  exact List.subset_cons_self _ _

end

end ClassfileTypes.Pool
