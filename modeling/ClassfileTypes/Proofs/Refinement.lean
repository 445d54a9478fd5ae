import ClassfileTypes.Proofs.PoolInvariant

/-!
# Computations with a pool and without

Every operation on trees is written once, for any monad with a pool. Run with a
pool it makes tagged trees, run in the identity monad it makes plain ones. A pool
run *refines* the plain one: it fails in the same way or gives a related value,
the pool stays sound, and what was alive stays registered. Results are related
by what they are without their tags.

The rules here follow the shape of the operations: one for each way of putting
computations together, and one for each operation of the pool.
-/

namespace ClassfileTypes.Pool

variable {canonical : Prop} {p q : Pool} {α β γ δ ε ε' : Type}

/-! ## Relations between values -/

/-- A tree of the pool and the same tree without its tags. -/
structure Tagged (canonical : Prop) {f : Form} (p : Pool) (t : TypeTree Nat f)
    (u : TypeTree Unit f) : Prop where
  good : p.Good canonical t
  plain : t.plain = u

/-- The same error, or related values. -/
def Outcome (R : Pool → α → β → Prop) (p : Pool) : Except ε α → Except ε β → Prop
  | .ok a, .ok b => R p a b
  | .error e, .error e' => e = e'
  | _, _ => False

/-- Outcomes are equal if values that are related are, seen in the right way. -/
theorem Outcome.map_eq_map {R : Pool → α → β → Prop} {x : Except ε α} {y : Except ε β}
    {g : α → γ} {g' : β → γ} (h : Outcome R p x y) (hg : ∀ a b, R p a b → g a = g' b) :
    x.map g = y.map g' := by
  cases x with
  | ok a =>
      cases y with
      | ok b => exact congrArg Except.ok (hg a b h)
      | error e => exact h.elim
  | error e =>
      cases y with
      | ok b => exact h.elim
      | error e' => exact congrArg Except.error h

theorem Outcome.map_eq {R : Pool → α → β → Prop} {x : Except ε α} {y : Except ε β} {g : α → β}
    (h : Outcome R p x y) (hg : ∀ a b, R p a b → g a = b) : x.map g = y := by
  have hmap : x.map g = y.map id := h.map_eq_map hg
  rw [hmap]
  cases y <;> rfl

theorem Outcome.exists_of_ok {R : Pool → α → β → Prop} {a : α} {y : Except ε β}
    (h : Outcome R p (.ok a) y) : ∃ b, y = .ok b ∧ R p a b := by
  cases y with
  | ok b => exact ⟨b, rfl, h⟩
  | error e => exact h.elim

/-- A relation that does not depend on what is held. -/
class Lasting (R : Pool → α → β → Prop) : Prop where
  congr : ∀ {p q : Pool} {a : α} {b : β}, p.next ≤ q.next → q.registry = p.registry →
    R p a b → R q a b

instance {f : Form} : Lasting (Tagged canonical (f := f)) where
  congr hnext hregistry h := ⟨h.good.congr hnext hregistry, h.plain⟩

instance (R : Pool → α → β → Prop) [Lasting R] :
    Lasting (Outcome R : Pool → Except ε α → Except ε β → Prop) where
  congr {_ _ a b} hnext hregistry h := by
    cases a with
    | ok a =>
        cases b with
        | ok b => exact Lasting.congr (R := R) hnext hregistry h
        | error e => exact h
    | error e => cases b <;> exact h

instance (R S : Pool → α → β → Prop) [Lasting R] [Lasting S] :
    Lasting (fun p a b => R p a b ∧ S p a b) where
  congr hnext hregistry h :=
    ⟨Lasting.congr hnext hregistry h.1, Lasting.congr hnext hregistry h.2⟩

/-! ## Trees that are held by whoever asks -/

/-- A tree of the pool that is kept alive. -/
structure Holds (canonical : Prop) (p : Pool) {f : Form} (t : TypeTree Nat f) : Prop where
  good : p.Good canonical t
  kept : p.Keeps t

theorem Extends.holds (h : p.Extends q) {f : Form} {t : TypeTree Nat f}
    (ht : p.Holds canonical t) : q.Holds canonical t :=
  ⟨h.good ht.good ht.kept, h.keeps ht.kept⟩

/-- The pool while a tree is held. -/
def hold {f : Form} (p : Pool) (t : TypeTree Nat f) : Pool :=
  { p with held := ⟨f, t⟩ :: p.held }

theorem Good.hold {f g : Form} {t : TypeTree Nat f} {u : TypeTree Nat g}
    (h : p.Good canonical t) : (p.hold u).Good canonical t :=
  h.congr (Nat.le_refl _) rfl

theorem Keeps.hold {f g : Form} {t : TypeTree Nat f} {u : TypeTree Nat g} (h : p.Keeps t) :
    (p.hold u).Keeps t := by
  intro i hi
  obtain ⟨v, hv, htag⟩ := h i hi
  exact ⟨v, List.mem_cons_of_mem _ hv, htag⟩

theorem Holds.hold {f g : Form} {t : TypeTree Nat f} {u : TypeTree Nat g}
    (h : p.Holds canonical t) : (p.hold u).Holds canonical t :=
  ⟨h.good.hold, h.kept.hold⟩

/-- What is held is kept alive. -/
theorem Good.holds_hold {f : Form} {t : TypeTree Nat f} (h : p.Good canonical t) :
    (p.hold t).Holds canonical t :=
  ⟨h.hold, keeps_of_mem_held (p := p.hold t) (v := ⟨f, t⟩) (List.mem_cons_self ..)⟩

theorem Good.sound_hold {f : Form} {t : TypeTree Nat f} (h : p.Good canonical t)
    (hs : Sound canonical p) : Sound canonical (p.hold t) :=
  hs.hold (List.forall_mem_cons.mpr ⟨h, hs.held⟩)

/-! ## Runs -/

/-- From a sound pool the run ends with a sound pool that extends it, and with a
value that is related to the plain one. -/
def Runs (canonical : Prop) (R : Pool → α → β → Prop) (p : Pool) (x : PoolM α) (y : Id β) :
    Prop :=
  Sound canonical p → Sound canonical (x p).2 ∧ p.Extends (x p).2 ∧ R (x p).2 (x p).1 y

/-- The same for computations that may fail: then both fail in the same way. -/
def Refines (canonical : Prop) (R : Pool → α → β → Prop) (p : Pool) (x : ExceptT ε PoolM α)
    (y : ExceptT ε Id β) : Prop :=
  Runs canonical (Outcome R) p x.run y.run

variable {R S : Pool → α → β → Prop} {T : Pool → γ → δ → Prop}

theorem Runs.pure {a : α} {b : β} (h : R p a b) :
    Runs canonical R p (Pure.pure a) (Pure.pure b) :=
  fun hs => ⟨hs, Extends.refl p, h⟩

theorem Runs.mono {x : PoolM α} {y : Id β} (h : Runs canonical R p x y)
    (himp : ∀ q a b, p.Extends q → R q a b → S q a b) : Runs canonical S p x y := by
  intro hs
  obtain ⟨hsound, hext, hR⟩ := h hs
  exact ⟨hsound, hext, himp _ _ _ hext hR⟩

/-- Computations in sequence. -/
theorem Runs.bind {x : PoolM α} {y : Id β} {f : α → PoolM γ} {g : β → Id δ}
    (hx : Runs canonical R p x y)
    (hf : ∀ q a, p.Extends q → R q a y → Runs canonical T q (f a) (g y)) :
    Runs canonical T p (x >>= f) (y >>= g) := by
  intro hs
  obtain ⟨hsound, hext, hR⟩ := hx hs
  obtain ⟨hsound', hext', hT⟩ := hf _ _ hext hR hsound
  exact ⟨hsound', hext.trans hext', hT⟩

theorem Runs.map {x : PoolM α} {y : Id β} {f : α → γ} {g : β → δ} (hx : Runs canonical R p x y)
    (h : ∀ q a b, R q a b → T q (f a) (g b)) :
    Runs canonical T p (f <$> x) (do return g (← y)) := by
  intro hs
  obtain ⟨hsound, hext, hR⟩ := hx hs
  exact ⟨hsound, hext, h _ _ _ hR⟩

/-- **Holding a tree.** It is still a tree of the pool afterwards. -/
theorem Runs.holding [Lasting R] {f : Form} {t : TypeTree Nat f} {u : TypeTree Unit f}
    {x : PoolM α} {y : Id β} (ht : p.Good canonical t) (hx : Runs canonical R (p.hold t) x y) :
    Runs canonical (fun q a b => R q a b ∧ q.Good canonical t) p (MonadPool.holding t x)
      (MonadPool.holding u y) := by
  intro hs
  obtain ⟨hsound, hext, hR⟩ := hx (ht.sound_hold hs)
  have hgood : (x (p.hold t)).2.Good canonical t :=
    hext.good ht.hold ht.holds_hold.kept
  refine ⟨?_, ⟨rfl, hext.next, hext.enabled, ?_, hext.origin⟩, ?_, ?_⟩
  · apply hsound.hold
    intro v hv
    have hv' : v ∈ (p.hold t).held := List.mem_cons_of_mem _ hv
    exact hext.good ((hs.held v hv).congr (Nat.le_refl _) rfl) (keeps_of_mem_held hv')
  · intro k e he hlive
    exact hext.entries k e he (isLive_hold hlive)
  · show R { (x (p.hold t)).2 with held := p.held } (x (p.hold t)).1 y
    exact Lasting.congr (R := R) (p := (x (p.hold t)).2) (Nat.le_refl _) rfl hR
  · exact hgood.congr (Nat.le_refl _) rfl

/-- **Asking the pool for a tree.** -/
theorem Runs.intern {f : Form} {draft : Nat → TypeTree Nat f} {draft' : Unit → TypeTree Unit f}
    (hdraft : p.Draft canonical (draft p.next)) (hplain : (draft p.next).plain = draft' ()) :
    Runs canonical (Tagged canonical) p (MonadPool.intern draft)
      (MonadPool.intern draft') := by
  intro hs
  obtain ⟨hmakes, heq⟩ := intern_spec hs hdraft
  exact ⟨hmakes.sound, hmakes.ext, hmakes.good, heq.trans hplain⟩

/-! ## Runs that may fail -/

namespace Refines

theorem pure {a : α} {b : β} (h : R p a b) :
    Refines canonical R p (Pure.pure a : ExceptT ε PoolM α) (Pure.pure b) :=
  Runs.pure h

theorem throw {e : ε} :
    Refines canonical R p (MonadExcept.throw e : ExceptT ε PoolM α) (MonadExcept.throw e) :=
  Runs.pure rfl

theorem mono {x : ExceptT ε PoolM α} {y : ExceptT ε Id β} (h : Refines canonical R p x y)
    (himp : ∀ q a b, p.Extends q → R q a b → S q a b) : Refines canonical S p x y := by
  apply Runs.mono h
  intro q a b hext hR
  cases a <;> cases b <;> first | exact hR | exact himp _ _ _ hext hR

/-- Computations in sequence. The second one starts with what the first one gives,
with a pool and without. -/
theorem bind {x : ExceptT ε PoolM α} {y : ExceptT ε Id β} {f : α → ExceptT ε PoolM γ}
    {g : β → ExceptT ε Id δ} (hx : Refines canonical R p x y)
    (hf : ∀ q a b, p.Extends q → R q a b → y.run = .ok b → Refines canonical T q (f a) (g b)) :
    Refines canonical T p (x >>= f) (y >>= g) := by
  refine Runs.bind (f := ExceptT.bindCont f) (g := ExceptT.bindCont g) hx ?_
  intro q a hext hR
  change Outcome R q a y.run at hR
  show Runs canonical (Outcome T) q (ExceptT.bindCont f a) (ExceptT.bindCont g y.run)
  cases hy : y.run with
  | error e' =>
      rw [hy] at hR
      cases a with
      | error e => exact Runs.pure hR
      | ok a => exact hR.elim
  | ok b =>
      rw [hy] at hR
      cases a with
      | error e => exact hR.elim
      | ok a => exact hf q a b hext hR hy

theorem map {x : ExceptT ε PoolM α} {y : ExceptT ε Id β} {f : α → γ} {g : β → δ}
    (hx : Refines canonical R p x y) (h : ∀ q a b, R q a b → T q (f a) (g b)) :
    Refines canonical T p (f <$> x) (g <$> y) := by
  rw [← bind_pure_comp, ← bind_pure_comp]
  apply bind hx
  intro q a b _ hR _
  exact pure (h q a b hR)

/-- Errors are translated on both sides. -/
theorem adapt {x : ExceptT ε PoolM α} {y : ExceptT ε Id β} (e : ε → ε')
    (hx : Refines canonical R p x y) :
    Refines canonical R p (ExceptT.adapt e x) (ExceptT.adapt e y) := by
  refine Runs.map (f := Except.mapError e) (g := Except.mapError e) hx ?_
  intro q a b hR
  cases a <;> cases b <;> first | exact congrArg e hR | exact hR

theorem holding [Lasting R] {f : Form} {t : TypeTree Nat f} {u : TypeTree Unit f}
    {x : ExceptT ε PoolM α} {y : ExceptT ε Id β} (ht : p.Good canonical t)
    (hx : Refines canonical R (p.hold t) x y) :
    Refines canonical (fun q a b => R q a b ∧ q.Good canonical t) p (MonadPool.holding t x)
      (MonadPool.holding u y) := by
  refine Runs.mono (Runs.holding (u := u) ht hx) ?_
  rintro q a b - ⟨hR, hgood⟩
  cases a <;> cases b <;> first | exact hR | exact ⟨hR, hgood⟩

/-- Holding a tree to the end. -/
theorem held [Lasting R] {f : Form} {t : TypeTree Nat f} {u : TypeTree Unit f}
    {x : ExceptT ε PoolM α} {y : ExceptT ε Id β} (ht : p.Good canonical t)
    (hx : Refines canonical R (p.hold t) x y) :
    Refines canonical R p (MonadPool.holding t x) (MonadPool.holding u y) :=
  (holding ht hx).mono fun _ _ _ _ h => h.1

/-- A tree is held while something is computed, and is still there afterwards. -/
theorem holding_bind [Lasting R] {f : Form} {t : TypeTree Nat f} {u : TypeTree Unit f}
    (ht : Tagged canonical p t u) {x : ExceptT ε PoolM α} {y : ExceptT ε Id β}
    (hx : Refines canonical R (p.hold t) x y) {k : α → ExceptT ε PoolM γ}
    {l : β → ExceptT ε Id δ}
    (hk : ∀ q a b, p.Extends q → Tagged canonical q t u → R q a b →
      Refines canonical T q (k a) (l b)) :
    Refines canonical T p (MonadPool.holding t x >>= k) (MonadPool.holding u y >>= l) := by
  apply bind (holding (u := u) ht.good hx)
  rintro q a b hext ⟨hR, hgood⟩ _
  exact hk q a b hext ⟨hgood, ht.plain⟩ hR

/-- A tree is made and held while something else is computed. -/
theorem bind_holding [Lasting R] {f : Form} {x : ExceptT ε PoolM (TypeTree Nat f)}
    {x' : ExceptT ε Id (TypeTree Unit f)} {k : TypeTree Nat f → ExceptT ε PoolM α}
    {k' : TypeTree Unit f → ExceptT ε Id β} {l : TypeTree Nat f → α → ExceptT ε PoolM γ}
    {l' : TypeTree Unit f → β → ExceptT ε Id δ}
    (hx : Refines canonical (Tagged canonical) p x x')
    (hk : ∀ q t u, p.Extends q → Tagged canonical q t u →
      Refines canonical R (q.hold t) (k t) (k' u))
    (hl : ∀ q t u a b, p.Extends q → Tagged canonical q t u → x'.run = .ok u → R q a b →
      (k' u).run = .ok b → Refines canonical T q (l t a) (l' u b)) :
    Refines canonical T p (x >>= fun t => MonadPool.holding t (k t) >>= l t)
      (x' >>= fun u => MonadPool.holding u (k' u) >>= l' u) := by
  apply bind hx
  intro q t u hext ht hu
  apply bind (holding (u := u) ht.good (hk q t u hext ht))
  rintro q' a b hext' ⟨hR, hgood⟩ hb
  exact hl q' t u a b (hext.trans hext') ⟨hgood, ht.plain⟩ hu hR hb

/-- A computation that cannot fail. -/
theorem lift {x : PoolM α} {y : Id β} (hx : Runs canonical R p x y) :
    Refines canonical R p (ExceptT.lift x : ExceptT ε PoolM α) (ExceptT.lift y) :=
  Runs.map (f := Except.ok) (g := Except.ok) hx fun _ _ _ h => h

end Refines

end ClassfileTypes.Pool
