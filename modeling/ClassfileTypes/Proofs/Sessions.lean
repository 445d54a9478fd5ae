import ClassfileTypes.Proofs.Evaluation
import ClassfileTypes.Proofs.PlainSessions

/-!
# What every session keeps and shows

A session starts with an empty pool of any configuration and takes any steps.
Whatever the steps are, the pool is sound between them and holds the registers.
While the pool is never off, it is canonical too: everything that is held is
registered. And a step shows what it shows without a pool.
-/

namespace ClassfileTypes

namespace Session

open Pool

variable {canonical : Prop} {s : Session}

/-! ## States -/

/-- A session that has not taken a step. -/
def start (config : Intern.Config) : Session where
  pool := { registry := { config } }

/-- The state after steps. -/
def after (s : Session) (steps : List Step) : Session :=
  steps.foldl (fun s st => (s.step st).2) s

/-- What holds between steps: the pool is sound and holds the registers. -/
structure Valid (canonical : Prop) (s : Session) : Prop where
  sound : Sound canonical s.pool
  held : s.pool.held = s.registers.map (·.2)

theorem valid_start (config : Intern.Config) (h : canonical → config.enabled = true) :
    Valid canonical (start config) where
  held := rfl
  sound := {
    kindsDistinct := List.nodup_nil
    keysDistinct := fun _ => Intern.Table.keysDistinct_empty
    kind := fun _ _ he => absurd he List.not_mem_nil
    key := fun _ _ he => absurd he List.not_mem_nil
    wellFormed := fun _ _ he => absurd he List.not_mem_nil
    older := fun _ _ he => absurd he List.not_mem_nil
    held := fun _ hv => absurd hv List.not_mem_nil
    enabled := h
    identified := fun _ v _ hv => by
      obtain ⟨_, -, hentry⟩ := hv
      exact absurd hentry List.not_mem_nil }

theorem Valid.holds (h : s.Valid canonical) : ∀ e ∈ s.registers, s.pool.Holds canonical e.2.2 := by
  intro e he
  have hmem : e.2 ∈ s.pool.held := h.held ▸ List.mem_map_of_mem he
  exact ⟨h.sound.held _ hmem, keeps_of_mem_held hmem⟩

theorem Valid.holdsRegisters (h : s.Valid canonical) :
    HoldsRegisters canonical s.pool s.registers s.plainRegisters :=
  ⟨h.holds, rfl⟩

/-! ## Steps -/

/-- What holds before the pool is told what the registers hold. -/
structure Settles (canonical : Prop) (s : Session) : Prop where
  sound : Sound canonical s.pool
  good : ∀ e ∈ s.registers, s.pool.Good canonical e.2.2

theorem Valid.settles (h : s.Valid canonical) : s.Settles canonical :=
  ⟨h.sound, fun e he => (h.holds e he).good⟩

/-- The registers keep what they hold while the pool works. -/
theorem Valid.settles_of_extends (h : s.Valid canonical) {q : Pool} (hsound : Sound canonical q)
    (hext : s.pool.Extends q) : Settles canonical { s with pool := q } :=
  ⟨hsound, fun e he => (hext.holds (h.holds e he)).good⟩

/-- Nothing changes in the tables when the pool is turned on or off. -/
theorem Valid.settles_of_setEnabled (h : s.Valid canonical) {on : Bool}
    (hon : canonical → on = true) : Settles canonical { s with pool := s.pool.setEnabled on } := by
  have htable : ∀ k, (s.pool.setEnabled on).registry.table k = s.pool.registry.table k :=
    fun _ => rfl
  have hgood : ∀ {f : Form} {t : TypeTree Nat f}, s.pool.Good canonical t →
      (s.pool.setEnabled on).Good canonical t :=
    fun ht => ⟨ht.wellFormed, ht.older, ht.registered⟩
  refine ⟨?_, fun e he => hgood (h.holds e he).good⟩
  exact {
    kindsDistinct := h.sound.kindsDistinct
    keysDistinct := h.sound.keysDistinct
    kind := h.sound.kind
    key := h.sound.key
    wellFormed := h.sound.wellFormed
    older := h.sound.older
    held := fun v hv => hgood (h.sound.held v hv)
    enabled := hon
    identified := h.sound.identified }

/-- Whether a step leaves the pool on. -/
def Step.keepsEnabled : Step → Bool
  | .enable on => on
  | _ => true

/-- What a step does: it settles, it only extends the pool unless it turns the pool on or
off, and it does what it does without a pool. -/
structure Performs (canonical : Prop) (s : Session) (st : Step) (o : Reply × Session) : Prop where
  settles : o.2.Settles canonical
  ext : (∀ on, st ≠ .enable on) → s.pool.Extends o.2.pool
  shows : Shows o.1 (st.plain s.plainRegisters).1
  registers : o.2.plainRegisters = (st.plain s.plainRegisters).2

/-- An answer that is computed with the pool is the one that is computed without. -/
theorem Valid.answer (h : s.Valid canonical) {x : Evaluation PoolM Reply} {y : Evaluation Id Shown}
    (hx : Refines canonical (Anywhere Shows) s.pool x y) :
    (s.answer x).2.Settles canonical ∧ s.pool.Extends (s.answer x).2.pool ∧
      Shows (s.answer x).1 (.ofEvaluation y) := by
  obtain ⟨hsound, hext, hshows⟩ := hx h.sound
  refine ⟨h.settles_of_extends hsound hext, hext, ?_⟩
  change Outcome (Anywhere Shows) _ (x.run s.pool).1 y.run at hshows
  unfold Session.answer Shown.ofEvaluation
  rcases hr : x.run.run s.pool with ⟨r, q⟩
  rw [show (x.run s.pool).1 = r from congrArg Prod.fst hr] at hshows
  cases r <;> cases hy : y.run <;> rw [hy] at hshows
  · exact .of_shown (congrArg Shown.failed hshows) rfl
  · exact hshows.elim
  · exact hshows.elim
  · exact hshows

/-- A register is given up, or it is about to hold another tree. -/
theorem plainRegisters_filter (s : Session) (name : String) :
    ((s.registers.filter (·.1 != name)).map fun e => (e.1, e.2.plain)) =
      s.plainRegisters.filter (·.1 != name) := by
  unfold plainRegisters
  rw [List.filter_map]
  rfl

/-- An answer leaves the registers alone. -/
theorem Valid.performs_answer (h : s.Valid canonical) (st : Step) {x : Evaluation PoolM Reply}
    {y : Evaluation Id Shown} (hx : Refines canonical (Anywhere Shows) s.pool x y)
    (hplain : (.ofEvaluation y, s.plainRegisters) = st.plain s.plainRegisters) :
    s.Performs canonical st (s.answer x) := by
  obtain ⟨hsettles, hext, hshows⟩ := h.answer hx
  exact ⟨hsettles, fun _ => hext, hplain ▸ hshows, hplain ▸ rfl⟩

theorem Valid.performs_value (h : s.Valid canonical) (e : Expr) (register : Option String) :
    s.Performs canonical (.value e register) (s.perform (.value e register)) := by
  have hspec := refines_eval s.pool h.holdsRegisters e h.sound
  unfold Session.perform
  dsimp only
  split
  rename_i r q hrun
  rw [show (e.eval s.registers : Evaluation PoolM _).run s.pool = (r, q) from hrun] at hspec
  obtain ⟨hsound, hext, hvalue⟩ := hspec
  change Outcome (TaggedAny canonical) q r (e.eval s.plainRegisters : Evaluation Id _).run at hvalue
  have hsettles := h.settles_of_extends hsound hext
  cases hy : (e.eval s.plainRegisters : Evaluation Id _).run with
  | error err' =>
      have hplain := Step.plain_value_of_error hy register
      rw [hy] at hvalue
      cases r with
      | ok v => exact hvalue.elim
      | error err =>
          have hfailed : Shows (.failed err) (.failed err') :=
            .of_shown (congrArg Shown.failed hvalue) rfl
          exact ⟨hsettles, fun _ => hext, hplain ▸ hfailed, hplain ▸ rfl⟩
  | ok v' =>
      have hplain := Step.plain_value_of_ok hy register
      rw [hy] at hvalue
      cases r with
      | error err => exact hvalue.elim
      | ok v =>
          obtain ⟨hv, rfl⟩ := hvalue
          have hshows := Shows.ofTree hv.wellFormed
          cases register with
          | none => exact ⟨hsettles, fun _ => hext, hplain ▸ hshows, hplain ▸ rfl⟩
          | some name =>
              -- The register is overwritten, the others hold what they held.
              refine ⟨⟨hsound, List.forall_mem_cons.mpr ⟨hv, ?_⟩⟩, fun _ => hext,
                hplain ▸ hshows, hplain ▸ ?_⟩
              · intro e he
                exact hsettles.good e (List.mem_filter.mp he).1
              · exact congrArg ((name, v.plain) :: ·) (plainRegisters_filter s name)

/-- **What a step does.** -/
theorem Valid.perform (h : s.Valid canonical) (st : Step)
    (henabled : canonical → st.keepsEnabled = true) : s.Performs canonical st (s.perform st) := by
  have hregs := h.holdsRegisters
  unfold Session.perform
  cases st with
  | value e register => exact h.performs_value e register
  | report v aspects =>
      refine h.performs_answer (.report v aspects) ?_ rfl
      apply Refines.bind (refines_eval s.pool hregs v)
      intro q v v' _ hv _
      obtain ⟨hgood, rfl⟩ := hv
      rw [report_eq_lift, report_eq_lift]
      apply Refines.bind (Refines.held (u := v.2.plain) hgood
        (Refines.lift (runs_report hgood.holds_hold aspects)))
      intro q' facts facts' _ hfacts _
      exact Refines.pure (.report hfacts)
  | compare a b =>
      -- The first tree is held while the second one is made.
      refine h.performs_answer (.compare a b) ?_ rfl
      apply Refines.bind (refines_eval s.pool hregs a)
      intro q a a' hext ha _
      obtain ⟨hgood, rfl⟩ := ha
      have hb := refines_eval (q.hold a.2) (hregs.mono hext).hold b
      apply Refines.bind (Refines.held (u := a.2.plain) hgood hb)
      intro q' b b' _ hb _
      obtain ⟨-, rfl⟩ := hb
      exact Refines.pure (.of_shown (congrArg Shown.compared (equal?_plain a b).symm) rfl)
  | members c aspects =>
      refine h.performs_answer (.members c aspects) ?_ rfl
      apply Refines.bind (refines_eval s.pool hregs c)
      intro q v v' _ hv _
      apply Refines.bind (refines_membersOf hv)
      intro q ps ps' _ hps _
      obtain ⟨hgood, rfl⟩ := hps
      rw [mapM_eq_lift fun p => report_eq_lift (⟨_, p⟩ : AnyTree Nat) aspects,
        mapM_eq_lift fun p => report_eq_lift (⟨_, p⟩ : AnyTree Unit) aspects, List.mapM_map]
      have hreports := Runs.mapM (x := fun p => AnyTree.report (⟨_, p⟩ : AnyTree Nat) aspects) ps
        fun p hp q hext => runs_report (hext.holds (holds_holdAll hgood p hp)) aspects
      apply Refines.bind (Refines.holdingAll hgood (Refines.lift hreports))
      rintro q' reports reports' _ ⟨hreports, -⟩ _
      exact Refines.pure (.members hreports)
  | lookup name scope =>
      refine h.performs_answer (.lookup name scope) ?_ rfl
      apply Refines.bind (refines_evalScope s.pool hregs scope)
      intro q ds ds' _ hds _
      apply Refines.inScope hds
      intro b b' hscope
      rw [hscope.agrees]
      cases hd : b name with
      | none => exact Refines.throw
      | some d => exact Refines.pure (.ofDeclaration (hscope.held name d hd).good.wellFormed)
  | drop register =>
      refine ⟨⟨h.sound, fun e he => h.settles.good e (List.mem_filter.mp he).1⟩,
        fun _ => Extends.refl _, ?_, ?_⟩
      · refine .of_shown (congrArg Shown.dropped ?_) rfl
        rw [plainRegisters, lookup_map_values (fun _ v => AnyTree.plain v), Option.isSome_map]
      · exact plainRegisters_filter s register
  | enable on =>
      have hon : canonical → on = true := henabled
      exact ⟨h.settles_of_setEnabled hon, fun hst => absurd rfl (hst on), .of_shown rfl rfl, rfl⟩
  | purge =>
      exact ⟨h.settles_of_extends h.sound.purge (extends_purge s.pool),
        fun _ => extends_purge s.pool, .of_shown rfl rfl, rfl⟩
  | counts => exact ⟨h.settles, fun _ => Extends.refl _, .of_shown rfl rfl, rfl⟩

/-- **What a step preserves.** -/
theorem Valid.step (h : s.Valid canonical) (st : Step)
    (henabled : canonical → st.keepsEnabled = true) : (s.step st).2.Valid canonical := by
  obtain ⟨hsound, hgood⟩ := (h.perform st henabled).settles
  exact ⟨hsound.hold (List.forall_mem_map.mpr hgood), rfl⟩

/-- **What a step shows.** The pool does not show in it. -/
theorem Valid.step_shows (h : s.Valid canonical) (st : Step)
    (henabled : canonical → st.keepsEnabled = true) :
    Shows (s.step st).1 (st.plain s.plainRegisters).1 ∧
      (s.step st).2.plainRegisters = (st.plain s.plainRegisters).2 :=
  ⟨(h.perform st henabled).shows, (h.perform st henabled).registers⟩

/-- **What every run preserves.** -/
theorem Valid.after (h : s.Valid canonical) (steps : List Step)
    (henabled : canonical → ∀ st ∈ steps, st.keepsEnabled = true) :
    (s.after steps).Valid canonical := by
  induction steps generalizing s with
  | nil => exact h
  | cons st steps ih =>
      have hstep := h.step st fun hc => henabled hc st List.mem_cons_self
      exact ih hstep fun hc st' hst' => henabled hc st' (List.mem_cons_of_mem _ hst')

/-- The state of a session of any configuration after any steps. -/
theorem valid_after_start (config : Intern.Config) (steps : List Step) :
    ((start config).after steps).Valid False :=
  (valid_start config False.elim).after steps fun hc => hc.elim

/-! ## What expressions stand for -/

/-- What an expression stands for in a session, without tags. -/
def valueOf (s : Session) (e : Expr) : Except EvalError (AnyTree Unit) :=
  ((e.eval s.registers : Evaluation PoolM _).run s.pool).1.map AnyTree.plain

/-- **The pool does not show in what an expression stands for.** -/
theorem Valid.valueOf_eq (h : s.Valid canonical) (e : Expr) :
    s.valueOf e = (e.eval s.plainRegisters : Evaluation Id _).run := by
  obtain ⟨-, -, hR⟩ := refines_eval s.pool h.holdsRegisters e h.sound
  exact hR.map_eq fun a b hab => hab.plain

theorem Valid.wellFormed_of_valueOf (h : s.Valid canonical) {e : Expr} {v : AnyTree Unit}
    (hv : s.valueOf e = .ok v) : v.2.WellFormed := by
  obtain ⟨-, -, hR⟩ := refines_eval s.pool h.holdsRegisters e h.sound
  obtain ⟨w, hw, rfl⟩ := Pool.map_eq_ok.mp hv
  change Outcome (TaggedAny canonical) _ ((e.eval s.registers : Evaluation PoolM _).run s.pool).1
    (e.eval s.plainRegisters : Evaluation Id _).run at hR
  rw [hw] at hR
  obtain ⟨u, -, hu⟩ := hR.exists_of_ok
  exact (TypeTree.wellFormed_plain w.2).mpr hu.good.wellFormed

end Session

end ClassfileTypes
