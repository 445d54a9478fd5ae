import ClassfileTypes.Proofs.PlainSessions
import ClassfileTypes.Proofs.StrictEvaluation

/-!
# A strict pool accepts what steps ask for

A report cannot fail, but it erases, raises and takes elements of arrays, and so it asks
the pool for trees. It tells the same with a strict pool, and a step with reports in it
shows what it shows without a pool.
-/

namespace ClassfileTypes

open TypeTree

variable {ε α β : Type} {P : α → Prop} {f : Form} {v : AnyTree Unit}

instance : LawfulMonad StrictM :=
  inferInstanceAs (LawfulMonad Option)

instance : Pool.LawfulPool Unit StrictM where
  holding_map _ _ _ := rfl

/-- A computation that cannot fail, among those that may. -/
theorem accepts_lift {x : StrictM α} {a : α} (hx : x = some a) :
    Accepts (fun _ => True) (ExceptT.lift x : ExceptT ε StrictM α) (ExceptT.lift (pure a)) := by
  subst hx
  exact ⟨rfl, fun _ _ => trivial⟩

theorem Accepts.eq_some_of_lift {x : StrictM α} {y : Id α}
    (h : Accepts P (ExceptT.lift x : ExceptT ε StrictM α) (ExceptT.lift y)) :
    x = some y.run ∧ P y.run := by
  have hrun : Option.map Except.ok x = some (Except.ok y.run : Except ε α) := h.run
  obtain ⟨a, ha, hy⟩ := Option.map_eq_some_iff.mp hrun
  exact ⟨ha.trans (congrArg some (Except.ok.inj hy)), h.gives y.run rfl⟩

theorem details_strict {t : TypeTree Unit f} (ht : t.WellFormed) :
    (t.details : StrictM _) = some (t.details : Id _).run := by
  induction t with
  | descClass c ih | descArray c ih =>
      show Option.bind (c.details : StrictM _) _ = _
      rw [ih ht]
      rfl
  | arrayDescriptor i d b =>
      have h := accepts_descriptorComponent (ε := Empty) ht
      rw [Pool.descriptorComponent_eq_lift, Pool.descriptorComponent_eq_lift] at h
      show Option.bind (descriptorComponent (.arrayDescriptor i d b) : StrictM _) _ = _
      rw [h.eq_some_of_lift.1]
      rfl
  | arrayType i d b =>
      have h := accepts_typeComponent (ε := Empty) ht
      rw [Pool.typeComponent_eq_lift, Pool.typeComponent_eq_lift] at h
      show Option.bind (typeComponent (.arrayType i d b) : StrictM _) _ = _
      rw [h.eq_some_of_lift.1]
      rfl
  | _ => rfl

theorem raise_strict {t : TypeTree Unit f} (ht : t.WellFormed) :
    (t.raise : StrictM _) = some (t.raise : Id _).run ∧ (t.raise : Id _).run.WellFormed := by
  have h := accepts_raise (ε := Empty) ht
  rw [Pool.raise_eq_lift, Pool.raise_eq_lift] at h
  exact h.eq_some_of_lift

theorem facts_strict (hv : v.WellFormed) (aspect : Aspect) :
    (v.facts aspect : StrictM _) = some (v.facts aspect : Id _).run := by
  cases aspect with
  | views =>
      unfold AnyTree.facts
      dsimp only
      split_ifs
      · show Option.bind (v.2.erase : ExceptT TypeError StrictM _).run _ = _
        rw [(accepts_erase hv).run]
        rfl
      · obtain ⟨hraise, hwf⟩ := raise_strict hv
        show Option.bind (v.2.raise : StrictM _) _ = _
        rw [hraise]
        show Option.bind (TypeTree.erase _ : ExceptT TypeError StrictM _).run _ = _
        rw [(accepts_erase hwf).run]
        rfl
      · rfl
  | details =>
      show Option.bind (v.2.details : StrictM _) _ = _
      rw [details_strict hv]
      rfl
  | _ => rfl

theorem mapM_strict {x : α → StrictM β} {y : α → Id β} (l : List α)
    (h : ∀ a ∈ l, x a = some (y a).run) : (l.mapM x : StrictM _) = some (l.mapM y : Id _).run := by
  induction l with
  | nil => rfl
  | cons a l ih =>
      obtain ⟨ha, hl⟩ := List.forall_mem_cons.mp h
      rw [List.mapM_cons, List.mapM_cons]
      show Option.bind (x a) _ = _
      rw [ha]
      show Option.bind (l.mapM x : StrictM _) _ = _
      rw [ih hl]
      rfl

theorem report_strict (hv : v.WellFormed) (aspects : List Aspect) :
    (v.report aspects : StrictM _) = some (v.report aspects : Id _).run := by
  show Option.bind (aspects.mapM v.facts : StrictM _) _ = _
  rw [mapM_strict aspects fun aspect _ => facts_strict hv aspect]
  rfl

theorem accepts_report (hv : v.WellFormed) (aspects : List Aspect) :
    Accepts (fun _ => True) (v.report aspects : ExceptT ε StrictM _) (v.report aspects) := by
  rw [Pool.report_eq_lift, Pool.report_eq_lift]
  exact accepts_lift (report_strict hv aspects)

namespace Session

/-- **A strict pool accepts what a step asks for.** -/
theorem accepts_computation {regs : Registers Unit} (hregs : regs.WellFormed) (st : Step) :
    Accepts (fun _ => True) (st.computation regs) (st.computation regs) := by
  unfold Step.computation
  cases st with
  | value e register => exact (accepts_eval hregs e).bind fun _ _ _ => .pure trivial
  | report e aspects =>
      apply (accepts_eval hregs e).bind
      intro v hv _
      exact Accepts.bind (accepts_report hv aspects) fun _ _ _ => .pure trivial
  | compare a b =>
      apply (accepts_eval hregs a).bind
      intro v _ _
      exact Accepts.bind (accepts_eval hregs b) fun _ _ _ => .pure trivial
  | members c aspects =>
      apply (accepts_eval hregs c).bind
      intro v hv _
      apply (Evaluation.accepts_membersOf hv).bind
      intro ps hps _
      have hreports : Accepts (fun _ => True)
          (ps.mapM fun p => AnyTree.report ⟨_, p⟩ aspects : Evaluation StrictM _)
          (ps.mapM fun p => AnyTree.report ⟨_, p⟩ aspects) := by
        rw [Pool.mapM_eq_lift fun p => Pool.report_eq_lift ⟨_, p⟩ aspects,
          Pool.mapM_eq_lift fun p => Pool.report_eq_lift ⟨_, p⟩ aspects]
        exact accepts_lift (mapM_strict ps fun p hp =>
          report_strict (v := ⟨_, p⟩) (hps p hp) aspects)
      exact (hreports.holdingAll ps).bind fun _ _ _ => .pure trivial
  | lookup name scope =>
      apply (accepts_evalScope hregs scope).bind
      intro ds hds _
      apply Evaluation.accepts_inScope hds
      intro s _
      cases s name with
      | some d => exact .pure trivial
      | none => exact .throw
  | drop name => exact .pure trivial
  | enable on => exact .pure trivial
  | purge => exact .pure trivial
  | counts => exact .pure trivial

end Session

end ClassfileTypes
