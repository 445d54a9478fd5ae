import ClassfileTypes.Proofs.Reports
import ClassfileTypes.Session.Basic

/-!
# Sessions without a pool

What a step shows is its answer without what depends on the pool: which object a tree is,
and how many entries there are or were removed. The same steps can be taken without a
pool, on registers that hold plain trees. Then nothing is turned on or off and nothing is
purged.
-/

namespace ClassfileTypes.Session

/-- What a step shows. -/
inductive Shown
  /-- A tree with its texts. -/
  | value (v : AnyTree Unit) (internal readable : String)
  | report (facts : List (Fact Unit))
  | compared (equal : Option Bool)
  | members (reports : List (List (Fact Unit)))
  | found (declaration : TypeTree Unit .typeParameter) (internal readable : String)
  | dropped (existed : Bool)
  | enabled (on : Bool)
  | removed
  | counts
  | failed (e : EvalError)

/-- The tree and its texts. -/
def Shown.ofTree {ι : Type} (v : AnyTree ι) : Shown :=
  .value v.plain v.2.internal v.2.readable

/-- The declaration and its texts. -/
def Shown.ofDeclaration {ι : Type} (d : TypeTree ι .typeParameter) : Shown :=
  .found d.plain d.internal d.readable

/-- What is shown of an answer. -/
def Reply.shown : Reply → Shown
  | .value v => .ofTree v
  | .report facts => .report (facts.map Fact.plain)
  | .compared equal _ => .compared equal
  | .members reports => .members (reports.map (·.map Fact.plain))
  | .found d => .ofDeclaration d
  | .dropped existed => .dropped existed
  | .enabled on => .enabled on
  | .removed _ => .removed
  | .counts _ => .counts
  | .failed e => .failed e

/-- The trees in an answer. -/
def Reply.trees : Reply → List (AnyTree Nat)
  | .value v => [v]
  | .report facts => facts.flatMap Fact.trees
  | .members reports => reports.flatten.flatMap Fact.trees
  | .found d => [⟨_, d⟩]
  | .compared _ _ | .dropped _ | .enabled _ | .removed _ | .counts _ | .failed _ => []

/-- What the registers hold, without tags. -/
def plainRegisters (s : Session) : Registers Unit :=
  s.registers.map fun e => (e.1, e.2.plain)

/-- What is shown of an evaluation; a failure is shown, too. -/
def Shown.ofEvaluation (x : Evaluation Id Shown) : Shown :=
  match x.run with
  | .ok shown => shown
  | .error e => .failed e

section

variable {m : Type → Type} [Monad m] [MonadPool Unit m]

/-- What a step shows, computed from registers that hold plain trees. -/
def Step.computation (regs : Registers Unit) : Step → Evaluation m Shown
  | .value e _ => do return .ofTree (← e.eval regs)
  | .report v aspects => do
      let v ← v.eval regs
      return .report (← holding v.2 (v.report aspects))
  | .compare a b => do
      let a ← a.eval regs
      let b ← holding a.2 (b.eval regs)
      return .compared (equal? a b)
  | .members c aspects => do
      let ps ← Evaluation.membersOf (← c.eval regs)
      return .members (← holdingAll ps (ps.mapM fun p => AnyTree.report ⟨_, p⟩ aspects))
  | .lookup name scope => do
      Evaluation.inScope (← scope.eval regs) fun scope =>
        match scope name with
        | some d => return .ofDeclaration d
        | none => throw .absent
  | .drop name => return .dropped (regs.lookup name).isSome
  | .enable on => return .enabled on
  | .purge => return .removed
  | .counts => return .counts

end

/-- The registers after a step. -/
def Step.registersAfter (regs : Registers Unit) : Step → Registers Unit
  | .value e (some name) =>
      match (e.eval regs : Evaluation Id _).run with
      | .ok v => (name, v) :: regs.filter (·.1 != name)
      | .error _ => regs
  | .drop name => regs.filter (·.1 != name)
  | _ => regs

/-- A step without a pool: what it shows, and the registers after it. -/
def Step.plain (regs : Registers Unit) (st : Step) : Shown × Registers Unit :=
  (.ofEvaluation (st.computation regs), st.registersAfter regs)

theorem Step.plain_value_of_error {regs : Registers Unit} {e : Expr} {err : EvalError}
    (h : (e.eval regs : Evaluation Id _).run = .error err) (register : Option String) :
    (Step.value e register).plain regs = (.failed err, regs) := by
  have hfailed : ((Step.value e register).computation regs : Evaluation Id _).run = .error err := by
    show (ExceptT.bindCont _ (e.eval regs : Evaluation Id _).run : Id _) = _
    rw [h]
    rfl
  refine Prod.ext (by simp only [plain, Shown.ofEvaluation, hfailed]) ?_
  cases register with
  | none => rfl
  | some name => simp only [plain, registersAfter, h]

theorem Step.plain_value_of_ok {regs : Registers Unit} {e : Expr} {v : AnyTree Unit}
    (h : (e.eval regs : Evaluation Id _).run = .ok v) (register : Option String) :
    (Step.value e register).plain regs =
      (.ofTree v, match register with
        | none => regs
        | some name => (name, v) :: regs.filter (·.1 != name)) := by
  have hshown :
      ((Step.value e register).computation regs : Evaluation Id _).run = .ok (.ofTree v) := by
    show (ExceptT.bindCont _ (e.eval regs : Evaluation Id _).run : Id _) = _
    rw [h]
    rfl
  refine Prod.ext (by simp only [plain, Shown.ofEvaluation, hshown]) ?_
  cases register with
  | none => rfl
  | some name => simp only [plain, registersAfter, h]

/-- An answer shows what the step shows without a pool, and its trees are well formed. -/
structure Shows (r : Reply) (shown : Shown) : Prop where
  shown : r.shown = shown
  wellFormed : ∀ v ∈ r.trees, v.2.WellFormed

namespace Shows

/-- An answer without trees. -/
theorem of_shown {r : Reply} {shown : Shown} (h : r.shown = shown) (htrees : r.trees = []) :
    Shows r shown :=
  ⟨h, by simp [htrees]⟩

theorem ofTree {v : AnyTree Nat} (hv : v.2.WellFormed) : Shows (.value v) (.ofTree v.plain) := by
  refine ⟨?_, List.forall_mem_singleton.mpr hv⟩
  simp [Reply.shown, Shown.ofTree, AnyTree.plain, TypeTree.plain_plain]

theorem ofDeclaration {d : TypeTree Nat .typeParameter} (hd : d.WellFormed) :
    Shows (.found d) (.ofDeclaration d.plain) := by
  refine ⟨?_, List.forall_mem_singleton.mpr hd⟩
  simp [Reply.shown, Shown.ofDeclaration, TypeTree.plain_plain]

/-- Facts that are told with a pool and without. -/
theorem map_plain_of_tells {facts : List (Fact Nat)} {facts' : List (Fact Unit)}
    (h : List.Forall₂ Pool.Tells facts facts') :
    facts.map Fact.plain = facts' ∧ ∀ v ∈ facts.flatMap Fact.trees, v.2.WellFormed := by
  induction h with
  | nil => exact ⟨rfl, fun v hv => absurd hv List.not_mem_nil⟩
  | cons h _ ih =>
      rw [List.map_cons, h.plain, ih.1, List.flatMap_cons]
      exact ⟨rfl, List.forall_mem_append.mpr ⟨h.wellFormed, ih.2⟩⟩

theorem report {facts : List (Fact Nat)} {facts' : List (Fact Unit)}
    (h : List.Forall₂ Pool.Tells facts facts') : Shows (.report facts) (.report facts') := by
  obtain ⟨rfl, hwf⟩ := map_plain_of_tells h
  exact ⟨rfl, hwf⟩

theorem members {reports : List (List (Fact Nat))} {reports' : List (List (Fact Unit))}
    (h : List.Forall₂ (List.Forall₂ Pool.Tells) reports reports') :
    Shows (.members reports) (.members reports') := by
  refine ⟨congrArg Shown.members ?_, (map_plain_of_tells (List.rel_flatten h)).2⟩
  induction h with
  | nil => rfl
  | cons h _ ih => rw [List.map_cons, ih, (map_plain_of_tells h).1]

end Shows

/-- Whether trees are of one kind and equal cannot be told from their tags. -/
theorem equal?_plain (a b : AnyTree Nat) : equal? a.plain b.plain = equal? a b := by
  unfold equal?
  rw [AnyTree.isEqual_plain]
  rw [show a.plain.2.composite? = a.2.composite? from TypeTree.composite?_mapTags _ a.2,
    show b.plain.2.composite? = b.2.composite? from TypeTree.composite?_mapTags _ b.2]
  rfl

end ClassfileTypes.Session
