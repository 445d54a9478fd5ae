import ClassfileTypes.Proofs.Sessions

/-!
# Interning does not show

An expression looks at the registers that it names and at nothing else. So sessions that
take the same steps show the same, whatever their configurations are, whenever they turn
their pools on or off and purge them, and whatever else they do in registers of their own:
what a step shows is decided by what it shows without a pool.
-/

namespace ClassfileTypes

/-! ## The registers that are looked at -/

mutual

/-- The registers that an expression names. -/
def Expr.registers : Expr → List String
  | .register name => [name]
  | .parse _ _ | .parseAt _ _ _ | .primitive _ | .voidDescriptor | .voidSignature | .wildcard
  | .objectDescriptor | .objectType | .wrapperDescriptor _ | .wrapperType _ | .classDescriptor _ _
  | .freeVariable _ _ | .unconstrained _ => []
  | .copy v | .arrayDescriptor _ _ v | .arrayType _ _ v | .boundVariable v | .wildcardOf _ v
  | .boundedArgument _ v | .convert v _ | .inner v | .part v _ _ | .signature v
  | .erase _ v => v.registers
  | .methodDescriptor _ ps r => Expr.listRegisters ps ++ r.registers
  | .classType _ o _ as => Expr.optionRegisters o ++ Expr.listRegisters as
  | .nestedType c as _ => c.registers ++ Expr.listRegisters as
  | .typeParameter _ _ c is => Expr.optionRegisters c ++ Expr.listRegisters is
  | .methodSignature _ ts ps r es =>
      Expr.listRegisters ts ++ (Expr.listRegisters ps ++ (r.registers ++ Expr.listRegisters es))
  | .classSignature ts c is =>
      Expr.listRegisters ts ++ (c.registers ++ Expr.listRegisters is)
  | .bind v s | .bindDeclared v s => v.registers ++ s.registers

/-- The registers that expressions name. -/
def Expr.listRegisters : List Expr → List String
  | [] => []
  | e :: es => e.registers ++ Expr.listRegisters es

/-- The registers that an expression names, if there is one. -/
def Expr.optionRegisters : Option Expr → List String
  | none => []
  | some e => e.registers

/-- The registers that an expression for a scope names. -/
def ScopeExpr.registers : ScopeExpr → List String
  | .empty => []
  | .parameters ps => Expr.listRegisters ps
  | .members c => c.registers
  | .within inner outer => inner.registers ++ outer.registers
  | .named ps => Expr.namedRegisters ps

/-- The registers that declarations name. -/
def Expr.namedRegisters : List (String × Expr) → List String
  | [] => []
  | (_, e) :: es => e.registers ++ Expr.namedRegisters es

end

/-- Registers that hold the same under the given names. -/
def AgreeOn {ι : Type} (names : List String) (regs regs' : Registers ι) : Prop :=
  ∀ name ∈ names, regs.lookup name = regs'.lookup name

theorem agreeOn_append {ι : Type} {names names' : List String} {regs regs' : Registers ι} :
    AgreeOn (names ++ names') regs regs' ↔
      AgreeOn names regs regs' ∧ AgreeOn names' regs regs' :=
  List.forall_mem_append

section

variable {ι : Type} {m : Type → Type} [Monad m] [MonadPool ι m] {regs regs' : Registers ι}

mutual

/-- **An expression looks at the registers that it names.** -/
theorem Expr.eval_congr (e : Expr) (h : AgreeOn e.registers regs regs') :
    (e.eval regs : Evaluation m _) = e.eval regs' := by
  match e with
  | .register name => rw [Expr.eval, Expr.eval, h name (List.mem_singleton_self name)]
  | .parse _ _ | .parseAt _ _ _ | .primitive _ | .voidDescriptor | .voidSignature | .wildcard
  | .objectDescriptor | .objectType | .wrapperDescriptor _ | .wrapperType _ | .classDescriptor _ _
  | .freeVariable _ _ | .unconstrained _ => rw [Expr.eval, Expr.eval]
  | .copy v | .arrayDescriptor _ _ v | .arrayType _ _ v | .boundVariable v | .wildcardOf _ v
  | .boundedArgument _ v | .convert v _ | .inner v | .part v _ _ | .signature v
  | .erase _ v => rw [Expr.eval, Expr.eval, Expr.eval_congr v h]
  | .methodDescriptor mode ps r =>
      obtain ⟨hps, hr⟩ := agreeOn_append.mp h
      rw [Expr.eval, Expr.eval, Expr.evalList_congr _ ps hps, Expr.eval_congr r hr]
  | .classType mode o name as =>
      obtain ⟨ho, has⟩ := agreeOn_append.mp h
      rw [Expr.eval, Expr.eval, Expr.evalOuter_congr o ho, Expr.evalList_congr _ as has]
  | .nestedType c as name =>
      obtain ⟨hc, has⟩ := agreeOn_append.mp h
      rw [Expr.eval, Expr.eval, Expr.eval_congr c hc, Expr.evalList_congr _ as has]
  | .typeParameter mode name c is =>
      obtain ⟨hc, his⟩ := agreeOn_append.mp h
      rw [Expr.eval, Expr.eval, Expr.evalClassBound_congr c hc, Expr.evalList_congr _ is his]
  | .methodSignature mode ts ps r es =>
      obtain ⟨hts, h⟩ := agreeOn_append.mp h
      obtain ⟨hps, h⟩ := agreeOn_append.mp h
      obtain ⟨hr, hes⟩ := agreeOn_append.mp h
      rw [Expr.eval, Expr.eval, Expr.evalList_congr _ ts hts, Expr.evalList_congr _ ps hps,
        Expr.eval_congr r hr, Expr.evalList_congr _ es hes]
  | .classSignature ts c is =>
      obtain ⟨hts, h⟩ := agreeOn_append.mp h
      obtain ⟨hc, his⟩ := agreeOn_append.mp h
      rw [Expr.eval, Expr.eval, Expr.evalList_congr _ ts hts, Expr.eval_congr c hc,
        Expr.evalList_congr _ is his]
  | .bind v s =>
      obtain ⟨hv, hs⟩ := agreeOn_append.mp h
      rw [Expr.eval, Expr.eval, Expr.eval_congr v hv, ScopeExpr.eval_congr s hs]
  | .bindDeclared v s =>
      obtain ⟨hv, hs⟩ := agreeOn_append.mp h
      rw [Expr.eval, Expr.eval, Expr.eval_congr v hv, ScopeExpr.eval_congr s hs]

theorem Expr.evalList_congr {f : Form} (convert : AnyTree ι → Converted ι f) (es : List Expr)
    (h : AgreeOn (Expr.listRegisters es) regs regs') :
    (Expr.evalList regs convert es : Evaluation m _) = Expr.evalList regs' convert es := by
  match es with
  | [] => rw [Expr.evalList, Expr.evalList]
  | e :: es =>
      obtain ⟨he, hes⟩ := agreeOn_append.mp h
      rw [Expr.evalList, Expr.evalList, Expr.eval_congr e he, Expr.evalList_congr convert es hes]

theorem Expr.evalOuter_congr (o : Option Expr)
    (h : AgreeOn (Expr.optionRegisters o) regs regs') :
    (Expr.evalOuter regs o : Evaluation m _) = Expr.evalOuter regs' o := by
  match o with
  | none => rw [Expr.evalOuter, Expr.evalOuter]
  | some e => rw [Expr.evalOuter, Expr.evalOuter, Expr.eval_congr e h]

theorem Expr.evalClassBound_congr (o : Option Expr)
    (h : AgreeOn (Expr.optionRegisters o) regs regs') :
    (Expr.evalClassBound regs o : Evaluation m _) = Expr.evalClassBound regs' o := by
  match o with
  | none => rw [Expr.evalClassBound, Expr.evalClassBound]
  | some e => rw [Expr.evalClassBound, Expr.evalClassBound, Expr.eval_congr e h]

/-- **So does an expression for a scope.** -/
theorem ScopeExpr.eval_congr (s : ScopeExpr) (h : AgreeOn s.registers regs regs') :
    (s.eval regs : Evaluation m _) = s.eval regs' := by
  match s with
  | .empty => rw [ScopeExpr.eval, ScopeExpr.eval]
  | .parameters ps => rw [ScopeExpr.eval, ScopeExpr.eval, Expr.evalList_congr _ ps h]
  | .members c => rw [ScopeExpr.eval, ScopeExpr.eval, Expr.eval_congr c h]
  | .within inner outer =>
      obtain ⟨hinner, houter⟩ := agreeOn_append.mp h
      rw [ScopeExpr.eval, ScopeExpr.eval, ScopeExpr.eval_congr inner hinner,
        ScopeExpr.eval_congr outer houter]
  | .named ps => rw [ScopeExpr.eval, ScopeExpr.eval, Expr.evalNamed_congr ps h]

theorem Expr.evalNamed_congr (ps : List (String × Expr))
    (h : AgreeOn (Expr.namedRegisters ps) regs regs') :
    (Expr.evalNamed regs ps : Evaluation m _) = Expr.evalNamed regs' ps := by
  match ps with
  | [] => rw [Expr.evalNamed, Expr.evalNamed]
  | (name, e) :: es =>
      obtain ⟨he, hes⟩ := agreeOn_append.mp h
      rw [Expr.evalNamed, Expr.evalNamed, Expr.eval_congr e he, Expr.evalNamed_congr es hes]

end

end

/-! ## What a step shows and changes without a pool -/

theorem lookup_filter_ne {α : Type} {name name' : String} (h : name' ≠ name)
    (l : List (String × α)) : (l.filter (·.1 != name)).lookup name' = l.lookup name' := by
  induction l with
  | nil => rfl
  | cons e l ih =>
      obtain ⟨x, a⟩ := e
      rw [List.filter_cons, List.lookup_cons]
      by_cases hx : x = name
      · have hne : (name' == x) = false := beq_false_of_ne (hx ▸ h)
        rw [if_neg (by simp [hx]), hne, ih]
      · rw [if_pos (by simp [hx]), List.lookup_cons, ih]

/-- What was put somewhere is there, and the rest is where it was. -/
theorem lookup_put {α : Type} (name name' : String) (a : α) (l : List (String × α)) :
    ((name, a) :: l.filter (·.1 != name)).lookup name' =
      if name' = name then some a else l.lookup name' := by
  rw [List.lookup_cons]
  split_ifs with h
  · rw [beq_iff_eq.mpr h]
  · rw [beq_false_of_ne h]
    exact lookup_filter_ne h l

theorem lookup_filter_self {α : Type} (name : String) (l : List (String × α)) :
    (l.filter (·.1 != name)).lookup name = none := by
  rw [List.lookup_eq_none_iff]
  intro e he
  have hne : e.1 ≠ name := bne_iff_ne.mp (List.mem_filter.mp he).2
  simpa using hne.symm

namespace Session

variable {regs regs' : Registers Unit}

/-- The registers that a step looks at. -/
def Step.registers : Step → List String
  | .value e _ => e.registers
  | .report v _ => v.registers
  | .compare a b => a.registers ++ b.registers
  | .members c _ => c.registers
  | .lookup _ scope => scope.registers
  | .drop register => [register]
  | .enable _ | .purge | .counts => []

/-- The register that a step may change. -/
def Step.target? : Step → Option String
  | .value _ register => register
  | .drop register => some register
  | _ => none

/-- What a step shows is computed from the registers that it looks at. -/
theorem Step.computation_congr (st : Step) (h : AgreeOn st.registers regs regs') :
    (st.computation regs : Evaluation Id _) = st.computation regs' := by
  unfold Step.computation
  cases st with
  | value e register =>
      dsimp only
      rw [e.eval_congr h]
  | report v aspects =>
      dsimp only
      rw [v.eval_congr h]
  | compare a b =>
      obtain ⟨ha, hb⟩ := agreeOn_append.mp h
      dsimp only
      rw [a.eval_congr ha, b.eval_congr hb]
  | members c aspects =>
      dsimp only
      rw [c.eval_congr h]
  | lookup name scope =>
      dsimp only
      rw [scope.eval_congr h]
  | drop register =>
      dsimp only
      rw [h register (List.mem_singleton_self register)]
  | enable on => rfl
  | purge => rfl
  | counts => rfl

/-- A step shows what the registers that it looks at decide. -/
theorem Step.shown_congr (st : Step) (h : AgreeOn st.registers regs regs') :
    (st.plain regs).1 = (st.plain regs').1 :=
  congrArg Shown.ofEvaluation (st.computation_congr h)

/-- A step changes no register but its target. -/
theorem Step.lookup_plain_of_ne (st : Step) (regs : Registers Unit) {name : String}
    (h : st.target? ≠ some name) : (st.plain regs).2.lookup name = regs.lookup name := by
  cases st with
  | value e register =>
      cases he : (e.eval regs : Evaluation Id _).run with
      | error err => rw [plain_value_of_error he]
      | ok v =>
          rw [plain_value_of_ok he]
          cases register with
          | none => rfl
          | some target =>
              have hne : name ≠ target := fun heq => h (congrArg some heq.symm)
              exact (lookup_put target name v regs).trans (if_neg hne)
  | drop register =>
      have hne : name ≠ register := fun heq => h (congrArg some heq.symm)
      exact lookup_filter_ne hne regs
  | _ => rfl

/-- Registers that agree on what a step looks at agree after the step as far as before. -/
theorem Step.lookup_plain_congr (st : Step) (h : AgreeOn st.registers regs regs') {name : String}
    (hname : regs.lookup name = regs'.lookup name) :
    (st.plain regs).2.lookup name = (st.plain regs').2.lookup name := by
  cases st with
  | value e register =>
      have heval : (e.eval regs : Evaluation Id _) = e.eval regs' := e.eval_congr h
      cases he : (e.eval regs' : Evaluation Id _).run with
      | error err => rw [plain_value_of_error he, plain_value_of_error (heval ▸ he), hname]
      | ok v =>
          rw [plain_value_of_ok he, plain_value_of_ok (heval ▸ he)]
          cases register with
          | none => exact hname
          | some target =>
              refine (lookup_put target name v regs).trans (Eq.trans ?_
                (lookup_put target name v regs').symm)
              rw [hname]
  | drop register =>
      show (regs.filter _).lookup name = (regs'.filter _).lookup name
      by_cases hne : name = register
      · rw [hne, lookup_filter_self, lookup_filter_self]
      · rw [lookup_filter_ne hne, lookup_filter_ne hne, hname]
  | _ => exact hname

/-! ## Sessions that share steps -/

/-- A step that a session shares with another one, or one of its own. -/
inductive Turn
  | shared (st : Step)
  | own (st : Step)

/-- The step that is taken. -/
def Turn.step : Turn → Step
  | .shared st | .own st => st

/-- The step, if it is shared. -/
def Turn.shared? : Turn → Option Step
  | .shared st => some st
  | .own _ => none

/-- The step, if it is not shared. -/
def Turn.own? : Turn → Option Step
  | .own st => some st
  | .shared _ => none

/-- The answers to the shared steps. -/
def sharedReplies (s : Session) (turns : List Turn) : List Reply :=
  (turns.zip (s.run (turns.map Turn.step))).filterMap fun e => e.1.shared?.map fun _ => e.2

/-- No step of the session's own changes a register that a shared step looks at. -/
def Unrelated (turns : List Turn) : Prop :=
  ∀ st ∈ turns.filterMap Turn.own?, ∀ name ∈ st.target?.toList,
    ∀ st' ∈ turns.filterMap Turn.shared?, name ∉ st'.registers

instance (turns : List Turn) : Decidable (Unrelated turns) :=
  inferInstanceAs (Decidable (∀ st ∈ turns.filterMap Turn.own?, ∀ name ∈ st.target?.toList,
    ∀ st' ∈ turns.filterMap Turn.shared?, name ∉ st'.registers))

/-- What steps show without a pool. -/
def plainRun (regs : Registers Unit) : List Step → List Shown
  | [] => []
  | st :: sts => (st.plain regs).1 :: plainRun (st.plain regs).2 sts

/-- **Shared steps show what they show alone and without a pool.** The registers that they
look at are the same before and after each turn. -/
theorem Valid.shown_sharedReplies {s : Session} (h : s.Valid False) (names : List String)
    (turns : List Turn) (hregs : AgreeOn names s.plainRegisters regs)
    (hshared : ∀ st ∈ turns.filterMap Turn.shared?, st.registers ⊆ names)
    (hown : ∀ st ∈ turns.filterMap Turn.own?, ∀ name ∈ st.target?.toList, name ∉ names) :
    (s.sharedReplies turns).map Reply.shown = plainRun regs (turns.filterMap Turn.shared?) := by
  induction turns generalizing s regs with
  | nil => rfl
  | cons turn turns ih =>
      cases turn with
      | shared st =>
          obtain ⟨hst, hshared⟩ := List.forall_mem_cons.mp hshared
          obtain ⟨hshows, hafter⟩ := h.step_shows st fun hc => hc.elim
          have hlooks : AgreeOn st.registers s.plainRegisters regs :=
            fun name hname => hregs name (hst hname)
          have hnext : AgreeOn names (s.step st).2.plainRegisters (st.plain regs).2 := by
            intro name hname
            rw [hafter]
            exact st.lookup_plain_congr hlooks (hregs name hname)
          have hrest := ih (h.step st fun hc => hc.elim) hnext hshared hown
          show (s.step st).1.shown :: ((s.step st).2.sharedReplies turns).map Reply.shown = _
          rw [hshows.shown, st.shown_congr hlooks, hrest]
          rfl
      | own st =>
          obtain ⟨hst, hown⟩ := List.forall_mem_cons.mp hown
          obtain ⟨-, hafter⟩ := h.step_shows st fun hc => hc.elim
          have hnext : AgreeOn names (s.step st).2.plainRegisters regs := by
            intro name hname
            rw [hafter, st.lookup_plain_of_ne, hregs name hname]
            intro htarget
            exact hst name (by simp [htarget]) hname
          exact ih (h.step st fun hc => hc.elim) hnext hshared hown

/-- **Interning does not show.** Two sessions of any configurations that share steps show
the same in them: equal trees with the same texts, equal facts, or the same error. Each
may turn its pool on and off and purge it at any time, and make and hold other trees, as
long as it leaves the registers alone that the shared steps look at. -/
theorem shown_sharedReplies_eq {c c' : Intern.Config} {turns turns' : List Turn}
    (hshared : turns.filterMap Turn.shared? = turns'.filterMap Turn.shared?)
    (h : Unrelated turns) (h' : Unrelated turns') :
    ((start c).sharedReplies turns).map Reply.shown =
      ((start c').sharedReplies turns').map Reply.shown := by
  have halone : ∀ (c : Intern.Config) (turns : List Turn), Unrelated turns →
      ((start c).sharedReplies turns).map Reply.shown =
        plainRun [] (turns.filterMap Turn.shared?) := by
    intro c turns h
    refine (valid_start c False.elim).shown_sharedReplies
      ((turns.filterMap Turn.shared?).flatMap Step.registers) turns (fun _ _ => rfl) ?_ ?_
    · exact fun st hst name hname => List.mem_flatMap.mpr ⟨st, hst, hname⟩
    · intro st hst name hname hmem
      obtain ⟨st', hst', hlooks⟩ := List.mem_flatMap.mp hmem
      exact h st hst name hname st' hst' hlooks
  rw [halone c turns h, halone c' turns' h', hshared]

/-- In the second session the pool is off while the class is made and on when the array
is, so that the array is not the one of the first class; and another array is held. -/
theorem shown_sharedReplies_eq_of_disabled :
    let x : Step := .value (.classDescriptor .checked "a.b") (some "x")
    let y : Step := .value (.arrayDescriptor .checked 2 (.register "x")) (some "y")
    let z : Step := .compare (.register "y") (.arrayDescriptor .checked 2 (.register "x"))
    ((start {}).sharedReplies [.shared x, .shared y, .own .purge, .shared z]).map Reply.shown =
      ((start { strategy := .locked }).sharedReplies [.own (.enable false), .shared x,
        .own (.value (.arrayDescriptor .checked 3 (.register "x")) (some "z")), .shared y,
        .own (.enable true), .shared z, .own (.drop "z")]).map Reply.shown := by
  intro x y z
  exact shown_sharedReplies_eq rfl (by decide) (by decide)

end Session

end ClassfileTypes
