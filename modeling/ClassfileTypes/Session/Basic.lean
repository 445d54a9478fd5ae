import ClassfileTypes.Pool.Basic
import ClassfileTypes.Session.Expression
import ClassfileTypes.Tree.Report

/-!
# Sessions

A session works on a pool with named registers, each of which holds one tree. A
step evaluates expressions and answers what can be told about the trees. Between
steps only the registers hold trees.
-/

namespace ClassfileTypes

/-- A pool and the registers. -/
structure Session where
  pool : Pool := {}
  registers : Registers Nat := []

namespace Session

/-- A step of a session. -/
inductive Step
  /-- Evaluates an expression, and puts the tree into a register if one is given. -/
  | value (e : Expr) (register : Option String)
  | report (v : Expr) (aspects : List Aspect)
  | compare (a b : Expr)
  /-- Reports on the type parameters that the members of a class see. -/
  | members (c : Expr) (aspects : List Aspect)
  | lookup (name : String) (scope : ScopeExpr)
  | drop (register : String)
  | enable (on : Bool)
  | purge
  | counts

/-- What a step answers. -/
inductive Reply
  | value (v : AnyTree Nat)
  | report (facts : List (Fact Nat))
  /-- Whether two trees are equal, if they are of one kind, and whether the trees
  inside are one object, if these are composite and of one kind. -/
  | compared (equal same : Option Bool)
  | members (reports : List (List (Fact Nat)))
  | found (declaration : TypeTree Nat .typeParameter)
  | dropped (existed : Bool)
  | enabled (on : Bool)
  | removed (n : Nat)
  | counts (cs : List (Composite × Nat))
  | failed (e : EvalError)

/-- Whether two trees are equal, if they are of one kind. -/
def equal? {ι : Type} (a b : AnyTree ι) : Option Bool :=
  if a.1 = b.1 ∧ a.2.composite? = b.2.composite? then some (a.isEqual b) else none

/-- Whether two trees are one object, if they are composite and of one kind. -/
def same? (a b : AnyTree Nat) : Option Bool :=
  if a.2.composite? = b.2.composite? then
    match a.2.tag?, b.2.tag? with
    | some i, some j => some (i = j)
    | _, _ => none
  else none

/-- Computes with the pool; a failure is the answer. -/
def answer (x : Evaluation PoolM Reply) (s : Session) : Reply × Session :=
  let (r, pool) := x.run.run s.pool
  let reply := match r with
    | .ok reply => reply
    | .error e => .failed e
  (reply, { s with pool })

/-- Takes a step. -/
def perform (s : Session) : Step → Reply × Session
  | .value e register =>
      let (r, pool) := (e.eval s.registers : Evaluation PoolM _).run.run s.pool
      match r, register with
      | .error e, _ => (.failed e, { s with pool })
      | .ok v, none => (.value v, { s with pool })
      | .ok v, some name =>
          (.value v, { pool, registers := (name, v) :: s.registers.filter (·.1 != name) })
  | .report v aspects =>
      s.answer do
        let v ← v.eval s.registers
        return .report (← holding v.2 (v.report aspects))
  | .compare a b =>
      s.answer do
        let a ← a.eval s.registers
        let b ← holding a.2 (b.eval s.registers)
        return .compared (equal? a b) (same? a.inner b.inner)
  | .members c aspects =>
      s.answer do
        let ps ← Evaluation.membersOf (← c.eval s.registers)
        return .members (← holdingAll ps (ps.mapM fun p => AnyTree.report ⟨_, p⟩ aspects))
  | .lookup name scope =>
      s.answer do
        Evaluation.inScope (← scope.eval s.registers) fun scope =>
          match scope name with
          | some d => return .found d
          | none => throw .absent
  | .drop name =>
      (.dropped (s.registers.lookup name).isSome,
        { s with registers := s.registers.filter (·.1 != name) })
  | .enable on => (.enabled on, { s with pool := s.pool.setEnabled on })
  | .purge =>
      let (n, pool) := s.pool.purge
      (.removed n, { s with pool })
  | .counts => (.counts s.pool.counts, s)

/-- Takes a step; then the registers hold what they have now. -/
def step (s : Session) (st : Step) : Reply × Session :=
  let (reply, s) := s.perform st
  (reply, { s with pool := s.pool.settle (s.registers.map (·.2)) })

/-- The answers to steps. -/
def run (s : Session) : List Step → List Reply
  | [] => []
  | st :: sts =>
      let (reply, s) := s.step st
      reply :: s.run sts

end Session

end ClassfileTypes
