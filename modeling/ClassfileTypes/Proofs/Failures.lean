import ClassfileTypes.Proofs.LiveCounts
import ClassfileTypes.Proofs.SessionBinding

/-!
# What failures leave behind

An operation that fails may have made trees before it did, and it may have replaced the
entries of dead objects on its way. None of that can be told afterwards. What it made is
held by nobody, so the entries that are new are those of dead objects, and these are not
found and go with the next purge. What was alive is alive, under the same key.
-/

namespace ClassfileTypes

namespace Pool

variable {canonical : Prop} {p q : Pool} {k : Composite} {key : String}

/-- Every object that is registered and alive was so before. -/
theorem Extends.alive_iff (h : p.Extends q) (hs : Sound canonical p) {e : String × AnyTree Nat} :
    e ∈ (q.registry.table k).entries ∧ q.isLive e.2 = true ↔
      e ∈ (p.registry.table k).entries ∧ p.isLive e.2 = true := by
  rw [isLive_congr h.held]
  constructor
  · rintro ⟨he, hlive⟩
    rcases h.origin k e he with he | ⟨i, htag, hi⟩
    · exact ⟨he, hlive⟩
    · -- A new object is not in what was held.
      obtain ⟨j, htag', v, hv, hj⟩ := isLive_iff.mp hlive
      obtain rfl : i = j := Option.some.inj (htag.symm.trans htag')
      exact absurd ((hs.held v hv).older i hj) (Nat.not_lt.mpr hi)
  · rintro ⟨he, hlive⟩
    exact ⟨h.entries k e he hlive, hlive⟩

/-- The tables find the same objects, whether or not the pool is on. -/
theorem Extends.find?_eq (h : p.Extends q) (hp : Sound canonical p) (hq : Sound canonical q)
    (on : Bool) : (q.setEnabled on).find? k key = (p.setEnabled on).find? k key := by
  have hfind :
      (q.registry.table k).find? q.isLive key = (p.registry.table k).find? p.isLive key := by
    apply Option.ext
    intro v
    rw [Intern.Table.find?_eq_some_iff (hq.keysDistinct k),
      Intern.Table.find?_eq_some_iff (hp.keysDistinct k)]
    exact h.alive_iff (e := (key, v)) hp
  show (if on then (q.registry.table k).find? q.isLive key else none).bind _ =
    (if on then (p.registry.table k).find? p.isLive key else none).bind _
  rw [hfind]

/-- A purge leaves the same entries. -/
theorem Extends.count_purge (h : p.Extends q) (hp : Sound canonical p) (hq : Sound canonical q) :
    q.purge.2.count k = p.purge.2.count k := by
  have hnodup : ∀ {r : Pool}, Sound canonical r → (r.purge.2.registry.table k).entries.Nodup :=
    fun hr => List.Nodup.of_map Prod.fst (hr.purge.keysDistinct k)
  have hperm : (q.purge.2.registry.table k).entries.Perm (p.purge.2.registry.table k).entries := by
    refine (List.perm_ext_iff_of_nodup (hnodup hq) (hnodup hp)).mpr fun e => ?_
    rw [mem_table_purge, mem_table_purge]
    exact h.alive_iff hp
  exact hperm.length_eq

end Pool

namespace Session

open Pool TypeTree

variable {canonical : Prop} {s s' : Session}

/-! ## Operations that fail -/

/-- An operation fails in one state and leaves the other one: a step, or an operation on
what the session holds. -/
inductive Fails (s : Session) : Session → Prop
  | step (st : Step) (e : EvalError) : (s.step st).1 = .failed e → s.Fails (s.step st).2
  | parseAt (k : Start) (text : String) (start : Nat) (e : ParseError) (q : Pool) :
      (ClassfileTypes.parseAt k text start : ExceptT ParseError PoolM _).run s.pool =
        (.error e, q) → s.Fails { s with pool := q }
  | bind {f : Form} (t : TypeTree Nat f) (b : Scope Nat) (e : TypeError) (q : Pool) :
      s.HoldsFor t b →
      (t.bind b : ExceptT TypeError PoolM _).run s.pool = (.error e, q) →
      s.Fails { s with pool := q }
  | bindMethod (t : TypeTree Nat .methodSignature) (b : Scope Nat) (e : TypeError) (q : Pool) :
      s.HoldsFor t b →
      (t.bindMethod b : ExceptT TypeError PoolM _).run s.pool = (.error e, q) →
      s.Fails { s with pool := q }
  | bindClass (t : TypeTree Nat .classSignature) (b : Scope Nat) (e : TypeError) (q : Pool) :
      s.HoldsFor t b →
      (t.bindClass b : ExceptT TypeError PoolM _).run s.pool = (.error e, q) →
      s.Fails { s with pool := q }
  | memberScope (t : TypeTree Nat .classSignature) (e : TypeError) (q : Pool) :
      s.Holds t →
      (t.memberScope : ExceptT TypeError PoolM _).run s.pool = (.error e, q) →
      s.Fails { s with pool := q }
  | erase {f : Form} (t : TypeTree Nat f) (e : TypeError) (q : Pool) :
      s.Holds t →
      (t.erase : ExceptT TypeError PoolM _).run s.pool = (.error e, q) →
      s.Fails { s with pool := q }

/-- Nothing can be told of what happened between the states: the registers are the same, the
same objects are alive and found, if the pool is on or is turned on, and after a purge there
are as many entries of each kind. -/
structure LeavesNothing (s s' : Session) : Prop where
  registers : s'.registers = s.registers
  alive : ∀ v, s'.pool.isLive v = s.pool.isLive v
  enabled : s'.pool.registry.enabled = s.pool.registry.enabled
  found : ∀ (on : Bool) (k : Composite) (key : String),
    (s'.pool.setEnabled on).find? k key = (s.pool.setEnabled on).find? k key
  counts : ∀ k, (s'.step .purge).2.pool.count k = (s.step .purge).2.pool.count k

/-- The pool was extended while the registers kept what they hold. -/
theorem Valid.leavesNothing (h : s.Valid canonical) {q : Pool} (hext : s.pool.Extends q)
    (hq : Sound canonical q) : s.LeavesNothing { s with pool := q } where
  registers := rfl
  alive := isLive_congr hext.held
  enabled := hext.enabled
  found on _ _ := hext.find?_eq h.sound hq on
  counts _ := hext.count_purge h.sound hq

/-- An operation that refines one without a pool leaves nothing behind, if it fails. -/
theorem Valid.leavesNothing_of_refines (h : s.Valid canonical) {α β ε : Type}
    {R : Pool → α → β → Prop} {x : ExceptT ε PoolM α} {y : ExceptT ε Id β} {e : ε} {q : Pool}
    (hx : Refines canonical R s.pool x y) (hrun : x.run s.pool = (.error e, q)) :
    s.LeavesNothing { s with pool := q } := by
  obtain ⟨hsound, hext, -⟩ := hx h.sound
  rw [hrun] at hsound hext
  exact h.leavesNothing hext hsound

/-- A step that fails puts nothing into a register. -/
theorem registers_of_failed {st : Step} {e : EvalError} (h : (s.perform st).1 = .failed e) :
    (s.perform st).2.registers = s.registers := by
  unfold Session.perform at h ⊢
  cases st with
  | value v register =>
      rcases hrun : (v.eval s.registers : Evaluation PoolM _).run.run s.pool with ⟨r, q⟩
      simp only [hrun] at h ⊢
      cases r with
      | error e => rfl
      | ok v =>
          cases register with
          | none => rfl
          | some name => exact nomatch h
  | report v aspects => rfl
  | compare a b => rfl
  | members c aspects => rfl
  | lookup name scope => rfl
  | drop register => exact nomatch h
  | enable on => exact nomatch h
  | purge => rfl
  | counts => rfl

/-- **A step that fails leaves nothing behind.** -/
theorem Valid.leavesNothing_step (h : s.Valid canonical) {st : Step} {e : EvalError}
    (hfailed : (s.step st).1 = .failed e) : s.LeavesNothing (s.step st).2 := by
  change (s.perform st).1 = .failed e at hfailed
  have hstep : ∀ on, st ≠ .enable on := by
    rintro on rfl
    exact nomatch hfailed
  have henabled : canonical → st.keepsEnabled = true := by
    intro _
    cases st with
    | enable on => exact absurd rfl (hstep on)
    | _ => rfl
  have hperform := h.perform st henabled
  have hext := hperform.ext hstep
  -- The registers hold what is held already.
  have hregisters := registers_of_failed hfailed
  have hheld : (s.perform st).2.registers.map (·.2) = (s.perform st).2.pool.held := by
    rw [hregisters, hext.held, h.held]
  have hstate : (s.step st).2 = { s with pool := (s.perform st).2.pool } := by
    unfold Session.step Pool.settle
    dsimp only
    rw [hheld, ← hregisters]
  rw [hstate]
  exact h.leavesNothing hext hperform.settles.sound

/-- **Failures leave nothing behind.** In every session, whatever fails leaves the same
objects alive and found, and after a purge there are as many entries of each kind as if
nothing had been tried. -/
theorem leavesNothing_of_fails (c : Intern.Config) (steps : List Step) {s' : Session}
    (h : ((start c).after steps).Fails s') : ((start c).after steps).LeavesNothing s' := by
  have hs : ((start c).after steps).Valid False := valid_after_start c steps
  cases h with
  | step st e hfailed => exact hs.leavesNothing_step hfailed
  | parseAt k text start e q hrun =>
      exact hs.leavesNothing_of_refines (refines_parseAt k text start) hrun
  | bind t b e q ht hrun => exact hs.leavesNothing_of_refines (ht.refines_bind hs) hrun
  | bindMethod t b e q ht hrun => exact hs.leavesNothing_of_refines (ht.refines_bindMethod hs) hrun
  | bindClass t b e q ht hrun => exact hs.leavesNothing_of_refines (ht.refines_bindClass hs) hrun
  | memberScope t e q ht hrun =>
      exact hs.leavesNothing_of_refines (refines_memberScope (hs.holds_tree ht)) hrun
  | erase t e q ht hrun =>
      exact hs.leavesNothing_of_refines (refines_erase (hs.holds_tree ht)) hrun

/-- The class is read and the array is refused; the class is registered, but dead. The one
that is alive is found as before. -/
theorem leavesNothing_of_refused_array :
    let s := (start {}).after [.value (.classDescriptor .checked "a") (some "x")]
    let st : Step :=
      .value (.methodDescriptor .checked [.arrayDescriptor .checked 256
        (.classDescriptor .checked "b")] (.register "x")) (some "x")
    s.LeavesNothing (s.step st).2 ∧ s.pool.count .classDescriptor = 1 ∧
      (s.step st).2.pool.count .classDescriptor = 2 := by
  intro s st
  have hfails : s.Fails (s.step st).2 :=
    .step st (.refused (.construction (.invalidDimension 256))) rfl
  exact ⟨leavesNothing_of_fails {} [.value (.classDescriptor .checked "a") (some "x")] hfails,
    by decide +kernel, by decide +kernel⟩

end Session

end ClassfileTypes
