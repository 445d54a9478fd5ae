import ClassfileTypes.Intern.Holders
import ClassfileTypes.Proofs.Tables

/-!
# The reference for a registry

The reference has no tables: it remembers the value that was registered last for each
kind and key, never forgets one, and knows nothing of strategies and purges. It takes
the steps that a registry takes, and answers those that are about values. What follows
it says who is alive, and what acquiring does to the holders of a registry, case by case.
-/

namespace ClassfileTypes.Intern

/-! ## The reference -/

/-- The places that hold values, whether values are looked up, and the value that was
registered last for each kind and key. -/
structure Reference extends Places where
  enabled : Bool
  last : String → String → Option Object := fun _ _ => none

namespace Reference

/-- Nothing is held or registered at first. -/
def new (enabled : Bool) : Reference where
  enabled := enabled

/-- The value that was registered last, if it is held, or is one of `kept`. -/
def current? (s : Reference) (kept : List Object) (kind key : String) : Option Object :=
  (s.last kind key).filter (s.aliveWith kept)

/-- What is found for a key. -/
def find? (s : Reference) (kind key : String) : Option Object :=
  if s.enabled then s.current? [] kind key else none

/-- Registers a value. -/
def register (s : Reference) (kind key : String) (o : Object) : Reference :=
  { s with last := fun k l => if k = kind ∧ l = key then some o else s.last k l }

/-- Acquires a value for a key, and makes one only if it is needed: the value, and
whether it was made. -/
def acquireWith (s : Reference) (kept : List Object) (kind key content : String) :
    Object × Bool × Reference :=
  let made : Object := ⟨s.next, kind, content⟩
  let s' := { s with next := s.next + 1 }
  if s.enabled then
    match s.current? kept kind key with
    | some o => (o, false, s)
    | none => (made, true, s'.register kind key made)
  else (made, true, s')

/-- Acquires a value for a key with the given one as the candidate: the value, and whether
it is the candidate. -/
def offer (s : Reference) (key : String) (candidate : Object) : Object × Bool × Reference :=
  match s.find? candidate.kind key with
  | some o => (o, o.identity == candidate.identity, s)
  | none =>
      (candidate, true, if s.enabled then s.register candidate.kind key candidate else s)

/-- Acquires a value for a key with a new one as the candidate, which takes an identity in
any case. -/
def acquire (s : Reference) (kind key content : String) : Object × Bool × Reference :=
  { s with next := s.next + 1 }.offer key ⟨s.next, kind, content⟩

/-- Acquires values for `count` keys in turn. -/
def fill (kind label : String) (keep : Bool) :
    (first count : Nat) → (kept : List Object) → Reference → Nat × List Object × Reference
  | _, 0, kept, s => (0, kept, s)
  | first, count + 1, kept, s =>
      let key := label ++ toString first
      let (o, made, s) := s.acquireWith kept kind key key
      let (n, kept, s) := fill kind label keep (first + 1) count (if keep then o :: kept else []) s
      ((if made then n + 1 else n), kept, s)

/-- Changes what is held. -/
def withPlaces (s : Reference) (p : Places) : Reference :=
  { s with toPlaces := p }

/-- Takes a step: what it answers, if that is about values. -/
def step (s : Reference) : Step → Option Reply × Reference
  | .acquire kind key content place =>
      let (o, isCandidate, s) := s.acquire kind key content
      (some (.acquired o.content isCandidate), s.withPlaces (s.hold place [o]))
  | .offer source key place =>
      match s.first? source with
      | some candidate =>
          let (o, isCandidate, s) := s.offer key candidate
          (some (.acquired o.content isCandidate), s.withPlaces (s.hold place [o]))
      | none => (some (.noPlace source), s)
  | .acquireWith kind key content place =>
      let (o, made, s) := s.acquireWith [] kind key content
      (some (.acquiredWith o.content made), s.withPlaces (s.hold place [o]))
  | .fill kind label first count place =>
      let (made, kept, s) := fill kind label place.isSome first count [] s
      (some (.filled made), s.withPlaces (s.hold place kept.reverse))
  | .find kind key place =>
      match s.find? kind key with
      | some o => (some (.found o.content), s.withPlaces (s.hold place [o]))
      | none => (some (.found none), s)
  | .drop name => (some (.dropped (s.place? name).isSome), s.withPlaces (s.letGo name))
  | .copy source place =>
      match s.place? source with
      | some os => (some .copied, s.withPlaces (s.hold place os))
      | none => (some (.noPlace source), s)
  | .sameObject a b =>
      match s.first? a, s.first? b with
      | none, _ => (some (.noPlace a), s)
      | some _, none => (some (.noPlace b), s)
      | some o, some o' => (some (.sameObject (o.identity == o'.identity)), s)
  | .enable on => (some (.enabled on), { s with enabled := on })
  | .count _ | .stats | .purge | .shutdown | .describe | .sweep | .awaitSweep _ => (none, s)

/-- The state after a run. -/
def after (s : Reference) (steps : List Step) : Reference :=
  steps.foldl (fun s st => (s.step st).2) s

/-- The answers to the steps of a run. -/
def run (s : Reference) : List Step → List (Option Reply)
  | [] => []
  | st :: sts => (s.step st).1 :: (s.step st).2.run sts

end Reference

/-- The answer, if it is about values. The others are about tables. -/
def Reply.ofValues? : Reply → Option Reply
  | .count _ | .stats _ | .purged _ | .sweeper _ | .described .. => none
  | r => some r

/-! ## Who is alive -/

namespace Places

variable {p : Places} {o o' : Object} {os : List Object}

theorem alive_congr (h : o.identity = o'.identity) : p.alive o = p.alive o' := by
  unfold alive
  rw [h]

theorem aliveWith_nil : p.aliveWith [] = p.alive := by
  funext o
  exact Bool.or_false _

theorem aliveWith_cons : p.aliveWith (o :: os) o' =
    (o.identity == o'.identity || p.aliveWith os o') := by
  unfold aliveWith
  rw [List.any_cons, Bool.or_left_comm]

theorem aliveWith_self : p.aliveWith (o :: os) o = true := by
  rw [aliveWith_cons, beq_self_eq_true, Bool.true_or]

/-- A value with another identity does not matter. -/
theorem aliveWith_cons_of_ne (h : o.identity ≠ o'.identity) :
    p.aliveWith (o :: os) o' = p.aliveWith os o' := by
  rw [aliveWith_cons, beq_false_of_ne h, Bool.false_or]

theorem aliveWith_congr (h : o.identity = o'.identity) : p.aliveWith os o = p.aliveWith os o' := by
  unfold aliveWith
  rw [alive_congr h, h]

/-- Values that are alive anyway do not matter. -/
theorem alive_of_aliveWith (hos : ∀ o ∈ os, p.alive o = true) (h : p.aliveWith os o' = true) :
    p.alive o' = true := by
  rcases Bool.or_eq_true_iff.mp h with h | h
  · exact h
  · obtain ⟨o, ho, hid⟩ := List.any_eq_true.mp h
    rw [← alive_congr (beq_iff_eq.mp hid)]
    exact hos o ho

/-- Neither do values that are newer. -/
theorem aliveWith_eq_alive (hos : ∀ o ∈ os, p.alive o = true ∨ p.next ≤ o.identity)
    (ho : o'.identity < p.next) : p.aliveWith os o' = p.alive o' := by
  rw [Bool.eq_iff_iff]
  constructor
  · intro h
    rcases Bool.or_eq_true_iff.mp h with h | h
    · exact h
    · obtain ⟨o, hmem, hid⟩ := List.any_eq_true.mp h
      rcases hos o hmem with halive | hle
      · rw [← alive_congr (beq_iff_eq.mp hid)]
        exact halive
      · exact absurd ho (Nat.not_lt.mpr (beq_iff_eq.mp hid ▸ hle))
  · exact fun h => Bool.or_eq_true_iff.mpr (Or.inl h)

theorem aliveWith_of_hold {place : Option String} (h : (p.hold place os).alive o = true) :
    p.aliveWith os o = true := by
  cases place with
  | none => exact Bool.or_eq_true_iff.mpr (Or.inl h)
  | some name =>
      obtain ⟨e, he, hmem⟩ := List.any_eq_true.mp h
      rcases List.mem_cons.mp he with rfl | he
      · exact Bool.or_eq_true_iff.mpr (Or.inr hmem)
      · have halive : p.alive o = true :=
          List.any_eq_true.mpr ⟨e, (List.mem_filter.mp he).1, hmem⟩
        exact Bool.or_eq_true_iff.mpr (Or.inl halive)

theorem alive_of_letGo {name : String} (h : (p.letGo name).alive o = true) :
    p.alive o = true := by
  obtain ⟨e, he, hmem⟩ := List.any_eq_true.mp h
  exact List.any_eq_true.mpr ⟨e, (List.mem_filter.mp he).1, hmem⟩

theorem alive_of_place? {name : String} (h : p.place? name = some os) (ho : o ∈ os) :
    p.alive o = true :=
  List.any_eq_true.mpr ⟨(name, os), mem_of_lookup_eq_some h,
    List.any_eq_true.mpr ⟨o, ho, beq_self_eq_true _⟩⟩

end Places

/-! ## What acquiring does to the holders -/

namespace Holders

variable {h : Holders} {kept : List Object} {kind key content : String}

theorem acquireWith_of_disabled (henabled : h.registry.enabled = false) :
    h.acquireWith kept kind key content =
      (⟨h.next, kind, content⟩, true, { h with next := h.next + 1 }) := by
  unfold acquireWith
  rw [Registry.acquireWith_of_disabled henabled]
  show (_, h.next + 1 != h.next, _) = _
  simp

theorem acquireWith_of_find? {o : Object} (henabled : h.registry.enabled = true)
    (hfind : (h.registry.table kind).find? (h.aliveWith kept) key = some o) :
    h.acquireWith kept kind key content =
      (o, false, { h with registry := h.registry.setTable kind (h.registry.table kind) }) := by
  unfold acquireWith
  rw [Registry.acquireWith_of_find? henabled hfind]
  show (_, h.next != h.next, _) = _
  simp

theorem acquireWith_of_find?_eq_none (henabled : h.registry.enabled = true)
    (hfind : (h.registry.table kind).find? (h.aliveWith kept) key = none) :
    h.acquireWith kept kind key content =
      (⟨h.next, kind, content⟩, true,
        { h with
          registry := h.registry.setTable kind ((h.registry.table kind).register
            h.registry.config.strategy (h.aliveWith (⟨h.next, kind, content⟩ :: kept)) key
            ⟨h.next, kind, content⟩)
          next := h.next + 1 }) := by
  unfold acquireWith
  rw [Registry.acquireWith_of_find?_eq_none henabled hfind]
  show (_, h.next + 1 != h.next, _) = _
  simp

variable {candidate : Object}

theorem offer_of_disabled (henabled : h.registry.enabled = false) :
    h.offer key candidate = (candidate, true, h) := by
  unfold offer
  rw [Registry.acquire_of_disabled henabled]
  simp

theorem offer_of_find? {o : Object} (henabled : h.registry.enabled = true)
    (hfind : (h.registry.table candidate.kind).find? (h.aliveWith [candidate]) key = some o) :
    h.offer key candidate = (o, o.identity == candidate.identity,
      { h with
        registry := h.registry.setTable candidate.kind (h.registry.table candidate.kind) }) := by
  unfold offer
  rw [Registry.acquire_of_find? henabled hfind]

theorem offer_of_find?_eq_none (henabled : h.registry.enabled = true)
    (hfind : (h.registry.table candidate.kind).find? (h.aliveWith [candidate]) key = none) :
    h.offer key candidate = (candidate, true,
      { h with
        registry := h.registry.setTable candidate.kind ((h.registry.table candidate.kind).register
          h.registry.config.strategy (h.aliveWith [candidate]) key candidate) }) := by
  unfold offer
  rw [Registry.acquire_of_find?_eq_none henabled hfind]
  simp

theorem step_sweep : (h.step .sweep).2 = h.sweep.2 := by
  rw [step]
  rcases h.sweep with ⟨_ | stats, h'⟩ <;> rfl

end Holders

namespace Reference

variable {s : Reference} {kept : List Object} {kind key content : String}

theorem acquireWith_of_disabled (henabled : s.enabled = false) :
    s.acquireWith kept kind key content =
      (⟨s.next, kind, content⟩, true, { s with next := s.next + 1 }) := by
  simp [acquireWith, henabled]

theorem acquireWith_of_current? {o : Object} (henabled : s.enabled = true)
    (hcurrent : s.current? kept kind key = some o) :
    s.acquireWith kept kind key content = (o, false, s) := by
  simp [acquireWith, henabled, hcurrent]

theorem acquireWith_of_current?_eq_none (henabled : s.enabled = true)
    (hcurrent : s.current? kept kind key = none) :
    s.acquireWith kept kind key content =
      (⟨s.next, kind, content⟩, true,
        { s with next := s.next + 1 }.register kind key ⟨s.next, kind, content⟩) := by
  simp [acquireWith, henabled, hcurrent]

variable {candidate : Object}

theorem offer_of_disabled (henabled : s.enabled = false) :
    s.offer key candidate = (candidate, true, s) := by
  simp [offer, find?, henabled]

theorem offer_of_current? {o : Object} (henabled : s.enabled = true)
    (hcurrent : s.current? [] candidate.kind key = some o) :
    s.offer key candidate = (o, o.identity == candidate.identity, s) := by
  simp [offer, find?, henabled, hcurrent]

theorem offer_of_current?_eq_none (henabled : s.enabled = true)
    (hcurrent : s.current? [] candidate.kind key = none) :
    s.offer key candidate = (candidate, true, s.register candidate.kind key candidate) := by
  simp [offer, find?, henabled, hcurrent]

end Reference

end ClassfileTypes.Intern
