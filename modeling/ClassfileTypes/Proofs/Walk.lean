import ClassfileTypes.Proofs.WellFormed
import ClassfileTypes.Tree.Binding
import ClassfileTypes.Tree.Erasure
import Mathlib.Logic.Relation

/-!
# Following names to an erasure

What a type erases to is found by following names. Below its arrays a type stops at a
descriptor or at a variable. A variable goes on with the first bound of its declaration
among given ones; a variable that they do not declare erases as its declaration in an
outer scope does. The dimensions of all arrays on the way add up.

A name leads to at most one other, so the walk may come to an end in one way only, or
come to names that lead back to themselves and never end.
-/

namespace ClassfileTypes

/-- Where a type stops below its arrays. -/
inductive Stop
  | descriptor (e : TypeTree Unit .typeDescriptor)
  | name (x : String)
deriving DecidableEq, Repr

/-- A base, if it is a descriptor. -/
def Stop.IsBase : Stop → Prop
  | .descriptor e => e.IsBase
  | .name _ => True

namespace TypeTree

variable {ι : Type}

/-- The dimensions of a type that is an array. -/
def dimensions : {f : Form} → TypeTree ι f → Nat
  | _, .descArray a => a.dimensions
  | _, .arrayDescriptor _ d _ => d
  | _, .sigReference r => r.dimensions
  | _, .refArray a => a.dimensions
  | _, .arrayType _ d b => d + b.dimensions
  | _, _ => 0

/-- What a descriptor that is an array is an array of; any other one itself. -/
def base : TypeTree ι .typeDescriptor → TypeTree ι .typeDescriptor
  | .descArray (.arrayDescriptor _ _ b) => b
  | t => t

/-- Where a type stops below its arrays. -/
def stop : {f : Form} → TypeTree Unit f → Stop
  | _, .sigPrimitive p => .descriptor (.descPrimitive p)
  | _, .sigReference r => r.stop
  | _, .refClass c => .descriptor (.descClass (.classDescriptor () c.binaryName))
  | _, .refArray a => a.stop
  | _, .arrayType _ _ b => b.stop
  | _, .refVariable v => v.stop
  | _, .freeVariable _ n => .name n
  | _, .boundVariable _ d => .name d.name
  | _, _ => .descriptor .descVoid

/-- What a type erases to without a pool. -/
def typeErasure (t : TypeTree Unit .typeSignature) :
    Except TypeError (TypeTree Unit .typeDescriptor) :=
  (t.erase : ExceptT TypeError Id (TypeTree Unit .typeDescriptor)).run

/-- What the variable of a declaration erases to without a pool. -/
def variableErasure (d : TypeTree Unit .typeParameter) :
    Except TypeError (TypeTree Unit .typeDescriptor) :=
  typeErasure (.sigReference (.refVariable (.boundVariable () d)))

/-- So many dimensions over a base. -/
def arrayOf (d : Nat) (e : TypeTree Unit .typeDescriptor) : TypeTree Unit .typeDescriptor :=
  if d = 0 then e else .descArray (.arrayDescriptor () d e)

end TypeTree

section

variable (ps : List (TypeTree Unit .typeParameter)) (outer : Scope Unit)

/-- The first bound of the first declaration that goes by a name. -/
def firstBound (x : String) : Option (TypeTree Unit .referenceType) :=
  (Scope.ofParameters ps x).bind (·.bounds.head?)

/-- The walk from a stop ends at a base after so many dimensions. -/
inductive Walk : Stop → Nat → TypeTree Unit .typeDescriptor → Prop
  | descriptor (e : TypeTree Unit .typeDescriptor) : Walk (.descriptor e) 0 e
  /-- A declared name goes on with its first bound. -/
  | declared {x : String} {r : TypeTree Unit .referenceType} {n : Nat}
      {e : TypeTree Unit .typeDescriptor} (hbound : firstBound ps x = some r)
      (h : Walk r.stop n e) : Walk (.name x) (r.dimensions + n) e
  /-- Any other name erases as the outer scope says. -/
  | outer {x : String} {d : TypeTree Unit .typeParameter} {e : TypeTree Unit .typeDescriptor}
      (hnone : Scope.ofParameters ps x = none) (houter : outer x = some d)
      (herase : d.variableErasure = .ok e) :
      Walk (.name x) e.dimensions e.base

/-- A name leads to the name at which its first bound stops. -/
def Next (x y : String) : Prop :=
  ∃ r, firstBound ps x = some r ∧ r.stop = .name y

/-- The walk from a stop comes to a name. -/
def Meets : Stop → String → Prop
  | .descriptor _, _ => False
  | .name x, y => Relation.ReflTransGen (Next ps) x y

/-- The walk from a stop runs into a cycle. -/
def Cyclic (s : Stop) : Prop :=
  ∃ y, Meets ps s y ∧ Relation.TransGen (Next ps) y y

end

section

variable {ps : List (TypeTree Unit .typeParameter)} {outer : Scope Unit} {x y : String}
  {r : TypeTree Unit .referenceType} {s : Stop} {n : Nat} {e : TypeTree Unit .typeDescriptor}

theorem firstBound_of_none (hnone : Scope.ofParameters ps x = none) : firstBound ps x = none := by
  unfold firstBound
  rw [hnone]
  rfl

theorem Next.unique (hx : Next ps x y) {z : String} (hz : Next ps x z) : y = z := by
  obtain ⟨r, hr, hy⟩ := hx
  obtain ⟨r', hr', hz⟩ := hz
  obtain rfl := Option.some.inj (hr.symm.trans hr')
  exact Stop.name.inj (hy.symm.trans hz)

theorem not_next_of_none (hnone : Scope.ofParameters ps x = none) : ¬ Next ps x y := by
  rintro ⟨r, hr, -⟩
  rw [firstBound_of_none hnone] at hr
  exact nomatch hr

/-! ## What a walk meets -/

theorem Meets.refl (x : String) : Meets ps (.name x) x :=
  Relation.ReflTransGen.refl

/-- What the first bound of a name leads to, the name leads to. -/
theorem Meets.of_bound (hbound : firstBound ps x = some r) (h : Meets ps r.stop y) :
    Meets ps (.name x) y := by
  cases hstop : r.stop with
  | descriptor e =>
      rw [hstop] at h
      exact h.elim
  | name z =>
      rw [hstop] at h
      exact Relation.ReflTransGen.head ⟨r, hbound, hstop⟩ h

/-- A name leads to itself and to what its first bound leads to. -/
theorem Meets.eq_or_bound (hbound : firstBound ps x = some r) (h : Meets ps (.name x) y) :
    y = x ∨ Meets ps r.stop y := by
  rcases Relation.ReflTransGen.cases_head h with rfl | ⟨z, ⟨r', hr', hstop⟩, hz⟩
  · exact Or.inl rfl
  · obtain rfl := Option.some.inj (hbound.symm.trans hr')
    rw [hstop]
    exact Or.inr hz

/-- A name that is not declared leads to no other. -/
theorem Meets.eq_of_none (hnone : Scope.ofParameters ps x = none)
    (h : Meets ps (.name x) y) : y = x := by
  rcases Relation.ReflTransGen.cases_head h with rfl | ⟨z, hz, -⟩
  · rfl
  · exact absurd hz (not_next_of_none hnone)

/-- A name on a cycle leads to one that is on it, too. -/
theorem exists_next_of_cycle (h : Relation.TransGen (Next ps) x x) :
    ∃ y, Next ps x y ∧ Relation.ReflTransGen (Next ps) y x ∧
      Relation.TransGen (Next ps) y y := by
  obtain ⟨y, hnext, hback⟩ := Relation.TransGen.head'_iff.mp h
  exact ⟨y, hnext, hback, Relation.TransGen.tail' hback hnext⟩

theorem Cyclic.of_bound (hbound : firstBound ps x = some r) (h : Cyclic ps r.stop) :
    Cyclic ps (.name x) := by
  obtain ⟨y, hy, hcycle⟩ := h
  exact ⟨y, hy.of_bound hbound, hcycle⟩

theorem Cyclic.bound (hbound : firstBound ps x = some r) (h : Cyclic ps (.name x)) :
    Cyclic ps r.stop := by
  obtain ⟨y, hy, hcycle⟩ := h
  rcases hy.eq_or_bound hbound with rfl | hy
  · -- The name itself is on the cycle, and so is the one after it.
    obtain ⟨z, hnext, hback, -⟩ := exists_next_of_cycle hcycle
    obtain ⟨r', hr', hstop⟩ := hnext
    obtain rfl := Option.some.inj (hbound.symm.trans hr')
    rw [hstop]
    exact ⟨y, hback, hcycle⟩
  · exact ⟨y, hy, hcycle⟩

/-- A walk that comes to a name that is not declared does not run into a cycle. -/
theorem not_cyclic_of_none (hmeets : Meets ps s y) (hnone : Scope.ofParameters ps y = none) :
    ¬ Cyclic ps s := by
  cases s with
  | descriptor e => exact hmeets.elim
  | name x =>
      induction hmeets using Relation.ReflTransGen.head_induction_on with
      | refl =>
          rintro ⟨z, hz, hcycle⟩
          obtain rfl := hz.eq_of_none hnone
          obtain ⟨z', hnext, -⟩ := exists_next_of_cycle hcycle
          exact not_next_of_none hnone hnext
      | head hnext hmeets ih =>
          obtain ⟨r, hbound, hstop⟩ := hnext
          exact fun hcyclic => ih (hstop ▸ hcyclic.bound hbound)

/-! ## Walks that end -/

namespace Walk

/-- A walk ends in one way only. -/
theorem unique (h : Walk ps outer s n e) {n' : Nat} {e' : TypeTree Unit .typeDescriptor}
    (h' : Walk ps outer s n' e') : n = n' ∧ e = e' := by
  induction h generalizing n' e' with
  | descriptor e =>
      cases h'
      exact ⟨rfl, rfl⟩
  | declared hbound h ih =>
      cases h' with
      | declared hbound' h' =>
          obtain rfl := Option.some.inj (hbound.symm.trans hbound')
          obtain ⟨rfl, rfl⟩ := ih h'
          exact ⟨rfl, rfl⟩
      | outer hnone houter herase =>
          exact nomatch hbound.symm.trans (firstBound_of_none hnone)
  | outer hnone houter herase =>
      cases h' with
      | declared hbound h => exact nomatch hbound.symm.trans (firstBound_of_none hnone)
      | outer hnone' houter' herase' =>
          obtain rfl := Option.some.inj (houter.symm.trans houter')
          obtain rfl := Except.ok.inj (herase.symm.trans herase')
          exact ⟨rfl, rfl⟩

/-- A walk that ends does not run into a cycle. -/
theorem not_cyclic (h : Walk ps outer s n e) : ¬ Cyclic ps s := by
  induction h with
  | descriptor e =>
      rintro ⟨y, hy, -⟩
      exact hy
  | declared hbound h ih => exact fun hcyclic => ih (hcyclic.bound hbound)
  | outer hnone houter herase => exact not_cyclic_of_none (.refl _) hnone

/-- On a walk that ends, what is not declared has an erasure. -/
theorem outer_erases (h : Walk ps outer s n e) (hmeets : Meets ps s y)
    (hnone : Scope.ofParameters ps y = none) {d : TypeTree Unit .typeParameter}
    (houter : outer y = some d) : ∃ e', d.variableErasure = .ok e' := by
  induction h with
  | descriptor e => exact hmeets.elim
  | declared hbound h ih =>
      rcases hmeets.eq_or_bound hbound with rfl | hmeets
      · exact nomatch hbound.symm.trans (firstBound_of_none hnone)
      · exact ih hmeets
  | outer hnone' houter' herase =>
      obtain rfl := hmeets.eq_of_none hnone'
      obtain rfl := Option.some.inj (houter.symm.trans houter')
      exact ⟨_, herase⟩

/-- The outer scope is asked only for the names that the walk meets. -/
theorem congr {outer' : Scope Unit} (h : Walk ps outer s n e)
    (heq : ∀ y, Meets ps s y → outer y = outer' y) : Walk ps outer' s n e := by
  induction h with
  | descriptor e => exact .descriptor e
  | declared hbound h ih => exact .declared hbound (ih fun y hy => heq y (hy.of_bound hbound))
  | outer hnone houter herase =>
      exact .outer hnone ((heq _ (.refl _)).symm.trans houter) herase

end Walk

/-! ## Walks from a type -/

/-- Nothing stands in the way of the erasure of a type: the walk does not run into a
cycle, each name that is looked up outside has an erasure, and the dimensions do not add
up to too many. -/
structure WalkSucceeds (ps : List (TypeTree Unit .typeParameter)) (outer : Scope Unit)
    (t : TypeTree Unit .typeSignature) : Prop where
  acyclic : ¬ Cyclic ps t.stop
  outside : ∀ y p, Meets ps t.stop y → Scope.ofParameters ps y = none → outer y = some p →
    ∃ e, p.variableErasure = .ok e
  dimensions : ∀ n e, Walk ps outer t.stop n e → t.dimensions + n ≤ TypeTree.maxDimension

/-- The descriptor to which the walk from a type leads. -/
def WalksTo (ps : List (TypeTree Unit .typeParameter)) (outer : Scope Unit)
    (t : TypeTree Unit .typeSignature) (u : TypeTree Unit .typeDescriptor) : Prop :=
  ∃ n e, Walk ps outer t.stop n e ∧ u = TypeTree.arrayOf (t.dimensions + n) e

section

variable {t : TypeTree Unit .typeSignature}

theorem Walk.succeeds (h : Walk ps outer t.stop n e)
    (hle : t.dimensions + n ≤ TypeTree.maxDimension) : WalkSucceeds ps outer t where
  acyclic := h.not_cyclic
  outside _ _ hmeets hnone houter := h.outer_erases hmeets hnone houter
  dimensions n' e' h' := by
    obtain ⟨rfl, -⟩ := h.unique h'
    exact hle

theorem WalkSucceeds.congr {outer' : Scope Unit} (h : WalkSucceeds ps outer t)
    (heq : ∀ y, Meets ps t.stop y → outer y = outer' y) : WalkSucceeds ps outer' t where
  acyclic := h.acyclic
  outside y p hmeets hnone houter := h.outside y p hmeets hnone ((heq y hmeets).trans houter)
  dimensions n e hwalk := h.dimensions n e (hwalk.congr fun y hy => (heq y hy).symm)

theorem WalksTo.congr {outer' : Scope Unit} {u : TypeTree Unit .typeDescriptor}
    (h : WalksTo ps outer t u) (heq : ∀ y, Meets ps t.stop y → outer y = outer' y) :
    WalksTo ps outer' t u := by
  obtain ⟨n, e, hwalk, hu⟩ := h
  exact ⟨n, e, hwalk.congr heq, hu⟩

end

end

end ClassfileTypes
