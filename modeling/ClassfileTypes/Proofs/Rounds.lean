import ClassfileTypes.Proofs.BoundTypes
import ClassfileTypes.Proofs.Totality
import Mathlib.Data.List.Perm.Subperm

/-!
# Rounds of binding

Declarations are bound in rounds, each against the outcome of the round before. After a
round a name erases as its first bound does in the scope of the round before. So a name
needs a round for each declaration on the way to where the walk from it ends. No
declaration occurs on the way twice unless the way is a cycle, and so a round for each of
them is enough. On a cycle no number of rounds is: in the end there is a name that is not
bound.
-/

namespace ClassfileTypes

/-! ## Where a walk gets -/

section

open TypeTree

variable {ps : List (TypeTree Unit .typeParameter)} {outer : Scope Unit} {st : Stop}
  {d n : Nat} {e : TypeTree Unit .typeDescriptor}
  {r : Except TypeError (TypeTree Unit .typeDescriptor)}

/-- The walk from a stop explains an outcome, for a type with so many dimensions. -/
inductive Explains (ps : List (TypeTree Unit .typeParameter)) (outer : Scope Unit) (d : Nat)
    (st : Stop) : Except TypeError (TypeTree Unit .typeDescriptor) → Prop
  | descriptor {n : Nat} {e : TypeTree Unit .typeDescriptor} (h : Walk ps outer st n e)
      (hle : d + n ≤ maxDimension) : Explains ps outer d st (.ok (arrayOf (d + n) e))
  | tooMany {n : Nat} {e : TypeTree Unit .typeDescriptor} {err : TypeError}
      (h : Walk ps outer st n e) (hlt : maxDimension < d + n) : Explains ps outer d st (.error err)
  | outer {y : String} {p : TypeTree Unit .typeParameter} {err : TypeError}
      (hmeets : Meets ps st y) (hnone : Scope.ofParameters ps y = none)
      (houter : outer y = some p) (herase : p.variableErasure = .error err) :
      Explains ps outer d st (.error err)
  | cycle {x : String} (h : Cyclic ps st) : Explains ps outer d st (.error (.unresolved x))

/-- A walk over well-formed declarations ends at a base. -/
theorem Walk.isBase (hps : ∀ x r, firstBound ps x = some r → NamedType (.sigReference r))
    (houter : ∀ x p, outer x = some p → p.WellFormed) (h : Walk ps outer st n e)
    (hst : st.IsBase) : e.IsBase := by
  induction h with
  | descriptor e => exact hst
  | declared hbound h ih => exact ih ((hps _ _ hbound).isBase_stop rfl)
  | outer hnone hsome herase =>
      obtain ⟨hwf, hvoid⟩ := wellFormed_of_typeErasure _ (houter _ _ hsome) rfl herase
      exact (eq_arrayOf hwf hvoid).2.1

namespace Explains

/-- The same below more arrays. -/
theorem addArrays (hps : ∀ x r, firstBound ps x = some r → NamedType (.sigReference r))
    (houter : ∀ x p, outer x = some p → p.WellFormed) (hst : d ≠ 0 → st.IsBase)
    (hd : d ≤ maxDimension) (h : Explains ps outer 0 st r) :
    Explains ps outer d st (r >>= TypeTree.addArrays d) := by
  cases h with
  | @descriptor n e h hle =>
      have he : d ≠ 0 → e.IsBase := fun hzero => h.isBase hps houter (hst hzero)
      rw [Nat.zero_add] at hle ⊢
      show Explains ps outer d st (TypeTree.addArrays d (arrayOf n e))
      rcases Nat.lt_or_ge maxDimension (d + n) with hlt | hle'
      · rw [addArrays_of_lt he hd hle hlt]
        exact .tooMany h hlt
      · rw [addArrays_of_le he hle']
        exact .descriptor h hle'
  | tooMany h hlt => exact .tooMany h (by omega)
  | outer hmeets hnone hsome herase => exact .outer hmeets hnone hsome herase
  | cycle h => exact .cycle h

/-- The same from a declared name whose first bound it is. -/
theorem of_bound {x : String} {b : TypeTree Unit .referenceType}
    (hbound : firstBound ps x = some b) (h : Explains ps outer b.dimensions b.stop r) :
    Explains ps outer 0 (.name x) r := by
  cases h with
  | @descriptor n e h hle =>
      rw [← Nat.zero_add (b.dimensions + n)]
      exact .descriptor (.declared hbound h) (by omega)
  | tooMany h hlt => exact .tooMany (.declared hbound h) (by omega)
  | outer hmeets hnone hsome herase =>
      exact .outer (hmeets.of_bound hbound) hnone hsome herase
  | cycle h => exact .cycle (h.of_bound hbound)

/-- A name that is not declared erases as the outer scope says. -/
theorem of_outer (houter : ∀ x p, outer x = some p → p.WellFormed) {x : String}
    (hnone : Scope.ofParameters ps x = none) {p : TypeTree Unit .typeParameter}
    (hsome : outer x = some p) : Explains ps outer 0 (.name x) p.variableErasure := by
  cases herase : p.variableErasure with
  | ok e =>
      obtain ⟨hwf, hvoid⟩ := wellFormed_of_typeErasure _ (houter x p hsome) rfl herase
      obtain ⟨hmax, -, heq⟩ := eq_arrayOf hwf hvoid
      have h := descriptor (d := 0) (.outer hnone hsome herase) (by omega)
      rw [Nat.zero_add, ← heq] at h
      exact h
  | error err => exact .outer (.refl x) hnone hsome herase

end Explains

end

/-! ## Rounds -/

namespace TypeTree

variable {declared : TypeTree Unit (.list .typeParameter)} {outer : Scope Unit}

/-- The outcome of so many rounds of binding declarations. -/
inductive Round (declared : TypeTree Unit (.list .typeParameter)) (outer : Scope Unit) :
    Nat → TypeTree Unit (.list .typeParameter) → Prop
  | start : Round declared outer 0 declared
  | next {k : Nat} {resolved next : TypeTree Unit (.list .typeParameter)}
      (h : Round declared outer k resolved)
      (hnext : (declared.bind ((Scope.ofParameters resolved.entries).within outer) :
        ExceptT TypeError Id _).run = .ok next) : Round declared outer (k + 1) next

/-- The scope that a round leaves to the next. -/
def roundScope (outer : Scope Unit) (resolved : TypeTree Unit (.list .typeParameter)) :
    Scope Unit :=
  (Scope.ofParameters resolved.entries).within outer

namespace Round

variable {k : Nat} {resolved : TypeTree Unit (.list .typeParameter)}

theorem of_resolveRounds {rounds : Nat} {final : TypeTree Unit (.list .typeParameter)}
    (h : Round declared outer k resolved)
    (hrun : (resolveRounds declared outer rounds resolved : ExceptT TypeError Id _).run =
      .ok final) : Round declared outer (k + rounds) final := by
  induction rounds generalizing k resolved with
  | zero =>
      obtain rfl := Except.ok.inj hrun
      exact h
  | succ rounds ih =>
      obtain ⟨next, hnext, hrun⟩ := run_bind_eq_ok.mp hrun
      rw [← Nat.add_assoc, Nat.add_right_comm]
      exact ih (h.next hnext) hrun

theorem of_resolve {final : TypeTree Unit (.list .typeParameter)}
    (hrun : (resolve declared outer : ExceptT TypeError Id _).run = .ok final) :
    Round declared outer declared.entries.length final := by
  have h := Round.start.of_resolveRounds hrun
  rw [Nat.zero_add] at h
  exact h

theorem names (h : Round declared outer k resolved) :
    resolved.entries.map name = declared.entries.map name := by
  cases h with
  | start => rfl
  | next h hnext => exact names_of_bind declared resolved hnext

end Round

/-! ### First bounds -/

theorem ofParameters_eq_none_iff {ps : List (TypeTree Unit .typeParameter)} {x : String} :
    Scope.ofParameters ps x = none ↔ x ∉ ps.map name := by
  simp [Scope.ofParameters, List.find?_eq_none]

theorem ofParameters_cons_of_eq {d : TypeTree Unit .typeParameter} {x : String}
    (h : d.name = x) (ds : List (TypeTree Unit .typeParameter)) :
    Scope.ofParameters (d :: ds) x = some d :=
  List.find?_cons_of_pos (by simpa using h)

theorem ofParameters_cons_of_ne {d : TypeTree Unit .typeParameter} {x : String}
    (h : d.name ≠ x) (ds : List (TypeTree Unit .typeParameter)) :
    Scope.ofParameters (d :: ds) x = Scope.ofParameters ds x :=
  List.find?_cons_of_neg (by simpa using h)

theorem mem_names_of_firstBound {ps : List (TypeTree Unit .typeParameter)} {x : String}
    {r : TypeTree Unit .referenceType} (h : firstBound ps x = some r) : x ∈ ps.map name := by
  by_contra hnone
  rw [firstBound_of_none (ofParameters_eq_none_iff.mpr hnone)] at h
  exact nomatch h

/-- A type parameter has a bound. -/
theorem exists_bound {p : TypeTree Unit .typeParameter} (hwf : p.WellFormed) (hu : p.Unbound) :
    ∃ r, p.bounds.head? = some r ∧ NamedType (.sigReference r) := by
  match p with
  | .typeParameter i n (.boundedBy r) is =>
      exact ⟨r, rfl, .of_unbound hwf.2.2.1 hu.1⟩
  | .typeParameter i n .noClassBound .nil => exact nomatch hwf.2.1 rfl
  | .typeParameter i n .noClassBound (.cons r rs) =>
      exact ⟨r, rfl, .of_unbound hwf.2.2.2.1 hu.2.1⟩

/-- A variable erases as its first bound does. -/
theorem variableErasure_of_bound {p : TypeTree Unit .typeParameter}
    {r : TypeTree Unit .referenceType} (h : p.bounds.head? = some r) :
    p.variableErasure = typeErasure (.sigReference r) := by
  match p with
  | .typeParameter i n (.boundedBy r') is =>
      obtain rfl := Option.some.inj h
      rfl
  | .typeParameter i n .noClassBound .nil => exact nomatch h
  | .typeParameter i n .noClassBound (.cons r' rs) =>
      obtain rfl := Option.some.inj h
      rfl

theorem bound_of_bind {p p' : TypeTree Unit .typeParameter}
    (hp : (p.bind s : ExceptT TypeError Id _).run = .ok p') {r : TypeTree Unit .referenceType}
    (h : p.bounds.head? = some r) :
    ∃ r', (r.bind s : ExceptT TypeError Id _).run = .ok r' ∧ p'.bounds.head? = some r' := by
  match p with
  | .typeParameter i n c is =>
      obtain ⟨c', hc, hp⟩ := run_bind_eq_ok.mp hp
      obtain ⟨is', his, hp⟩ := run_bind_eq_ok.mp hp
      obtain ⟨-, -, rfl⟩ := eq_of_makeTypeParameter hp
      cases c with
      | boundedBy r' =>
          obtain rfl := Option.some.inj h
          obtain ⟨r₁, hr, rfl⟩ := run_map_eq_ok.mp hc
          exact ⟨r₁, hr, rfl⟩
      | noClassBound =>
          obtain rfl := Except.ok.inj hc
          cases is with
          | nil => exact nomatch h
          | cons r' rs =>
              obtain rfl := Option.some.inj h
              obtain ⟨r₁, hr, his⟩ := run_bind_eq_ok.mp his
              obtain ⟨rs', -, his⟩ := run_bind_eq_ok.mp his
              obtain rfl := Except.ok.inj his
              exact ⟨r₁, hr, rfl⟩

/-- The declaration of a name is bound with the others. -/
theorem ofParameters_of_bind (ts ts' : TypeTree Unit (.list .typeParameter))
    (h : (ts.bind s : ExceptT TypeError Id _).run = .ok ts') {x : String}
    {p : TypeTree Unit .typeParameter} (hp : Scope.ofParameters ts.entries x = some p) :
    ∃ p', (p.bind s : ExceptT TypeError Id _).run = .ok p' ∧
      Scope.ofParameters ts'.entries x = some p' := by
  match ts with
  | .nil => exact nomatch hp
  | .cons d ds =>
      obtain ⟨d', hd, h⟩ := run_bind_eq_ok.mp h
      obtain ⟨ds', hds, h⟩ := run_bind_eq_ok.mp h
      obtain rfl := Except.ok.inj h
      have hname := name_of_bind hd
      rcases eq_or_ne d.name x with hx | hx
      · obtain rfl := Option.some.inj ((ofParameters_cons_of_eq hx _).symm.trans hp)
        exact ⟨d', hd, ofParameters_cons_of_eq (hname.trans hx) _⟩
      · obtain ⟨p', hp', hfind⟩ := ofParameters_of_bind ds ds' hds
          ((ofParameters_cons_of_ne hx _).symm.trans hp)
        exact ⟨p', hp', (ofParameters_cons_of_ne (hname ▸ hx) _).trans hfind⟩

/-! ### Names after a round -/

section

variable {k : Nat} {resolved next : TypeTree Unit (.list .typeParameter)} {x : String}
  {r : TypeTree Unit .referenceType}

theorem roundScope_of_none (h : Round declared outer k resolved)
    (hnone : Scope.ofParameters declared.entries x = none) :
    roundScope outer resolved x = outer x := by
  have hnone' : Scope.ofParameters resolved.entries x = none :=
    ofParameters_eq_none_iff.mpr (h.names ▸ ofParameters_eq_none_iff.mp hnone)
  unfold roundScope Scope.within
  rw [hnone']
  rfl

theorem roundScope_of_some {p : TypeTree Unit .typeParameter}
    (h : Scope.ofParameters resolved.entries x = some p) :
    roundScope outer resolved x = some p := by
  unfold roundScope Scope.within
  rw [h]
  rfl

theorem erasure_of_some {p : TypeTree Unit .typeParameter} {s : Scope Unit} (h : s x = some p) :
    s.erasure x = p.variableErasure := by
  unfold Scope.erasure
  rw [h]

/-- Before the first round the declarations are as they were. -/
theorem erasure_start (hbound : firstBound declared.entries x = some r) :
    (roundScope outer declared).erasure x = typeErasure (.sigReference r) := by
  obtain ⟨p, hp, hr⟩ := Option.bind_eq_some_iff.mp hbound
  rw [erasure_of_some (roundScope_of_some hp), variableErasure_of_bound hr]

/-- In a round the first bound of a name is bound in the scope of the round before. -/
theorem bound_next (hbound : firstBound declared.entries x = some r)
    (hnext : (declared.bind (roundScope outer resolved) : ExceptT TypeError Id _).run = .ok next) :
    ∃ r', (r.bind (roundScope outer resolved) : ExceptT TypeError Id _).run = .ok r' ∧
      (roundScope outer next).erasure x = typeErasure (.sigReference r') := by
  obtain ⟨p, hp, hhead⟩ := Option.bind_eq_some_iff.mp hbound
  obtain ⟨p', hp', hfind⟩ := ofParameters_of_bind declared next hnext hp
  obtain ⟨r', hr', hhead'⟩ := bound_of_bind hp' hhead
  refine ⟨r', hr', ?_⟩
  rw [erasure_of_some (roundScope_of_some hfind), variableErasure_of_bound hhead']

theorem erasure_next (hbound : firstBound declared.entries x = some r)
    (hr : NamedType (.sigReference r))
    (hnext : (declared.bind (roundScope outer resolved) : ExceptT TypeError Id _).run = .ok next) :
    (roundScope outer next).erasure x =
      r.stop.erasure (roundScope outer resolved) >>= addArrays r.dimensions := by
  obtain ⟨r', hr', heq⟩ := bound_next hbound hnext
  exact heq.trans (hr.erasure_of_bind (run_map_eq_ok.mpr ⟨r', hr', rfl⟩))

end

/-! ### Enough rounds -/

/-- Names that are seen on the way to a name, each once. -/
structure Seen (ps : List (TypeTree Unit .typeParameter)) (x : String) (seen : List String) :
    Prop where
  nodup : seen.Nodup
  declared : ∀ y ∈ seen, y ∈ ps.map name
  leads : ∀ y ∈ seen, Relation.TransGen (Next ps) y x

theorem Seen.nil (ps : List (TypeTree Unit .typeParameter)) (x : String) : Seen ps x [] :=
  ⟨List.nodup_nil, fun _ hy => absurd hy List.not_mem_nil, fun _ hy => absurd hy List.not_mem_nil⟩

/-- There are fewer of them than declarations as long as there is one more to come. -/
theorem Seen.length_lt {ps : List (TypeTree Unit .typeParameter)} {x : String}
    {seen : List String} (h : Seen ps x seen) (hx : x ∉ seen) (hmem : x ∈ ps.map name) :
    seen.length < ps.length := by
  have hsub : (x :: seen).Subperm (ps.map name) :=
    List.subperm_of_subset (List.nodup_cons.mpr ⟨hx, h.nodup⟩)
      (List.forall_mem_cons.mpr ⟨hmem, h.declared⟩)
  have hle := hsub.length_le
  rwa [List.length_map] at hle

theorem Seen.step {ps : List (TypeTree Unit .typeParameter)} {x y : String}
    {seen : List String} (h : Seen ps x seen) (hx : x ∉ seen) (hnext : Next ps x y) :
    Seen ps y (x :: seen) where
  nodup := List.nodup_cons.mpr ⟨hx, h.nodup⟩
  declared := by
    obtain ⟨r, hbound, -⟩ := hnext
    exact List.forall_mem_cons.mpr ⟨mem_names_of_firstBound hbound, h.declared⟩
  leads := List.forall_mem_cons.mpr
    ⟨.single hnext, fun y hy => (h.leads y hy).tail hnext⟩

section

variable {k : Nat} {resolved : TypeTree Unit (.list .typeParameter)} {x : String}
  (hwf : declared.WellFormed) (hu : declared.Unbound)

include hwf hu

/-- The first bounds of declarations are types that are not bound yet. -/
theorem namedType_of_firstBound {r : TypeTree Unit .referenceType}
    (h : firstBound declared.entries x = some r) : NamedType (.sigReference r) := by
  obtain ⟨p, hp, hhead⟩ := Option.bind_eq_some_iff.mp h
  have hmem := List.mem_of_find?_eq_some hp
  obtain ⟨r', hr', hnamed⟩ := exists_bound (hwf.entries p hmem) (hu.entries p hmem)
  obtain rfl := Option.some.inj (hhead.symm.trans hr')
  exact hnamed

theorem exists_firstBound (h : Scope.ofParameters declared.entries x ≠ none) :
    ∃ r, firstBound declared.entries x = some r := by
  obtain ⟨p, hp⟩ := Option.ne_none_iff_exists'.mp h
  have hmem := List.mem_of_find?_eq_some hp
  obtain ⟨r, hr, -⟩ := exists_bound (hwf.entries p hmem) (hu.entries p hmem)
  exact ⟨r, Option.bind_eq_some_iff.mpr ⟨p, hp, hr⟩⟩

/-- A name on a cycle has no erasure, however many rounds there were. -/
theorem erasure_of_cycle (h : Round declared outer k resolved)
    (hcycle : Relation.TransGen (Next declared.entries) x x) :
    ∃ z, (roundScope outer resolved).erasure x = .error (.unresolved z) := by
  induction h generalizing x with
  | start =>
      obtain ⟨y, ⟨r, hbound, hstop⟩, -⟩ := exists_next_of_cycle hcycle
      refine ⟨y, (erasure_start hbound).trans ?_⟩
      exact (namedType_of_firstBound hwf hu hbound).erasure_of_stop_name hstop
  | next h hnext ih =>
      obtain ⟨y, ⟨r, hbound, hstop⟩, -, hcycle⟩ := exists_next_of_cycle hcycle
      obtain ⟨z, hz⟩ := ih hcycle
      refine ⟨z, (erasure_next hbound (namedType_of_firstBound hwf hu hbound) hnext).trans ?_⟩
      rw [hstop, Stop.erasure, hz]
      rfl

variable (houter : ∀ x p, outer x = some p → p.WellFormed)

include houter

/-- A type erases as the walk says if the name at which it stops does. -/
theorem explains_type {t : TypeTree Unit .typeSignature} (ht : NamedType t)
    (hname : ∀ y, t.stop = .name y → Explains declared.entries outer 0 (.name y) (s.erasure y)) :
    Explains declared.entries outer t.dimensions t.stop
      (t.stop.erasure s >>= addArrays t.dimensions) := by
  refine .addArrays (fun x r => namedType_of_firstBound hwf hu) houter
    ht.isBase_of_dimensions ht.dimensions_le ?_
  cases hstop : t.stop with
  | descriptor e => exact .descriptor (.descriptor e) (Nat.zero_le _)
  | name y => exact hname y hstop

/-- A name that is not declared is looked up outside, and one that was seen before is on
a cycle. -/
theorem explains_or_bound (h : Round declared outer k resolved)
    (hsome : (roundScope outer resolved x).isSome) {seen : List String}
    (hseen : Seen declared.entries x seen) :
    Explains declared.entries outer 0 (.name x) ((roundScope outer resolved).erasure x) ∨
      x ∉ seen ∧ ∃ r, firstBound declared.entries x = some r := by
  by_cases hnone : Scope.ofParameters declared.entries x = none
  · left
    rw [roundScope_of_none h hnone] at hsome
    obtain ⟨p, hp⟩ := Option.isSome_iff_exists.mp hsome
    rw [erasure_of_some ((roundScope_of_none h hnone).trans hp)]
    exact .of_outer houter hnone hp
  · by_cases hx : x ∈ seen
    · left
      obtain ⟨z, hz⟩ := erasure_of_cycle hwf hu h (hseen.leads x hx)
      rw [hz]
      exact .cycle ⟨x, .refl x, hseen.leads x hx⟩
    · exact Or.inr ⟨hx, exists_firstBound hwf hu hnone⟩

/-- **Enough rounds.** A round for each declaration that was not seen yet is enough for a
name to erase as the walk from it says. -/
theorem explains_of_round (h : Round declared outer k resolved)
    (hsome : (roundScope outer resolved x).isSome) {seen : List String}
    (hseen : Seen declared.entries x seen) (henough : declared.entries.length ≤ k + seen.length) :
    Explains declared.entries outer 0 (.name x) ((roundScope outer resolved).erasure x) := by
  induction h generalizing x seen with
  | start =>
      rcases explains_or_bound hwf hu houter .start hsome hseen with hends | ⟨hx, r, hbound⟩
      · exact hends
      · have hlt : seen.length < declared.entries.length :=
          hseen.length_lt hx (mem_names_of_firstBound hbound)
        omega
  | @next k resolved next h hnext ih =>
      rcases explains_or_bound hwf hu houter (h.next hnext) hsome hseen with
        hends | ⟨hx, r, hbound⟩
      · exact hends
      · have hnamed := namedType_of_firstBound hwf hu hbound
        refine .of_bound hbound ?_
        rw [erasure_next hbound hnamed hnext]
        refine explains_type hwf hu houter hnamed fun y hstop => ?_
        obtain ⟨r', hr', -⟩ := bound_next hbound hnext
        have hy := hnamed.isSome_of_bind (run_map_eq_ok.mpr ⟨r', hr', rfl⟩) hstop
        -- One round fewer is left, and one more name was seen.
        refine ih hy (hseen.step hx ⟨r, hbound, hstop⟩) ?_
        rw [List.length_cons]
        omega

/-- After as many rounds as there are declarations every type erases as the walk says. -/
theorem explains_of_bind (h : Round declared outer declared.entries.length resolved)
    {t t' : TypeTree Unit .typeSignature} (ht : NamedType t)
    (hbind : (t.bind (roundScope outer resolved) : ExceptT TypeError Id _).run = .ok t') :
    Explains declared.entries outer t.dimensions t.stop t'.typeErasure := by
  rw [ht.erasure_of_bind hbind]
  refine explains_type hwf hu houter ht fun y hstop => ?_
  exact explains_of_round hwf hu houter h (ht.isSome_of_bind hbind hstop) (.nil _ _)
    (Nat.le_add_right _ _)

end

end TypeTree

namespace Explains

open TypeTree

variable {ps : List (TypeTree Unit .typeParameter)} {outer : Scope Unit}
  {t : TypeTree Unit .typeSignature} {r : Except TypeError (TypeTree Unit .typeDescriptor)}

theorem ok_iff (h : Explains ps outer t.dimensions t.stop r) :
    (∃ u, r = .ok u) ↔ WalkSucceeds ps outer t := by
  constructor
  · rintro ⟨u, rfl⟩
    cases h with
    | descriptor h hle => exact h.succeeds hle
  · intro hsucceeds
    cases h with
    | descriptor h hle => exact ⟨_, rfl⟩
    | tooMany h hlt => exact absurd (hsucceeds.dimensions _ _ h) (by omega)
    | outer hmeets hnone houter herase =>
        obtain ⟨e, he⟩ := hsucceeds.outside _ _ hmeets hnone houter
        exact nomatch herase.symm.trans he
    | cycle h => exact absurd h hsucceeds.acyclic

theorem walksTo {u : TypeTree Unit .typeDescriptor}
    (h : Explains ps outer t.dimensions t.stop (.ok u)) : WalksTo ps outer t u := by
  cases h with
  | descriptor h hle => exact ⟨_, _, h, rfl⟩

theorem error_of_cyclic (h : Explains ps outer t.dimensions t.stop r)
    (hcyclic : Cyclic ps t.stop) : ∃ x, r = .error (.unresolved x) := by
  cases h with
  | descriptor h hle => exact absurd hcyclic h.not_cyclic
  | tooMany h hlt => exact absurd hcyclic h.not_cyclic
  | outer hmeets hnone houter herase => exact absurd hcyclic (not_cyclic_of_none hmeets hnone)
  | @cycle x h => exact ⟨x, rfl⟩

end Explains

end ClassfileTypes
