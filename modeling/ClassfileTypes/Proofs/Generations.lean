import ClassfileTypes.Proofs.Completion

/-!
# A round for each declaration is enough

Declarations are bound again and again, each time against the generation before. What a
parameter is bound to in a generation is settled once everything is that its bounds name.
If the parameters do not depend on each other in a circle, a chain of dependencies has at
most as many members as there are parameters, and so has the last generation what any later
one has; and all variables in it have their declarations, at every depth.
-/

namespace ClassfileTypes

namespace TypeTree

/-! ## Dependencies -/

section

variable {ι : Type}

/-- A bound of a parameter names another one. The first one of a name is meant. -/
def RefersTo (ps : List (TypeTree ι .typeParameter)) (i j : Nat) : Prop :=
  ∃ d ∈ ps[i]?, ∃ x ∈ d.freeNames, ps.findIdx? (·.name = x) = some j

instance (ps : List (TypeTree ι .typeParameter)) (i j : Nat) : Decidable (RefersTo ps i j) :=
  inferInstanceAs (Decidable (∃ d ∈ ps[i]?, ∃ x ∈ d.freeNames,
    ps.findIdx? (·.name = x) = some j))

/-- No parameter depends on itself through others. -/
def Acyclic (ps : List (TypeTree ι .typeParameter)) : Prop :=
  ∀ i, ¬ Relation.TransGen (RefersTo ps) i i

variable {ps : List (TypeTree ι .typeParameter)} {i j : Nat}

theorem RefersTo.lt_length (h : RefersTo ps i j) : i < ps.length ∧ j < ps.length := by
  obtain ⟨d, hi, x, -, hj⟩ := h
  obtain ⟨hlt, -⟩ := List.findIdx?_eq_some_iff_getElem.mp hj
  exact ⟨(List.getElem?_eq_some_iff.mp hi).1, hlt⟩

/-- Dependencies that lead from lower to higher ranks do not lead back. -/
theorem Acyclic.of_rank (rank : Nat → Nat)
    (h : ∀ i < ps.length, ∀ j < ps.length, RefersTo ps i j → rank i < rank j) :
    Acyclic ps := by
  have hlt : ∀ i j, Relation.TransGen (RefersTo ps) i j → rank i < rank j := by
    intro i j hij
    induction hij with
    | single hij => exact h _ hij.lt_length.1 _ hij.lt_length.2 hij
    | tail _ hij ih => exact ih.trans (h _ hij.lt_length.1 _ hij.lt_length.2 hij)
  exact fun i hi => Nat.lt_irrefl _ (hlt i i hi)

/-- Parameters that depend on another one, each once. -/
structure Dependents (ps : List (TypeTree ι .typeParameter)) (i : Nat) (seen : List Nat) :
    Prop where
  nodup : seen.Nodup
  depend : ∀ j ∈ seen, Relation.TransGen (RefersTo ps) j i

theorem Dependents.nil (ps : List (TypeTree ι .typeParameter)) (i : Nat) : Dependents ps i [] :=
  ⟨List.nodup_nil, fun _ hj => absurd hj List.not_mem_nil⟩

theorem Dependents.step {seen : List Nat} (h : Dependents ps i seen) (hacyclic : Acyclic ps)
    (hrefers : RefersTo ps i j) : Dependents ps j (i :: seen) where
  nodup := List.nodup_cons.mpr ⟨fun hi => hacyclic i (h.depend i hi), h.nodup⟩
  depend := List.forall_mem_cons.mpr
    ⟨.single hrefers, fun j hj => (h.depend j hj).tail hrefers⟩

/-- There are fewer of them than parameters. -/
theorem Dependents.length_lt {seen : List Nat} (h : Dependents ps i seen)
    (hacyclic : Acyclic ps) (hi : i < ps.length) : seen.length < ps.length := by
  have hnodup : (i :: seen).Nodup :=
    List.nodup_cons.mpr ⟨fun hmem => hacyclic i (h.depend i hmem), h.nodup⟩
  have hsub : (i :: seen) ⊆ List.range ps.length := by
    refine List.cons_subset.mpr ⟨List.mem_range.mpr hi, fun j hj => List.mem_range.mpr ?_⟩
    obtain ⟨k, hrefers, -⟩ := Relation.TransGen.head'_iff.mp (h.depend j hj)
    exact hrefers.lt_length.1
  have hle := (List.subperm_of_subset hnodup hsub).length_le
  rwa [List.length_range] at hle

/-- **As many rounds as parameters.** What holds of a parameter one round after it holds of
all that the parameter depends on, holds after as many rounds as there are parameters. -/
theorem Acyclic.holds (hacyclic : Acyclic ps) {C : Nat → Nat → Prop}
    (hround : ∀ k i, i < ps.length → (∀ j, RefersTo ps i j → C k j) → C (k + 1) i)
    (hi : i < ps.length) : C ps.length i := by
  have hseen : ∀ k i seen, Dependents ps i seen → i < ps.length →
      ps.length ≤ k + seen.length → C k i := by
    intro k
    induction k with
    | zero =>
        intro i seen h hi hle
        have hlt := h.length_lt hacyclic hi
        omega
    | succ k ih =>
        intro i seen h hi hle
        refine hround k i hi fun j hrefers => ?_
        -- One round fewer is left, and one more parameter was seen.
        refine ih j (i :: seen) (h.step hacyclic hrefers) hrefers.lt_length.2 ?_
        rw [List.length_cons]
        omega
  exact hseen ps.length i [] (.nil ps i) hi (Nat.le_refl _)

end

/-! ## Generations -/

section

variable {declared resolved : TypeTree Unit (.list .typeParameter)} {outer : Scope Unit}
  {s : Scope Unit} {k i j : Nat} {x : String} {f : Form}

theorem members_substitute (xs : TypeTree Unit (.list f)) :
    (xs.substitute s).members = xs.members.map (substitute s) := by
  match xs with
  | .nil => rfl
  | .cons y ys => exact congrArg (y.substitute s :: ·) (members_substitute ys)

theorem eq_of_members (xs ys : TypeTree Unit (.list f)) (h : xs.members = ys.members) :
    xs = ys := by
  match xs, ys with
  | .nil, .nil => rfl
  | .nil, .cons y ys => exact nomatch h
  | .cons x xs, .nil => exact nomatch h
  | .cons x xs, .cons y ys =>
      obtain ⟨rfl, hmembers⟩ := List.cons.inj h
      rw [eq_of_members xs ys hmembers]

/-- The declarations after so many rounds. -/
def generation (declared : TypeTree Unit (.list .typeParameter)) (outer : Scope Unit) :
    Nat → TypeTree Unit (.list .typeParameter)
  | 0 => declared
  | k + 1 => declared.substitute (roundScope outer (generation declared outer k))

/-- The scope for the next round. -/
def scopeAfter (declared : TypeTree Unit (.list .typeParameter)) (outer : Scope Unit)
    (k : Nat) : Scope Unit :=
  roundScope outer (generation declared outer k)

theorem Round.eq_generation (h : Round declared outer k resolved) :
    resolved = generation declared outer k := by
  induction h with
  | start => rfl
  | next h hnext ih =>
      obtain ⟨rfl, -⟩ := substitute_of_bind hnext
      rw [generation, ← ih]
      rfl

theorem names_generation (declared : TypeTree Unit (.list .typeParameter)) (outer : Scope Unit)
    (k : Nat) : (generation declared outer k).members.map name = declared.members.map name := by
  cases k with
  | zero => rfl
  | succ k =>
      rw [generation, members_substitute, List.map_map]
      exact List.map_congr_left fun d _ => name_substitute d

theorem length_generation (declared : TypeTree Unit (.list .typeParameter)) (outer : Scope Unit)
    (k : Nat) : (generation declared outer k).members.length = declared.members.length := by
  have h := congrArg List.length (names_generation declared outer k)
  rwa [List.length_map, List.length_map] at h

theorem getElem?_generation (declared : TypeTree Unit (.list .typeParameter))
    (outer : Scope Unit) (k i : Nat) :
    (generation declared outer (k + 1)).members[i]? =
      declared.members[i]?.map (substitute (scopeAfter declared outer k)) := by
  rw [generation, members_substitute, List.getElem?_map]
  rfl

theorem findIdx?_name_eq_none_iff {ps : List (TypeTree Unit .typeParameter)} :
    ps.findIdx? (·.name = x) = none ↔ x ∉ ps.map name := by
  simp [List.findIdx?_eq_none_iff]

/-- Lists with the same names have a name in the same place. -/
theorem find?_eq_getElem? {ps qs : List (TypeTree Unit .typeParameter)}
    (hnames : qs.map name = ps.map name) (x : String) :
    qs.find? (·.name = x) = (ps.findIdx? (·.name = x)).bind (qs[·]?) := by
  have hidx : ∀ ds : List (TypeTree Unit .typeParameter),
      ds.findIdx? (·.name = x) = (ds.map name).findIdx? (· = x) := by
    intro ds
    rw [List.findIdx?_map]
    rfl
  rw [List.find?_eq_bind_findIdx?_getElem?, hidx, hidx, hnames]

/-- A name that is declared has what the generation has in its place. -/
theorem scopeAfter_of_declared (h : declared.members.findIdx? (·.name = x) = some j) :
    scopeAfter declared outer k x = (generation declared outer k).members[j]? := by
  have hfind := find?_eq_getElem? (names_generation declared outer k) x
  rw [h] at hfind
  have hlt : j < (generation declared outer k).members.length := by
    rw [length_generation]
    exact (List.findIdx?_eq_some_iff_getElem.mp h).1
  have hget := List.getElem?_eq_getElem hlt
  exact (roundScope_of_some (hfind.trans hget)).trans hget.symm

/-- Any other name is looked up outside. -/
theorem scopeAfter_of_not_declared (h : declared.members.findIdx? (·.name = x) = none) :
    scopeAfter declared outer k x = outer x := by
  have hfind := find?_eq_getElem? (names_generation declared outer k) x
  rw [h] at hfind
  show ((generation declared outer k).members.find? (·.name = x) <|> outer x) = outer x
  rw [hfind]
  rfl

theorem isSome_scopeAfter (h : x ∉ declared.members.map name → (outer x).isSome) :
    (scopeAfter declared outer k x).isSome := by
  cases hidx : declared.members.findIdx? (·.name = x) with
  | none =>
      rw [scopeAfter_of_not_declared hidx]
      exact h (findIdx?_name_eq_none_iff.mp hidx)
  | some j =>
      rw [scopeAfter_of_declared hidx]
      have hlt := (List.findIdx?_eq_some_iff_getElem.mp hidx).1
      rw [← length_generation declared outer k] at hlt
      exact Option.isSome_iff_exists.mpr ⟨_, List.getElem?_eq_getElem hlt⟩

/-- **The last generation is the last one.** A round after it changes nothing. -/
theorem generation_succ (hacyclic : Acyclic declared.members) :
    generation declared outer (declared.members.length + 1) =
      generation declared outer declared.members.length := by
  refine eq_of_members _ _ (List.ext_getElem? fun i => ?_)
  by_cases hi : i < declared.members.length
  · refine hacyclic.holds (C := fun k i => (generation declared outer (k + 1)).members[i]? =
      (generation declared outer k).members[i]?) ?_ hi
    intro k i hi hsettled
    have hget := List.getElem?_eq_getElem hi
    -- Both rounds bind the same bounds, and so only the names in them can differ.
    rw [getElem?_generation, getElem?_generation, hget]
    refine congrArg some (substitute_congr fun x hx => ?_)
    cases hidx : declared.members.findIdx? (·.name = x) with
    | none => rw [scopeAfter_of_not_declared hidx, scopeAfter_of_not_declared hidx]
    | some j =>
        rw [scopeAfter_of_declared hidx, scopeAfter_of_declared hidx]
        exact hsettled j ⟨_, hget, x, hx, hidx⟩
  · have hnone : ∀ k, (generation declared outer k).members[i]? = none := by
      intro k
      rw [List.getElem?_eq_none_iff, length_generation]
      exact Nat.le_of_not_lt hi
    rw [hnone, hnone]

/-- The first of two parameters needs both rounds. -/
example :
    let parameter (x : String) (r : TypeTree Unit .referenceType) :=
      TypeTree.typeParameter () x (.boundedBy r) .nil
    let declared : TypeTree Unit (.list .typeParameter) :=
      .cons (parameter "T" (.refVariable (.freeVariable () "U")))
        (.cons (parameter "U" (.refVariable (.freeVariable () "E"))) .nil)
    let outer := Scope.ofParameters [parameter "E" (.refVariable (.freeVariable () "F"))]
    generation declared outer 1 ≠ generation declared outer 2 := by
  decide +kernel

end

/-! ## Variables without declarations -/

section

variable {ι : Type} {f : Form}

/-- A variable in the tree has the declaration. Declarations of variables are not part of
the tree. -/
inductive Carries : {f : Form} → TypeTree ι f → TypeTree ι .typeParameter → Prop
  | variable (i : ι) (d : TypeTree ι .typeParameter) : Carries (.boundVariable i d) d
  | part {f : Form} {t : TypeTree ι f} {v : AnyTree ι} {d : TypeTree ι .typeParameter}
      (hf : f ≠ .typeVariable) (hv : v ∈ t.parts) (h : Carries v.2 d) : Carries t d

/-- A variable without a declaration occurs at some depth: in the tree, or in the
declaration of a variable, unless that is exempt. -/
inductive Exposes (exempt : TypeTree ι .typeParameter → Prop) :
    {f : Form} → TypeTree ι f → String → Prop
  | free (i : ι) (x : String) : Exposes exempt (.freeVariable i x) x
  | declaration {i : ι} {d : TypeTree ι .typeParameter} {x : String} (hd : ¬ exempt d)
      (h : Exposes exempt d x) : Exposes exempt (.boundVariable i d) x
  | part {f : Form} {t : TypeTree ι f} {v : AnyTree ι} {x : String} (hf : f ≠ .typeVariable)
      (hv : v ∈ t.parts) (h : Exposes exempt v.2 x) : Exposes exempt t x

/-- The declarations from outside, and those that variables had before. -/
inductive Exempt (declared : TypeTree ι (.list .typeParameter)) (outer : Scope ι) :
    TypeTree ι .typeParameter → Prop
  | outer {x : String} {d : TypeTree ι .typeParameter} (hx : x ∈ declared.freeNames)
      (hnone : x ∉ declared.members.map name) (hd : outer x = some d) : Exempt declared outer d
  | carried {d : TypeTree ι .typeParameter} (h : declared.Carries d) : Exempt declared outer d

/-- Descriptors have no variables. -/
theorem freeNames_of_isDescriptor (hf : f.isDescriptor = true) (t : TypeTree ι f) :
    t.freeNames = [] := by
  cases t <;> first | rfl | exact nomatch hf

theorem freeNames_of_isDescriptor_list (hf : f.isDescriptor = true) (xs : TypeTree ι (.list f)) :
    xs.freeNames = [] := by
  match xs with
  | .nil => rfl
  | .cons y ys =>
      exact List.append_eq_nil_iff.mpr
        ⟨freeNames_of_isDescriptor hf y, freeNames_of_isDescriptor_list hf ys⟩

theorem freeNames_of_mem_parts (hf : f ≠ .typeVariable) {t : TypeTree ι f} {v : AnyTree ι}
    (hv : v ∈ t.parts) : v.2.freeNames ⊆ t.freeNames := by
  cases t with
  | boundVariable i d => exact absurd rfl hf
  | methodDescriptor i ps r =>
      have hps := freeNames_of_isDescriptor_list rfl ps
      have hr := freeNames_of_isDescriptor rfl r
      simp only [parts, List.mem_cons, List.not_mem_nil, or_false] at hv
      rcases hv with rfl | rfl <;> simp [hps, hr]
  | arrayDescriptor i d r | descClass r | descArray r =>
      have hr := freeNames_of_isDescriptor rfl r
      simp only [parts, List.mem_cons, List.not_mem_nil, or_false] at hv
      obtain rfl := hv
      simp [hr]
  | _ => grind [parts, freeNames]

theorem Exposes.exists_part {exempt : TypeTree ι .typeParameter → Prop} {x : String}
    (hf : f ≠ .typeVariable) {t : TypeTree ι f} (h : Exposes exempt t x) :
    ∃ v ∈ t.parts, Exposes exempt v.2 x := by
  cases h with
  | free i x => exact absurd rfl hf
  | declaration hd h => exact absurd rfl hf
  | part _ hv h => exact ⟨_, hv, h⟩

/-- What a list exposes, one of its trees does. -/
theorem Exposes.exists_member {exempt : TypeTree ι .typeParameter → Prop} {x : String}
    (xs : TypeTree ι (.list f)) (h : Exposes exempt xs x) :
    ∃ t ∈ xs.members, Exposes exempt t x := by
  obtain ⟨v, hv, hpart⟩ := h.exists_part Form.noConfusion
  match xs with
  | .nil => exact absurd hv List.not_mem_nil
  | .cons y ys =>
      rcases List.mem_cons.mp hv with rfl | hv
      · exact ⟨y, List.mem_cons_self, hpart⟩
      · obtain rfl := List.mem_singleton.mp hv
        obtain ⟨t, ht, htree⟩ := Exposes.exists_member ys hpart
        exact ⟨t, List.mem_cons_of_mem _ ht, htree⟩

/-- A list carries what one of its trees carries. -/
theorem Carries.of_mem_members {d : TypeTree ι .typeParameter} (xs : TypeTree ι (.list f))
    {t : TypeTree ι f} (ht : t ∈ xs.members) (h : t.Carries d) : xs.Carries d := by
  match xs with
  | .nil => exact absurd ht List.not_mem_nil
  | .cons y ys =>
      rcases List.mem_cons.mp ht with rfl | ht
      · exact .part nofun List.mem_cons_self h
      · exact .part nofun (List.mem_cons_of_mem _ List.mem_cons_self)
          (Carries.of_mem_members ys ht h)

end

section

variable {declared resolved : TypeTree Unit (.list .typeParameter)} {outer s : Scope Unit}
  {exempt : TypeTree Unit .typeParameter → Prop} {f : Form} {x : String}

theorem Exposes.mono {exempt' : TypeTree Unit .typeParameter → Prop} {t : TypeTree Unit f}
    (himp : ∀ d, exempt' d → exempt d) (h : Exposes exempt t x) : Exposes exempt' t x := by
  induction h with
  | free i x => exact .free i x
  | declaration hd h ih => exact .declaration (fun hd' => hd (himp _ hd')) ih
  | part hf hv h ih => exact .part hf hv ih

/-- Substitution does not change what a tree is made of. -/
theorem parts_substitute (hf : f ≠ .typeVariable) (t : TypeTree Unit f) :
    (t.substitute s).parts = t.parts.map fun v => ⟨v.1, v.2.substitute s⟩ := by
  cases t with
  | boundVariable i d | freeVariable i n => exact absurd rfl hf
  | methodDescriptor i ps r =>
      have hps := substitute_of_freeNames (s := s) (freeNames_of_isDescriptor_list rfl ps)
      have hr := substitute_of_freeNames (s := s) (freeNames_of_isDescriptor rfl r)
      simp [substitute, parts, hps, hr]
  | arrayDescriptor i d r | descClass r | descArray r =>
      have hr := substitute_of_freeNames (s := s) (freeNames_of_isDescriptor rfl r)
      simp [substitute, parts, hr]
  | _ => rfl

/-- **What substitution exposes** comes from a declaration in the scope, if the scope has all
names and the declarations that variables had before are exempt. -/
theorem Exposes.of_substitute {t : TypeTree Unit f} (hnames : ∀ y ∈ t.freeNames, (s y).isSome)
    (hcarried : ∀ d, t.Carries d → exempt d) (h : Exposes exempt (t.substitute s) x) :
    ∃ y ∈ t.freeNames, ∃ d, s y = some d ∧ ¬ exempt d ∧ Exposes exempt d x := by
  induction t using partsInduction with
  | @step f t ih =>
      by_cases hf : f = .typeVariable
      · subst hf
        cases t with
        | freeVariable i n =>
            obtain ⟨d, hd⟩ := Option.isSome_iff_exists.mp (hnames n (List.mem_singleton.mpr rfl))
            rw [substitute, hd] at h
            cases h with
            | declaration hexempt h =>
                exact ⟨n, List.mem_singleton.mpr rfl, d, hd, hexempt, h⟩
            | part hf => exact absurd rfl hf
        | boundVariable i d =>
            cases h with
            | declaration hexempt h => exact absurd (hcarried d (.variable i d)) hexempt
            | part hf => exact absurd rfl hf
      · obtain ⟨w, hw, hpart⟩ := h.exists_part hf
        rw [parts_substitute hf] at hw
        obtain ⟨v, hv, rfl⟩ := List.mem_map.mp hw
        have hsub := freeNames_of_mem_parts hf hv
        obtain ⟨y, hy, hdeclaration⟩ := ih v hv (fun y hy => hnames y (hsub hy))
          (fun d hd => hcarried d (.part hf hv hd)) hpart
        exact ⟨y, hsub hy, hdeclaration⟩

/-- **No variable is exposed in the last generation**, as long as all names can be resolved
and what comes from outside or was bound before is exempt. -/
theorem not_exposes_generation (hacyclic : Acyclic declared.members)
    (hnames : ∀ y ∈ declared.freeNames, y ∉ declared.members.map name → (outer y).isSome) :
    ¬ Exposes (Exempt declared outer) (generation declared outer declared.members.length) x := by
  intro h
  obtain ⟨t, ht, h⟩ := h.exists_member
  obtain ⟨i, hi⟩ := List.mem_iff_getElem?.mp ht
  refine hacyclic.holds (i := i) (C := fun k i => ∀ d,
    (generation declared outer k).members[i]? = some d →
      ¬ Exposes (Exempt declared outer) d x) ?_ ?_ t hi h
  · intro k i hi hsettled d hd h
    have hget := List.getElem?_eq_getElem hi
    have hmem : declared.members[i] ∈ declared.members := List.getElem_mem hi
    have hsub := freeNames_of_mem_members declared hmem
    have hscope : ∀ y ∈ declared.members[i].freeNames, (scopeAfter declared outer k y).isSome :=
      fun y hy => isSome_scopeAfter (hnames y (hsub hy))
    have hcarried : ∀ d, declared.members[i].Carries d → Exempt declared outer d :=
      fun d hd => .carried (Carries.of_mem_members declared hmem hd)
    rw [getElem?_generation, hget] at hd
    obtain rfl := Option.some.inj hd
    -- The declaration that exposes the variable is the one that a bound refers to.
    obtain ⟨y, hy, d, hd, hexempt, h⟩ := h.of_substitute hscope hcarried
    cases hidx : declared.members.findIdx? (·.name = y) with
    | none =>
        rw [scopeAfter_of_not_declared hidx] at hd
        exact hexempt (.outer (hsub hy) (findIdx?_name_eq_none_iff.mp hidx) hd)
    | some j =>
        rw [scopeAfter_of_declared hidx] at hd
        exact hsettled j ⟨_, hget, y, hy, hidx⟩ d hd h
  · rw [← length_generation declared outer declared.members.length]
    exact (List.getElem?_eq_some_iff.mp hi).1

end

section

variable {declared resolved : TypeTree Unit (.list .typeParameter)} {outer : Scope Unit}

theorem eq_generation_of_resolve (h : (resolve declared outer : ExceptT TypeError Id _).run =
    .ok resolved) : resolved = generation declared outer declared.members.length :=
  (Round.of_resolve h).eq_generation

theorem isSome_of_resolve (hwf : declared.WellFormed)
    (h : (resolve declared outer : ExceptT TypeError Id _).run = .ok resolved) :
    ∀ x ∈ declared.freeNames, x ∉ declared.members.map name → (outer x).isSome := by
  intro x hx hnone
  have hresolves := (resolves_resolve hwf).ok_iff.mp ⟨resolved, h⟩ x hx
  simpa [show declared.entries.map name = declared.members.map name from rfl, hnone]
    using hresolves

/-- **What is resolved** is resolved to itself, and exposes no variable. -/
theorem resolved_of_resolve (hwf : declared.WellFormed) (hacyclic : Acyclic declared.members)
    (h : (resolve declared outer : ExceptT TypeError Id _).run = .ok resolved) :
    (declared.bind ((Scope.ofParameters resolved.members).within outer) :
      ExceptT TypeError Id _).run = .ok resolved ∧
    ∀ x, ¬ Exposes (Exempt declared outer) resolved x := by
  have hnames := isSome_of_resolve hwf h
  obtain rfl := eq_generation_of_resolve h
  refine ⟨?_, fun x => not_exposes_generation hacyclic hnames⟩
  refine (run_bind hwf fun x hx => isSome_scopeAfter (hnames x hx)).trans ?_
  exact congrArg Except.ok (generation_succ hacyclic)

end

end TypeTree

/-! ## In sessions -/

namespace Session

open Pool TypeTree

theorem refersTo_plain {ps : List (TypeTree Nat .typeParameter)} {i j : Nat} :
    RefersTo (ps.map plain) i j ↔ RefersTo ps i j := by
  simp [RefersTo, List.findIdx?_map, Function.comp_def, TypeTree.plain]

/-- Tags do not matter for dependencies. -/
theorem acyclic_plain {declared : TypeTree Nat (.list .typeParameter)}
    (h : Acyclic declared.members) : Acyclic declared.plain.members := by
  have hmembers : declared.plain.members = declared.members.map plain := entries_mapTags _ declared
  have hrefers : RefersTo (declared.members.map plain) = RefersTo declared.members :=
    funext fun i => funext fun j => propext refersTo_plain
  rw [hmembers]
  unfold Acyclic
  rw [hrefers]
  exact h

/-- What is exempt comes from the names that are asked for. -/
theorem exempt_only {declared : TypeTree Nat (.list .typeParameter)} {b : Scope Nat}
    {d : TypeTree Unit .typeParameter}
    (h : Exempt declared.plain (b.only declared.unboundNames).plain d) :
    Exempt declared.plain b.plain d := by
  cases h with
  | @outer x d hx hnone hd =>
      refine .outer hx hnone (Eq.trans ?_ hd)
      rw [freeNames_plain] at hx
      exact congrArg (Option.map plain) (Scope.eq_only b declared x hx)
  | carried h => exact .carried h

/-- **A round for each declaration is enough.** In every session, if declarations are resolved
against an outer scope and do not depend on each other in a circle, then binding them once
more, against what they are resolved to and then the outer scope, gives the same again. And no
variable is without its declaration there, at any depth, except in declarations from outside and
in those that variables had before. Without a pool that is so for every outer scope: it may make
its declarations when it is asked for them. -/
theorem resolved_of_acyclic (c : Intern.Config) (steps : List Step) :
    (∀ (b : Scope Nat) (declared : TypeTree Nat (.list .typeParameter)),
      Acyclic declared.members →
      let s := (start c).after steps
      s.HoldsFor declared b →
        ∀ (resolved : TypeTree Nat (.list .typeParameter)) (q : Pool),
          (resolve declared b : ExceptT TypeError PoolM _).run s.pool = (.ok resolved, q) →
          ((declared.bind ((Scope.ofParameters resolved.members).within b) :
            ExceptT TypeError PoolM _).run (q.hold resolved)).1.map plain =
              .ok resolved.plain ∧
          ∀ x, ¬ Exposes (Exempt declared.plain b.plain) resolved.plain x) ∧
    ∀ (b : Scope Unit) (declared : TypeTree Unit (.list .typeParameter)),
      Acyclic declared.members → declared.WellFormed →
        ∀ resolved : TypeTree Unit (.list .typeParameter),
          (resolve declared b : ExceptT TypeError Id _).run = .ok resolved →
          (declared.bind ((Scope.ofParameters resolved.members).within b) :
            ExceptT TypeError Id _).run = .ok resolved ∧
          ∀ x, ¬ Exposes (Exempt declared b) resolved x := by
  refine ⟨fun b declared hacyclic => ?_,
    fun b declared hacyclic hwf resolved => resolved_of_resolve hwf hacyclic⟩
  intro s h resolved q hrun
  have hs : s.Valid False := valid_after_start c steps
  have htree := hs.holds_tree h.tree
  have hscope := h.holdsScope hs
  have hwf := h.wellFormed_plain hs
  obtain ⟨hsound, hext, hgood, hplain⟩ := (h.refines_resolve hs).of_ok hs.sound hrun
  obtain ⟨hagain, hexposes⟩ := resolved_of_resolve hwf (acyclic_plain hacyclic) hplain
  constructor
  · rw [bind_within_congr (Scope.eq_only b declared)]
    have hround : HoldsScope False (q.hold resolved) _ _ :=
      .ofDeclarations hgood.holds_hold rfl (hscope.mono hext).hold
    have hrefines := refines_bind (hext.holds htree).hold hround
    exact (hrefines.map_plain (hgood.sound_hold hsound)).trans hagain
  · exact fun x hx => hexposes x (hx.mono fun d => exempt_only)

/-- The second parameter is bounded by one from outside, whose own bound is not known. The
third one has the name of the first, and is not meant by it. The last outer scope makes the
declaration. -/
theorem resolved_of_acyclic_chain :
    let steps : List Step := [
      .value (.typeParameter .checked "E" (some (.freeVariable .checked "F")) []) (some "e"),
      .value (.typeParameter .checked "T" (some (.freeVariable .checked "U")) []) (some "t"),
      .value (.typeParameter .checked "U" (some (.freeVariable .checked "E")) []) (some "u"),
      .value (.typeParameter .checked "T" (some (.freeVariable .checked "T")) []) (some "v")]
    let p := ((start {}).after steps).pool
    let parameter (i j : Nat) (x y : String) : TypeTree Nat .typeParameter :=
      .typeParameter i x (.boundedBy (.refVariable (.freeVariable j y))) .nil
    let b : Scope Nat := Scope.ofParameters [parameter 1 0 "E" "F"]
    let declared : TypeTree Nat (.list .typeParameter) :=
      .cons (parameter 3 2 "T" "U") (.cons (parameter 5 4 "U" "E")
        (.cons (parameter 7 6 "T" "T") .nil))
    Acyclic declared.members ∧ ((start {}).after steps).HoldsFor declared b ∧
      (∃ resolved q,
        (resolve declared b : ExceptT TypeError PoolM _).run p = (.ok resolved, q) ∧
        ((declared.bind ((Scope.ofParameters resolved.members).within b) :
          ExceptT TypeError PoolM _).run (q.hold resolved)).1.map plain = .ok resolved.plain ∧
        ∀ x, ¬ Exposes (Exempt declared.plain b.plain) resolved.plain x) ∧
      ∃ resolved, (resolve declared.plain .onDemand : ExceptT TypeError Id _).run = .ok resolved ∧
        ∀ x, ¬ Exposes (Exempt declared.plain .onDemand) resolved x := by
  intro steps p parameter b declared
  have hacyclic : Acyclic declared.members :=
    .of_rank (fun i => [1, 2, 0].getD i 0) (by decide)
  have hheld : ((start {}).after steps).HoldsFor declared b := by decide +kernel
  obtain ⟨hsession, hplain⟩ := resolved_of_acyclic {} steps
  obtain ⟨resolved, q, hrun⟩ := exists_of_isOk
    (show ((resolve declared b : ExceptT TypeError PoolM _).run p).1.isOk = true by
      decide +kernel)
  obtain ⟨hagain, hexposes⟩ := hsession b declared hacyclic hheld resolved q hrun
  have hwf : declared.plain.WellFormed := hheld.wellFormed_plain (valid_after_start {} steps)
  obtain ⟨made, hmade⟩ : ∃ made,
      (resolve declared.plain .onDemand : ExceptT TypeError Id _).run = .ok made := ⟨_, rfl⟩
  have hrest := hplain .onDemand declared.plain (acyclic_plain hacyclic) hwf made hmade
  exact ⟨hacyclic, hheld, ⟨resolved, q, hrun, hagain, hexposes⟩, made, hmade, hrest.2⟩

end Session

end ClassfileTypes
