import ClassfileTypes.Proofs.Sessions
import ClassfileTypes.Proofs.StrictSteps

/-!
# The trees of every session

Whatever a session does, and whether or not its pool is on, every tree that occurs in it
follows the rules of its kind: in a register, in an answer, in a table of the pool,
whether alive or dead, and below any of these, declarations of variables included. The
rules are stated here tree by tree and in terms of the characters of names. And no tree
is ever asked for that the checked construction of its kind would refuse: with a strict
pool a step shows what it shows in the session.
-/

namespace ClassfileTypes

/-! ## Names, character by character -/

namespace Name

/-- A class name: not empty, no delimiter and no dot in it, and no empty segment between
slashes or at either end. -/
structure OfClass (n : String) : Prop where
  nonempty : n ≠ ""
  clean : ∀ c ∈ n.toList, c ∉ [';', '<', '>', '[', '.']
  segments : [] ∉ n.toList.splitOn '/'

/-- The name of a nested class, of a variable or of a type parameter: not empty, and no
delimiter and no separator in it. -/
structure OfSegment (n : String) : Prop where
  nonempty : n ≠ ""
  clean : ∀ c ∈ n.toList, c ∉ [';', '<', '>', '[', '/', '.', ':']

/-- Where no segment begins, the characters up to the next slash belong to one that is
not empty. -/
theorem hasEmptySegment_iff (cs : List Char) :
    (hasEmptySegment true cs = true ↔ [] ∈ cs.splitOn '/') ∧
      (hasEmptySegment false cs = true ↔ [] ∈ (cs.splitOn '/').tail) := by
  induction cs with
  | nil => decide
  | cons c cs ih =>
      rw [hasEmptySegment, hasEmptySegment, List.splitOn_cons_eq_if_modifyHead]
      split_ifs with hc
      · exact ⟨by simp, by simpa using ih.1⟩
      · obtain ⟨s, ss, hsplit⟩ := List.exists_cons_of_ne_nil (List.splitOn_ne_nil '/' cs)
        rw [hsplit] at ih ⊢
        exact ⟨by simpa using ih.2, by simpa using ih.2⟩

theorem IsClassName.ofClass {n : String} (h : IsClassName n) : OfClass n where
  nonempty := by
    rintro rfl
    exact h.nonempty rfl
  clean c hc := by
    obtain ⟨hdelimiter, hdot⟩ := h.clean c hc
    simpa [isDelimiter, hdot, and_assoc] using hdelimiter
  segments hempty := by
    have hsegments := (hasEmptySegment_iff n.toList).1.mpr hempty
    rw [h.segments] at hsegments
    exact Bool.false_ne_true hsegments

theorem IsSimpleName.ofSegment {n : String} (h : IsSimpleName n) : OfSegment n where
  nonempty := by
    rintro rfl
    exact h.nonempty rfl
  clean c hc := by
    obtain ⟨hdelimiter, hseparator⟩ := h.clean c hc
    simp only [isDelimiter, Bool.or_eq_false_iff, beq_eq_false_iff_ne] at hdelimiter
    simp only [isSeparator, Bool.or_eq_false_iff, beq_eq_false_iff_ne] at hseparator
    simp [hdelimiter, hseparator]

end Name

/-! ## Trees, one by one -/

namespace TypeTree

variable {ι : Type} {f : Form}

/-- The rules for a tree itself, apart from the trees below it. -/
def FollowsRules : {f : Form} → TypeTree ι f → Prop
  | _, .classDescriptor _ n => Name.OfClass n
  | _, .arrayDescriptor _ d b => (1 ≤ d ∧ d ≤ 255) ∧ b ≠ .descVoid ∧ ∀ a, b ≠ .descArray a
  | _, .methodDescriptor _ ps _ => .descVoid ∉ ps.entries
  | _, .classType _ .topLevel n _ => Name.OfClass n
  | _, .classType _ (.nestedIn _) n _ => Name.OfSegment n
  | _, .arrayType _ d b =>
      (1 ≤ d ∧ d ≤ 255) ∧ b ≠ .sigVoid ∧ ∀ a, b ≠ .sigReference (.refArray a)
  | _, .boundVariable _ d => Name.OfSegment d.name
  | _, .freeVariable _ n => Name.OfSegment n
  | _, .typeParameter i n c is => Name.OfSegment n ∧ bounds (.typeParameter i n c is) ≠ []
  | _, .methodSignature _ _ ps _ _ => .sigVoid ∉ ps.entries
  | _, _ => True

/-- A type parameter that is well formed has a first bound, and erases as that does. -/
theorem bounds_eq_cons {d : TypeTree ι .typeParameter} (hd : d.WellFormed) :
    ∃ r rs, d.bounds = r :: rs ∧ ∀ {m : Type → Type} [Monad m] [MonadPool ι m],
      (d.erase : ExceptT TypeError m _) = r.erase := by
  match d with
  | .typeParameter i n (.boundedBy r) is => exact ⟨r, is.entries, rfl, rfl⟩
  | .typeParameter i n .noClassBound .nil => exact nomatch hd.2.1 rfl
  | .typeParameter i n .noClassBound (.cons r rs) => exact ⟨r, rs.entries, rfl, rfl⟩

theorem not_mem_of_isVoid {xs : List (TypeTree ι f)} {void : TypeTree ι f}
    (hvoid : void.isVoid = true) (h : ∀ x ∈ xs, x.isVoid = false) : void ∉ xs := by
  intro hmem
  rw [h void hmem] at hvoid
  exact nomatch hvoid

theorem WellFormed.followsRules {t : TypeTree ι f} (ht : t.WellFormed) : t.FollowsRules := by
  cases t with
  | classDescriptor i n => exact Name.IsClassName.ofClass ht
  | arrayDescriptor i d b =>
      refine ⟨ht.1, ?_, ?_⟩
      · rintro rfl
        exact nomatch ht.2.1.1
      · rintro a rfl
        exact nomatch ht.2.1.2
  | methodDescriptor i ps r => exact not_mem_of_isVoid rfl ht.1
  | classType i o n as =>
      cases o with
      | topLevel => exact Name.IsClassName.ofClass ht.1
      | nestedIn c => exact Name.IsSimpleName.ofSegment ht.1
  | arrayType i d b =>
      refine ⟨ht.1, ?_, ?_⟩
      · rintro rfl
        exact nomatch ht.2.1.1
      · rintro a rfl
        exact nomatch ht.2.1.2
  | boundVariable i d =>
      match d with
      | .typeParameter _ n _ _ => exact Name.IsSimpleName.ofSegment ht.1
  | freeVariable i n => exact Name.IsSimpleName.ofSegment ht
  | typeParameter i n c is =>
      obtain ⟨r, rs, hbounds, -⟩ := bounds_eq_cons ht
      refine ⟨Name.IsSimpleName.ofSegment ht.1, ?_⟩
      rw [hbounds]
      exact List.cons_ne_nil r rs
  | methodSignature i ts ps r es => exact not_mem_of_isVoid rfl ht.1
  | _ => trivial

end TypeTree

/-! ## Trees in sessions -/

namespace Session

/-- A tree that occurs in some session with the given configuration. -/
inductive Occurs (c : Intern.Config) : AnyTree Nat → Prop
  /-- A register holds it. -/
  | held {steps : List Step} {e : String × AnyTree Nat} :
      e ∈ ((start c).after steps).registers → Occurs c e.2
  /-- A step answers it. -/
  | answered {steps : List Step} {st : Step} {v : AnyTree Nat} :
      v ∈ (((start c).after steps).step st).1.trees → Occurs c v
  /-- The pool has an entry for it, whether it is alive or dead. -/
  | pooled {steps : List Step} {k : Composite} {e : String × AnyTree Nat} :
      e ∈ (((start c).after steps).pool.registry.table k).entries → Occurs c e.2
  /-- It is a part of a tree that occurs; the declaration of a variable is one. -/
  | part {v x : AnyTree Nat} : Occurs c v → x ∈ v.2.parts → Occurs c x

/-- **Every tree that occurs is well formed.** -/
theorem Occurs.wellFormed {c : Intern.Config} {v : AnyTree Nat} (h : Occurs c v) :
    v.2.WellFormed := by
  induction h with
  | held he => exact ((valid_after_start c _).holds _ he).good.wellFormed
  | answered hv => exact ((valid_after_start c _).step_shows _ False.elim).1.wellFormed _ hv
  | pooled he => exact (valid_after_start c _).sound.wellFormed _ _ he
  | part _ hx ih => exact TypeTree.wellFormed_of_mem_parts ih hx

theorem Valid.wellFormed_plainRegisters {canonical : Prop} {s : Session} (h : s.Valid canonical) :
    s.plainRegisters.WellFormed := by
  refine List.forall_mem_map.mpr fun e he => ?_
  exact (TypeTree.wellFormed_plain e.2.2).mpr (h.holds e he).good.wellFormed

/-- With a strict pool a step shows what it shows in the session: the pool is asked for no
tree that the checked construction of its kind refuses or would change. -/
structure AsksSoundly (s : Session) (st : Step) : Prop where
  accepted : (st.computation s.plainRegisters : Evaluation StrictM _).run =
    some (st.computation s.plainRegisters : Evaluation Id _).run
  shown : Shown.ofEvaluation (st.computation s.plainRegisters) = (s.step st).1.shown

/-- **The rules hold for every tree of every session**, a tree is what the checked
construction of its kind makes of its parts, no step asks the pool for another, and a
variable erases as the first of its bounds, of which it has at least one. -/
theorem followsRules_of_occurs (c : Intern.Config) :
    (∀ v, Occurs c v → v.2.FollowsRules ∧ v.plain.2.remake.run = .ok v.plain.2) ∧
      (∀ steps st, ((start c).after steps).AsksSoundly st) ∧
      ∀ i d, Occurs c ⟨_, .boundVariable i d⟩ → ∃ r rs, d.bounds = r :: rs ∧
        ∀ {m : Type → Type} [Monad m] [MonadPool Nat m],
          ((TypeTree.boundVariable i d).erase : ExceptT TypeError m _) = r.erase := by
  refine ⟨?_, ?_, ?_⟩
  · intro v hv
    have hplain : v.plain.2.WellFormed := (TypeTree.wellFormed_plain v.2).mpr hv.wellFormed
    exact ⟨hv.wellFormed.followsRules, TypeTree.run_remake hplain⟩
  · intro steps st
    have hvalid := valid_after_start c steps
    refine ⟨(accepts_computation hvalid.wellFormed_plainRegisters st).run, ?_⟩
    exact (hvalid.step_shows st False.elim).1.shown.symm
  · intro i d hv
    have hd : d.WellFormed := hv.wellFormed
    exact TypeTree.bounds_eq_cons hd

/-- The erasure of a nested class, which is made without a check while the pool is off, and
a variable with its declaration. -/
theorem followsRules_of_occurs_erased :
    let object : TypeTree Nat .classType := .classType 3 .topLevel TypeTree.objectName .nil
    Name.OfClass "a/b$c" ∧ ∃ r rs,
      (TypeTree.typeParameter 4 "T" (.boundedBy (.refClass object)) .nil).bounds = r :: rs := by
  let steps : List Step :=
    [.value (.classType .checked none "a.b" []) (some "x"),
      .value (.nestedType (.register "x") [] "c") (some "y"), .enable false,
      .value (.erase .checked (.register "y")) (some "z"),
      .value (.boundVariable (.unconstrained "T")) (some "v")]
  have herased := @Occurs.held {} steps ("z", ⟨_, .classDescriptor 2 "a/b$c"⟩) (by decide +kernel)
  have hvariable := @Occurs.held {} steps
    ("v", ⟨_, .boundVariable 5 (.typeParameter 4 "T"
      (.boundedBy (.refClass (.classType 3 .topLevel TypeTree.objectName .nil))) .nil)⟩)
    (by decide +kernel)
  obtain ⟨hrules, -, hbounds⟩ := followsRules_of_occurs {}
  obtain ⟨r, rs, hfirst, -⟩ := hbounds _ _ hvariable
  exact ⟨(hrules _ herased).1, r, rs, hfirst⟩

end Session

end ClassfileTypes
