import ClassfileTypes.Proofs.AcceptingDeclarations
import ClassfileTypes.Proofs.Sessions

/-!
# Texts in sessions

Whether the pool has the tree of a text does not show: in every session a text is
read as it is by the rules alone. What is written is read back, in any surroundings
and in any session, and what is read is what was written.
-/

namespace ClassfileTypes

namespace Pool

variable {canonical : Prop} {p : Pool} {f : Form}

/-- The outcome of reading with a pool, without the tags. -/
def outcome (p : Pool) (x : ExceptT ParseError PoolM (TypeTree Nat f × Nat)) :
    Except ParseError (TypeTree Unit f × Nat) :=
  (x.run p).1.map fun r => (r.1.plain, r.2)

/-- What refines a plain reading has its outcome. -/
theorem outcome_eq (hs : Sound canonical p)
    {x : ExceptT ParseError PoolM (TypeTree Nat f × Nat)}
    {y : ExceptT ParseError Id (TypeTree Unit f × Nat)}
    (h : Refines canonical (EndTagged canonical) p x y) : p.outcome x = y.run := by
  obtain ⟨-, -, hR⟩ := h hs
  exact hR.map_eq fun a b hab => Prod.ext hab.tree.plain hab.stop

end Pool

namespace Session

variable {canonical : Prop} {s : Session}

/-- **The pool does not show.** In every session a text is read as it is by the rules
alone, in the same pool and without one: the same tree and the same end, or the same
error. -/
theorem parseAt_eq_readAt (c : Intern.Config) (steps : List Step) (k : Start) (text : String)
    (start : Nat) :
    let p := ((Session.start c).after steps).pool
    p.outcome (parseAt k text start) = p.outcome (readAt k text start) ∧
      p.outcome (parseAt k text start) = (readAt k text start : ExceptT ParseError Id _).run := by
  intro p
  have hs : Pool.Sound False p := (valid_after_start c steps).sound
  have hparse := Pool.outcome_eq hs (Pool.refines_parseAt k text start)
  rw [parseAt_plain] at hparse
  have hread := Pool.outcome_eq hs (Pool.refines_readAt k text start)
  exact ⟨hparse.trans hread.symm, hparse⟩

/-- **What is written is read back.** In every session, and without a pool, the internal
text of a tree is read as the tree in any surroundings, from where it begins to where
it ends. -/
theorem parseAt_internal (c : Intern.Config) (steps : List Step) (k : Start) {ι : Type}
    {t : TypeTree ι k.form} (ht : t.WellFormed) (hu : t.Unbound) (before after : String)
    (hafter : k.Follows after.toList) :
    let text := before ++ t.internal ++ after
    let start := Text.byteSize before.toList
    let stop := start + Text.byteSize t.internal.toList
    ((Session.start c).after steps).pool.outcome (parseAt k text start) = .ok (t.plain, stop) ∧
      parsePlainAt k text start = .ok (t.plain, stop) := by
  intro text start stop
  have hs : Pool.Sound False ((Session.start c).after steps).pool :=
    (valid_after_start c steps).sound
  have hplain : parsePlainAt k text start = .ok (t.plain, stop) := by
    unfold parsePlainAt
    rw [parseAt_plain]
    have hread := readAt_internal k ((TypeTree.wellFormed_plain t).mpr ht)
      ((TypeTree.unbound_plain t).mpr hu) before after hafter
    rw [TypeTree.internal_plain] at hread
    exact hread
  refine ⟨?_, hplain⟩
  rw [Pool.outcome_eq hs (Pool.refines_parseAt k text start)]
  exact hplain

/-- A method that throws what a type variable stands for, after a character of two bytes. -/
theorem parseAt_internal_of_throws :
    parsePlainAt .methodSignature "é()V^TT;)" 2 =
      .ok (.methodSignature () .nil .nil .sigVoid
        (.cons (.throwsVariable (.freeVariable () "T")) .nil), 9) := by
  have hname : Name.IsSimpleName "T" := (Name.simpleNameOf_eq_ok_iff.mp rfl).2
  have hread := parseAt_internal {} [] .methodSignature
    (t := .methodSignature () .nil .nil .sigVoid
      (.cons (.throwsVariable (.freeVariable () "T")) .nil))
    ⟨fun _ hp => absurd hp List.not_mem_nil, trivial, trivial, trivial, hname, trivial⟩
    ⟨trivial, trivial, trivial, trivial, trivial⟩ "é" ")" (by simp [Start.Follows])
  exact hread.2

/-- **What is read is what was written.** In every session, the text that was read for a
tree is the internal text of the tree, where in descriptors dots may stand for slashes.
It is not empty, and it begins and ends between characters. -/
theorem readFrom_of_parseAt (c : Intern.Config) (steps : List Step) (k : Start) (text : String)
    (start stop : Nat) {t : TypeTree Nat k.form}
    (h : ((parseAt k text start : ExceptT ParseError PoolM _).run
      ((Session.start c).after steps).pool).1 = .ok (t, stop)) :
    ReadFrom k t text start stop := by
  have hs : Pool.Sound False ((Session.start c).after steps).pool :=
    (valid_after_start c steps).sound
  have houtcome := Pool.outcome_eq hs (Pool.refines_parseAt k text start)
  rw [parseAt_plain, Pool.outcome, h] at houtcome
  exact (readAt_eq_ok houtcome.symm).of_plain

/-- A class written with dots, after a character of two bytes and before a bracket. -/
theorem readFrom_of_parseAt_dots :
    ReadFrom .classDescriptor (.classDescriptor 0 "a/b") "éLa.b;)" 2 7 :=
  readFrom_of_parseAt {} [] .classDescriptor "éLa.b;)" 2 7 rfl

end Session

end ClassfileTypes
