import ClassfileTypes.Proofs.Completion
import ClassfileTypes.Proofs.FirstBounds

/-!
# Erasure in a scope

To erase a bound type it is not necessary to bind it: a variable that is only named erases as
the variable that the scope has for it, and everything else erases as before. Where the scope
is asked, and where it is not, is then a matter of erasure alone. Type arguments, type
parameters and what a method throws are bound and then dropped, and a variable that has a
declaration erases by that declaration, whatever the scope says of the names in it.
-/

namespace ClassfileTypes

/-- The forms whose erasure follows from that of their parts: types, methods, and lists of
them. -/
def Form.erasesByParts : Form → Bool
  | typeSignature | referenceType | throwsType | classType | arrayType | typeVariable
  | methodSignature => true
  | list f => f.erasesByParts
  | _ => false

namespace TypeTree

variable {s s' : Scope Unit} {f : Form}

/-- What a tree erases to if a variable that is only named erases as the variable that the
scope has for the name. -/
def erasureIn (s : Scope Unit) :
    {f : Form} → TypeTree Unit f → ExceptT TypeError Id (TypeTree Unit f.erased)
  | _, .freeVariable i n =>
      match s n with
      | some d => (boundVariable i d).erase
      | none => throw (.unresolved n)
  | _, .sigReference r => r.erasureIn s
  | _, .refClass c => .descClass <$> c.erasureIn s
  | _, .refArray a => .descArray <$> a.erasureIn s
  | _, .refVariable v => v.erasureIn s
  | _, .throwsClass c => .descClass <$> c.erasureIn s
  | _, .throwsVariable v => v.erasureIn s
  | _, .arrayType _ d b => do makeArrayDescriptor d (← b.erasureIn s)
  | _, .methodSignature _ _ ps r _ => do
      let ps ← ps.erasureIn s
      let r ← r.erasureIn s
      makeMethodDescriptor ps r
  | _, .cons x xs => do
      let x ← x.erasureIn s
      let xs ← xs.erasureIn s
      return .cons x xs
  -- What is left has no variables that erasure comes to, or has declarations for them.
  | _, t => t.erase

/-- Binding does not change the name of a class. -/
theorem binaryName_substitute (c : TypeTree Unit .classType) :
    (c.substitute s).binaryName = c.binaryName := by
  match c with
  | .classType i .topLevel n as => rfl
  | .classType i (.nestedIn o) n as =>
      show (o.substitute s).binaryName ++ "$" ++ n = o.binaryName ++ "$" ++ n
      rw [binaryName_substitute o]

theorem erase_classType (c : TypeTree Unit .classType) :
    (c.erase : ExceptT TypeError Id _) = pure (classDescriptor () c.binaryName) := by
  cases c
  rfl

theorem erasureIn_freeVariable (i : Unit) (n : String) :
    (freeVariable i n).erasureIn s =
      match s n with
      | some d => (boundVariable i d).erase
      | none => throw (.unresolved n) :=
  rfl

/-- **Erasure after binding is erasure in the scope.** -/
theorem erase_substitute (hf : f.erasesByParts) (t : TypeTree Unit f) :
    (t.substitute s).erase = t.erasureIn s := by
  induction t with
  | freeVariable i n =>
      rw [erasureIn_freeVariable]
      unfold substitute
      cases s n <;> rfl
  | sigReference r ih | refVariable r ih | throwsVariable r ih => exact ih rfl
  | refClass c ih | throwsClass c ih =>
      show descClass <$> (c.substitute s).erase = _
      rw [ih rfl]
      rfl
  | refArray a ih =>
      show descArray <$> (a.substitute s).erase = _
      rw [ih rfl]
      rfl
  | arrayType i d b ih =>
      show (b.substitute s).erase >>= makeArrayDescriptor d = _
      rw [ih rfl]
      rfl
  | classType i o n as =>
      show _ = (classType i o n as).erase
      rw [erase_classType, erase_classType, binaryName_substitute]
  | methodSignature i ts ps r es _ ihps ihr _ =>
      show ((ps.substitute s).erase >>= fun ps =>
        (r.substitute s).erase >>= fun r => makeMethodDescriptor ps r) = _
      rw [ihps rfl, ihr rfl]
      rfl
  | cons x xs ihx ihxs =>
      show ((x.substitute s).erase >>= fun x' =>
        (xs.substitute s).erase >>= fun xs' => pure (TypeTree.cons x' xs')) = _
      rw [ihx hf, ihxs hf]
      rfl
  | sigPrimitive | sigVoid | boundVariable | nil => rfl
  | _ => cases hf

/-- Only the names in the tree matter. -/
theorem erasureIn_congr (hf : f.erasesByParts) {t : TypeTree Unit f}
    (h : ∀ x ∈ t.freeNames, s x = s' x) : t.erasureIn s = t.erasureIn s' := by
  rw [← erase_substitute hf, ← erase_substitute hf, substitute_congr h]

/-- A tree that has an erasure has it in every scope. -/
theorem erasureIn_of_erase (hf : f.erasesByParts) {t : TypeTree Unit f}
    {e : TypeTree Unit f.erased} (h : (t.erase : ExceptT TypeError Id _).run = .ok e) :
    (t.erasureIn s).run = .ok e := by
  induction t with
  | freeVariable i n => exact nomatch h
  | sigReference r ih | refVariable r ih | throwsVariable r ih => exact ih rfl h
  | refClass r ih | refArray r ih | throwsClass r ih =>
      obtain ⟨d, hd, rfl⟩ := run_map_eq_ok.mp h
      exact run_map_eq_ok.mpr ⟨d, ih rfl hd, rfl⟩
  | arrayType i d b ih =>
      obtain ⟨b', hb, h⟩ := run_bind_eq_ok.mp h
      exact run_bind_eq_ok.mpr ⟨b', ih rfl hb, h⟩
  | methodSignature i ts ps r es _ ihps ihr _ =>
      obtain ⟨ps', hps, h⟩ := run_bind_eq_ok.mp h
      obtain ⟨r', hr, h⟩ := run_bind_eq_ok.mp h
      exact run_bind_eq_ok.mpr ⟨ps', ihps rfl hps, run_bind_eq_ok.mpr ⟨r', ihr rfl hr, h⟩⟩
  | cons x xs ihx ihxs =>
      obtain ⟨x', hx, h⟩ := run_bind_eq_ok.mp h
      obtain ⟨xs', hxs, h⟩ := run_bind_eq_ok.mp h
      exact run_bind_eq_ok.mpr ⟨x', ihx hf hx, run_bind_eq_ok.mpr ⟨xs', ihxs hf hxs, h⟩⟩
  | classType | sigPrimitive | sigVoid | boundVariable | nil => exact h
  | _ => exact nomatch hf

end TypeTree

/-! ## In sessions -/

namespace Session

open Pool TypeTree

variable {f : Form} {b : Scope Nat}

/-- The outcome of an erasure is that of a tree in a scope, and it is the erasure of that tree
wherever there is one. -/
structure ErasesIn (s : Session) (b : Scope Nat) (t : TypeTree Nat f)
    (r : Except TypeError (TypeTree Nat f.erased)) : Prop where
  outcome : r.map plain = (t.plain.erasureIn b.plain).run
  kept : ∀ d, s.erasureOf t = .ok d → r.map plain = .ok d.plain

/-- **A bound tree erases as the tree before does in the scope.** In every session, if a type
or a method is bound, its erasure has the outcome that the erasure of the tree before has if
each variable that is only named erases as the one that the scope has for it. If the tree
before has an erasure, it is the same one, whatever the scope has for the names in it. Without
a pool that is so in every scope: the declarations may be made when they are asked for. -/
theorem erasesIn_of_bind (c : Intern.Config) (steps : List Step) (hf : f.erasesByParts) :
    (∀ (b : Scope Nat) (t : TypeTree Nat f),
      let s := (start c).after steps
      s.HoldsFor t b → ∀ (t' : TypeTree Nat f) (q : Pool),
        (t.bind b : ExceptT TypeError PoolM _).run s.pool = (.ok t', q) →
        Everywhere q t' fun p u =>
          ErasesIn s b t ((u.erase : ExceptT TypeError PoolM _).run p).1) ∧
    ∀ (b : Scope Unit) (t t' : TypeTree Unit f),
      (t.bind b : ExceptT TypeError Id _).run = .ok t' →
      (t'.erase : ExceptT TypeError Id _).run = (t.erasureIn b).run ∧
        ∀ d, (t.erase : ExceptT TypeError Id _).run = .ok d →
          (t'.erase : ExceptT TypeError Id _).run = .ok d := by
  refine ⟨fun b t => ?_, fun b t t' hbind => ?_⟩
  · intro s ht t' q hbind
    have hs : s.Valid False := valid_after_start c steps
    obtain ⟨hsound, -, hgood, hplain⟩ := (ht.refines_bind hs).of_ok hs.sound hbind
    refine .of_holds hsound hgood fun p u hp hu heq => ?_
    have houtcome : (((u.erase : ExceptT TypeError PoolM _).run p).1).map plain =
        (t.plain.erasureIn b.plain).run := by
      rw [(refines_erase hu).map_plain hp, heq, (substitute_of_bind hplain).1,
        erase_substitute hf]
      refine congrArg ExceptT.run (erasureIn_congr hf fun x hx => ?_)
      rw [freeNames_plain] at hx
      exact congrArg (Option.map TypeTree.plain) (Scope.eq_only b t x hx).symm
    refine ⟨houtcome, fun d hd => houtcome.trans (erasureIn_of_erase hf ?_)⟩
    rw [← hs.erasureOf_eq ht.tree, hd]
    rfl
  · obtain ⟨rfl, -⟩ := substitute_of_bind hbind
    rw [erase_substitute hf]
    exact ⟨rfl, fun d hd => erasureIn_of_erase hf hd⟩

/-- The arrays of the parameter and of the declaration become one. The scope is asked for the
name in the type argument and in what is thrown, and that does not show. Nor does it show
whether the declarations are held or made. -/
theorem erasesIn_of_bind_method :
    let steps : List Step := [.value (.typeParameter .checked "E" none
        [.arrayType .checked 2 (.classType .checked none "a" [])]) (some "e"),
      .value (.unconstrained "F") (some "f"),
      .value (.methodSignature .checked [] [.arrayType .checked 3 (.freeVariable .checked "E"),
        .classType .checked none "b" [.freeVariable .checked "F"]] .voidSignature
        [.freeVariable .checked "F"]) (some "m")]
    let s := (start {}).after steps
    let b : Scope Nat := Scope.ofParameters
      [.typeParameter 2 "E" .noClassBound
        (.cons (.refArray (.arrayType 1 2
          (.sigReference (.refClass (.classType 0 .topLevel "a" .nil))))) .nil),
        .typeParameter 4 "F"
          (.boundedBy (.refClass (.classType 3 .topLevel objectName .nil))) .nil]
    let t : TypeTree Nat .typeSignature := .sigReference (.refClass
      (.classType 8 .topLevel "b"
        (.cons (.argReference (.refVariable (.freeVariable 7 "F"))) .nil)))
    let m : TypeTree Nat .methodSignature := .methodSignature 10 .nil
      (.cons (.sigReference (.refArray (.arrayType 6 3
          (.sigReference (.refVariable (.freeVariable 5 "E"))))))
        (.cons t .nil)) .sigVoid (.cons (.throwsVariable (.freeVariable 7 "F")) .nil)
    (∃ m' q, (m.bind b : ExceptT TypeError PoolM _).run s.pool = (.ok m', q) ∧
      ((m'.erase : ExceptT TypeError PoolM _).run (q.hold m')).1.map plain =
        .ok (.methodDescriptor ()
          (.cons (arrayOf 5 (.descClass (.classDescriptor () "a")))
            (.cons (.descClass (.classDescriptor () "b")) .nil)) .descVoid)) ∧
    (∃ t' q, (t.bind b : ExceptT TypeError PoolM _).run s.pool = (.ok t', q) ∧
      ((t'.erase : ExceptT TypeError PoolM _).run (q.hold t')).1.map plain =
        .ok (.descClass (.classDescriptor () "b"))) ∧
    ∃ t', (t.plain.bind .onDemand : ExceptT TypeError Id _).run = .ok t' ∧
      (t'.erase : ExceptT TypeError Id _).run = .ok (.descClass (.classDescriptor () "b")) := by
  intro steps s b t m
  refine ⟨?_, ?_, ?_⟩
  · obtain ⟨m', q, hbind⟩ := exists_of_isOk
      (show ((m.bind b : ExceptT TypeError PoolM _).run s.pool).1.isOk = true by decide +kernel)
    have hm := ((erasesIn_of_bind {} steps rfl).1 b m (by decide +kernel) m' q hbind).1
    exact ⟨m', q, hbind, hm.outcome⟩
  · obtain ⟨t', q, hbind⟩ := exists_of_isOk
      (show ((t.bind b : ExceptT TypeError PoolM _).run s.pool).1.isOk = true by decide +kernel)
    have ht : s.HoldsFor t b := by decide +kernel
    have herases : (s.erasureOf t).map plain = .ok (.descClass (.classDescriptor () "b")) :=
      (valid_after_start {} steps).erasureOf_eq ht.tree
    obtain ⟨d, hd, hplain⟩ := Pool.map_eq_ok.mp herases
    refine ⟨t', q, hbind, ?_⟩
    rw [((erasesIn_of_bind {} steps rfl).1 b t ht t' q hbind).1.kept d hd, hplain]
  · obtain ⟨t', hbind⟩ : ∃ t', (t.plain.bind .onDemand : ExceptT TypeError Id _).run = .ok t' :=
      ⟨_, rfl⟩
    exact ⟨t', hbind, ((erasesIn_of_bind {} steps rfl).2 .onDemand t.plain t' hbind).2 _ rfl⟩

/-- A variable that has a declaration erases by it. The walk from the variable stops at a name
that the scope has, but binding leaves the declaration as it is. -/
theorem erasesIn_of_bind_declared :
    let steps : List Step := [.value (.typeParameter .checked "T"
        (some (.freeVariable .checked "U")) []) (some "t"),
      .value (.boundVariable (.register "t")) (some "v"), .value (.unconstrained "U") (some "u")]
    let s := (start {}).after steps
    let v : TypeTree Nat .referenceType := .refVariable (.boundVariable 2
      (.typeParameter 1 "T" (.boundedBy (.refVariable (.freeVariable 0 "U"))) .nil))
    let b : Scope Nat := Scope.ofParameters
      [.typeParameter 4 "U" (.boundedBy (.refClass (.classType 3 .topLevel objectName .nil))) .nil]
    s.HoldsFor v b ∧ v.trail = ⟨0, .name "U"⟩ ∧
      b.plain.erasure "U" = .ok (.descClass (.classDescriptor () objectName)) ∧
      ∃ v' q, (v.bind b : ExceptT TypeError PoolM _).run s.pool = (.ok v', q) ∧
        ((v'.erase : ExceptT TypeError PoolM _).run (q.hold v')).1 =
          .error (.unresolved "U") := by
  intro steps s v b
  exact ⟨by decide +kernel, rfl, rfl, v, _, rfl, rfl⟩

end Session

end ClassfileTypes
