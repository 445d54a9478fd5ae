import ClassfileTypes.Proofs.Identity
import ClassfileTypes.Proofs.SparingRules
import Mathlib.Data.Sigma.Basic

/-!
# Parsing again

As long as a pool is on and what was parsed is alive, parsing the same text again gives
the very same objects, whether the pool is asked for the text or the text is read once more.
The parts of what is read are all that is asked for, and the pool has them. So nothing is
registered, and no table changes.
-/

namespace ClassfileTypes

/-! ## Trees of registered objects -/

namespace TypeTree

variable {ι : Type} {f : Form} {t u : TypeTree ι f}

/-- The objects of a tree without tags are those of the tree, without tags. -/
theorem nodes_plain (t : TypeTree ι f) : t.plain.nodes = t.nodes.map AnyTree.plain := by
  unfold plain
  induction t <;> simp_all [mapTags, nodes, AnyTree.plain, plain]

theorem eq_of_composite (hnodes : ∀ v ∈ t.nodes, ∀ w ∈ u.nodes, v.plain = w.plain → v = w)
    (hplain : t.plain = u.plain) (htag : t.tag?.isSome) : t = u := by
  have hkind : u.tag?.isSome := by
    rw [← isSome_composite?] at htag ⊢
    rwa [← composite?_mapTags (fun _ => ()) u, ← plain, ← hplain, plain, composite?_mapTags]
  have hroot := hnodes ⟨f, t⟩ (mem_nodes_iff_parts.mpr (Or.inl ⟨rfl, htag⟩)) ⟨f, u⟩
    (mem_nodes_iff_parts.mpr (Or.inl ⟨rfl, hkind⟩)) (congrArg (Sigma.mk f) hplain)
  exact eq_of_heq (Sigma.mk.inj hroot).2

/-- Trees that are equal as types are equal, if there is one object for each type in them. -/
theorem eq_of_plain_eq (hnodes : ∀ v ∈ t.nodes, ∀ w ∈ u.nodes, v.plain = w.plain → v = w)
    (hplain : t.plain = u.plain) : t = u := by
  induction t with
  | classDescriptor | arrayDescriptor | methodDescriptor | classType | arrayType | boundVariable
  | freeVariable | typeParameter | boundedArgument | methodSignature | classSignature =>
      exact eq_of_composite hnodes hplain rfl
  | primitive | descPrimitive | descVoid | sigPrimitive | sigVoid | topLevel | noClassBound
  | wildcard | nil =>
      cases u <;> cases hplain
      rfl
  | descClass t ih | descArray t ih | sigReference t ih | refClass t ih | refArray t ih
  | refVariable t ih | throwsClass t ih | throwsVariable t ih | nestedIn t ih | boundedBy t ih
  | argReference t ih | argBounded t ih =>
      -- What stands for a tree of another form has no object of its own.
      cases u <;> simp only [plain, mapTags, reduceCtorEq] at hplain
      injection hplain with hinner
      rw [ih hnodes hinner]
  | cons x xs ihx ihxs =>
      cases u with
      | nil => cases hplain
      | cons y ys =>
          obtain ⟨hx, hxs⟩ := cons.inj hplain
          rw [ihx (fun v hv w hw => hnodes v (List.mem_append_left _ hv) w
              (List.mem_append_left _ hw)) hx,
            ihxs (fun v hv w hw => hnodes v (List.mem_append_right _ hv) w
              (List.mem_append_right _ hw)) hxs]

end TypeTree

namespace Pool

variable {p : Pool}

/-- What is registered and alive, the pool has. -/
theorem Sound.has {canonical : Prop} (hs : Sound canonical p) {v : AnyTree Nat}
    (hv : p.Registers v) (hlive : p.isLive v = true) : p.Has v.plain := by
  obtain ⟨k, hkind, hentry⟩ := hv
  intro k' hk'
  have hsame : v.2.plain.composite? = v.2.composite? := TypeTree.composite?_mapTags _ _
  obtain rfl : k = k' := Option.some.inj ((hsame.trans hkind).symm.trans hk')
  have hfound : (p.registry.table k).find? p.isLive v.2.key = some v :=
    (Intern.Table.find?_eq_some_iff (hs.keysDistinct k)).mpr ⟨hentry, hlive⟩
  show ((p.registry.table k).find? p.isLive v.2.plain.key).isSome = true
  rw [TypeTree.key_plain, hfound]
  rfl

theorem Registers.congr {q : Pool} {v : AnyTree Nat} (h : p.Registers v)
    (htables : ∀ k, q.registry.table k = p.registry.table k) : q.Registers v := by
  obtain ⟨k, hkind, hentry⟩ := h
  exact ⟨k, hkind, htables k ▸ hentry⟩

/-! ## What a run gives -/

section

variable {q : Pool} {α β ε ε' : Type} {x : ExceptT ε PoolM α} {r : Except ε α}

theorem run_map (h : x.run p = (r, q)) (f : α → β) : (f <$> x).run p = (r.map f, q) := by
  rw [ExceptT.run_map]
  show ((x.run p).1.map f, (x.run p).2) = _
  rw [h]

theorem run_adapt (h : x.run p = (r, q)) (e : ε → ε') :
    (ExceptT.adapt e x).run p = (r.mapError e, q) := by
  show ((x.run p).1.mapError e, (x.run p).2) = _
  rw [h]

end

/-! ## Parsing spares the pool -/

/-- What is found was not asked for, and what is read spares the pool. -/
theorem spares_parseAt (k : Start) (text : String) (start : Nat) :
    Spares (EndTagged True) (fun x => x.1.nodes) [] p (parseAt k text start)
      (parseAt k text start) :=
  Refines.parseAt (spares_readAt k text start) fun _ _ hgood =>
    ⟨⟨.of_good hgood, rfl⟩, List.nil_subset _, fun _ _ => rfl⟩

theorem spares_parse (k : Start) (text : String) :
    Spares (Tagged True) TypeTree.nodes [] p (parse k text) (parse k text) := by
  unfold parse
  apply Spares.through (spares_parseAt k text 0)
  rintro q ⟨t, stop⟩ ⟨t', stop'⟩ - ⟨ht, hstop⟩ -
  obtain rfl : stop = stop' := hstop
  dsimp only
  split_ifs
  · exact Spares.pure ht (List.Subset.refl _)
  · exact Refines.throw

end Pool

/-! ## Sessions -/

namespace Session

open Pool

variable {s : Session}

/-- What is reached is alive. -/
theorem Valid.isLive_of_reaches {canonical : Prop} (h : s.Valid canonical) {v : AnyTree Nat}
    (hv : s.Reaches v) : s.pool.isLive v = true := by
  obtain ⟨e, he, hv⟩ := hv
  exact (h.holds e he).kept.isLive hv

/-- There is one registered object for each type. -/
theorem eq_of_plain_eq {canonical : Prop} (hs : Sound canonical s.pool) {v w : AnyTree Nat}
    (hv : s.pool.Registers v) (hw : s.pool.Registers w) (hplain : v.plain = w.plain) : v = w := by
  have hkind : v.plain.2.composite? = w.plain.2.composite? := by rw [hplain]
  have hkey : v.plain.2.key = w.plain.2.key := by rw [hplain]
  refine eq_of_registers hs hv hw ?_ ?_
  · exact (TypeTree.composite?_mapTags _ _).symm.trans
      (hkind.trans (TypeTree.composite?_mapTags _ _))
  · rwa [← TypeTree.key_plain v.2, ← TypeTree.key_plain w.2]

instance (r : Reply) (v : AnyTree Nat) : Decidable (r = .value v) :=
  match r with
  | .value w => decidable_of_iff (w = v) ⟨congrArg Reply.value, Reply.value.inj⟩
  | .report _ | .compared _ _ | .members _ | .found _ | .dropped _ | .enabled _ | .removed _
  | .counts _ | .failed _ => isFalse nofun

/-- The step answers with the tree, its objects included, and no kind has more entries or
fewer. -/
structure Reuses (s : Session) (st : Step) (v : AnyTree Nat) : Prop where
  answer : (s.step st).1 = .value v
  counts : ∀ k, (s.step st).2.pool.count k = s.pool.count k

/-- A step that evaluates an expression answers with the tree, and has the tables that the
evaluation leaves. -/
theorem step_value {e : Expr} {v : AnyTree Nat} {q : Pool}
    (h : (e.eval s.registers : Evaluation PoolM _).run s.pool = (.ok v, q))
    (register : Option String) :
    (s.step (.value e register)).1 = .value v ∧
      (s.step (.value e register)).2.pool.registry = q.registry := by
  have hrun : (e.eval s.registers : Evaluation PoolM _).run.run s.pool = (.ok v, q) := h
  unfold Session.step Session.perform
  dsimp only
  rw [hrun]
  cases register <;> exact ⟨rfl, rfl⟩

/-- A step that answers with a tree has evaluated its expression to that tree. -/
theorem exists_of_value {e : Expr} {register : Option String} {v : AnyTree Nat}
    (h : (s.step (.value e register)).1 = .value v) :
    ∃ q, (e.eval s.registers : Evaluation PoolM _).run s.pool = (.ok v, q) := by
  rcases hrun : (e.eval s.registers : Evaluation PoolM _).run s.pool with ⟨r, q⟩
  cases r with
  | ok w =>
      obtain rfl : w = v := Reply.value.inj ((step_value hrun register).1.symm.trans h)
      exact ⟨q, rfl⟩
  | error err =>
      change (s.perform (.value e register)).1 = .value v at h
      have hrun' : (e.eval s.registers : Evaluation PoolM _).run.run s.pool = (.error err, q) := hrun
      unfold Session.perform at h
      dsimp only at h
      rw [hrun'] at h
      cases h

/-- A text stands for what it is parsed to. -/
theorem eval_parse {k : Start} {text : String} {r : Except ParseError (TypeTree Nat k.form)}
    {q : Pool} (h : (parse k text : ExceptT ParseError PoolM _).run s.pool = (r, q)) :
    ((Expr.parse k text).eval s.registers : Evaluation PoolM _).run s.pool =
      ((r.mapError .unreadable).map fun t => ⟨k.form, t⟩, q) := by
  rw [Expr.eval]
  exact run_map (run_adapt h _) _

/-- **Parsing what is alive.** If there is an object for each type in what a text stands for,
parsing it gives these objects. -/
theorem Valid.reuses (h : s.Valid True) {k : Start} {text : String} {t : TypeTree Nat k.form}
    (hparse : (parse k text : ExceptT ParseError Id _).run = .ok t.plain)
    (hheld : ∀ w ∈ t.nodes, s.Reaches w) (register : Option String) :
    s.Reuses (.value (.parse k text) register) ⟨k.form, t⟩ := by
  obtain ⟨-, -, hR⟩ := spares_parse k text h.sound
  rcases hrun : (parse k text : ExceptT ParseError PoolM _).run s.pool with ⟨r, q⟩
  change Outcome (Sparing (Tagged True) TypeTree.nodes [] s.pool)
    ((parse k text : ExceptT ParseError PoolM _).run s.pool).2
    ((parse k text : ExceptT ParseError PoolM _).run s.pool).1
    (parse k text : ExceptT ParseError Id _).run at hR
  rw [hrun, hparse] at hR
  cases r with
  | error e => exact hR.elim
  | ok u =>
      obtain ⟨hu, hspared⟩ := hR
      have htables : ∀ kind, q.registry.table kind = s.pool.registry.table kind := by
        refine hspared.tables ?_
        rw [TypeTree.nodes_plain, List.forall_mem_map]
        intro w hw
        exact h.sound.has (h.registers_of_reaches trivial (hheld w hw))
          (h.isLive_of_reaches (hheld w hw))
      -- What was registered before is what the pool answered with.
      obtain rfl : u = t := by
        refine TypeTree.eq_of_plain_eq ?_ hu.plain
        intro w hw w' hw' hplain
        have hregistered : s.pool.Registers w :=
          (hu.good.registered trivial w hw).congr fun kind => (htables kind).symm
        exact eq_of_plain_eq h.sound hregistered
          (h.registers_of_reaches trivial (hheld w' hw')) hplain
      obtain ⟨hanswer, hregistry⟩ := step_value (eval_parse hrun) register
      refine ⟨hanswer, fun kind => ?_⟩
      unfold Pool.count Intern.Registry.count
      rw [hregistry, htables]

/-- **Reparsing a live type costs nothing.** In a session whose pool is never off, a text
that was parsed is parsed to the same objects again, whatever happened meanwhile, as long as
these are alive. No kind has more entries afterwards, or fewer. -/
theorem reuses_of_held {c : Intern.Config} (hc : c.enabled = true) {before between : List Step}
    (hon : ∀ st ∈ before ++ between, st.keepsEnabled = true) {k : Start} {text : String}
    {register : Option String} {v : AnyTree Nat}
    (hparse : (((start c).after before).step (.value (.parse k text) register)).1 = .value v)
    (hheld : ∀ w ∈ v.2.nodes,
      ((start c).after (before ++ .value (.parse k text) register :: between)).Reaches w)
    (again : Option String) :
    ((start c).after (before ++ .value (.parse k text) register :: between)).Reuses
      (.value (.parse k text) again) v := by
  obtain ⟨hbefore, hbetween⟩ := List.forall_mem_append.mp hon
  have hvalid : ((start c).after before).Valid True :=
    (valid_start c fun _ => hc).after before fun _ => hbefore
  -- What was parsed is what the text stands for.
  obtain ⟨q, heval⟩ := exists_of_value hparse
  have hvalue : ((start c).after before).valueOf (.parse k text) = .ok v.plain := by
    unfold valueOf
    rw [heval]
    rfl
  rw [hvalid.valueOf_eq, Expr.eval] at hvalue
  obtain ⟨u, hu, huv⟩ := run_map_eq_ok.mp hvalue
  obtain ⟨f, t⟩ := v
  obtain ⟨rfl, ht⟩ := Sigma.mk.inj huv
  obtain rfl := eq_of_heq ht
  refine Valid.reuses ?_ (run_adapt_eq_ok.mp hu) hheld again
  exact (valid_start c fun _ => hc).after _ fun _ =>
    List.forall_mem_append.mpr ⟨hbefore, List.forall_mem_cons.mpr ⟨rfl, hbetween⟩⟩

/-- The descriptor is not the key of what it stands for, so it is read once more. The class
that was made before is one of its parts, and is not held for itself any more. -/
theorem reuses_of_held_by_descriptor :
    ((start {}).after [.value (.classDescriptor .checked "b/c") (some "c"),
      .value (.parse .methodDescriptor "([La;Lb.c;)V") (some "m"), .drop "c",
      .value (.parse .classDescriptor "Ld;") none, .purge]).Reuses
        (.value (.parse .methodDescriptor "([La;Lb.c;)V") (some "n"))
        ⟨_, .methodDescriptor 4
          (.cons (.descArray (.arrayDescriptor 2 1 (.descClass (.classDescriptor 1 "a"))))
            (.cons (.descClass (.classDescriptor 0 "b/c")) .nil)) .descVoid⟩ :=
  @reuses_of_held {} rfl [.value (.classDescriptor .checked "b/c") (some "c")]
    [.drop "c", .value (.parse .classDescriptor "Ld;") none, .purge] (by decide)
    .methodDescriptor "([La;Lb.c;)V" (some "m") _ (by decide +kernel) (by decide +kernel) (some "n")

end Session

end ClassfileTypes
