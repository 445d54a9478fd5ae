import ClassfileTypes.Proofs.SessionBinding

/-!
# Declarations shadow the outer scope

A method or a class asks its outer scope only for the names that it does not declare itself.
What the outer scope has for a declared name is never looked at, in any round: the outcome of
a round has the names of the declarations, so the scope of the next round answers for all of
them before the outer scope is asked. Two outer scopes that agree on the other names therefore
bind a method or a class alike, and they fail alike.
-/

namespace ClassfileTypes

/-- Two scopes have the same for these names, but for those that are hidden. -/
def Scope.AgreeBeyond {ι : Type} (hidden names : List String) (s s' : Scope ι) : Prop :=
  ∀ x ∈ names, x ∉ hidden → s x = s' x

theorem Scope.AgreeBeyond.freeNames {ι : Type} {f : Form} {t : TypeTree ι f}
    {hidden : List String} {s s' : Scope ι} (h : s.AgreeBeyond hidden t.unboundNames s') :
    s.AgreeBeyond hidden t.freeNames s' :=
  fun x hx => h x (List.mem_eraseDups.mpr hx)

namespace TypeTree

variable {f : Form} {hidden : List String} {outer outer' : Scope Unit}

/-- Once the hidden names are declared, the scopes have the same for all names. -/
theorem roundScope_eq {resolved : TypeTree Unit (.list .typeParameter)} {names : List String}
    (hnames : resolved.entries.map name = hidden)
    (h : outer.AgreeBeyond hidden names outer') :
    ∀ x ∈ names, roundScope outer resolved x = roundScope outer' resolved x := by
  intro x hx
  unfold roundScope Scope.within
  cases hfind : Scope.ofParameters resolved.entries x with
  | some d => rfl
  | none =>
      have hnot : x ∉ hidden := hnames ▸ ofParameters_eq_none_iff.mp hfind
      exact h x hx hnot

/-- So trees are bound alike in the scope of a round. -/
theorem bind_roundScope_eq {resolved : TypeTree Unit (.list .typeParameter)}
    {t : TypeTree Unit f} (hnames : resolved.entries.map name = hidden)
    (h : outer.AgreeBeyond hidden t.freeNames outer') :
    (t.bind (roundScope outer resolved) : ExceptT TypeError Id _) =
      t.bind (roundScope outer' resolved) :=
  bind_congr (roundScope_eq hnames h)

/-- Computations in sequence are alike if the first ones are, and the rest is alike after a
success. -/
theorem run_bind_congr {ε α β : Type} {x x' : ExceptT ε Id α} {k k' : α → ExceptT ε Id β}
    (hx : x.run = x'.run) (hk : ∀ a, x.run = .ok a → (k a).run = (k' a).run) :
    (x >>= k).run = (x' >>= k').run := by
  show (ExceptT.bindCont k x.run : Id _) = ExceptT.bindCont k' x'.run
  rw [← hx]
  cases hrun : x.run with
  | ok a => exact hk a hrun
  | error e => rfl

section

variable {declared resolved : TypeTree Unit (.list .typeParameter)}

/-- Every round has the names of the declarations, and so every round is the same. -/
theorem resolveRounds_eq
    (h : outer.AgreeBeyond (declared.entries.map name) declared.freeNames outer')
    (hnames : resolved.entries.map name = declared.entries.map name) (rounds : Nat) :
    (resolveRounds declared outer rounds resolved : ExceptT TypeError Id _).run =
      (resolveRounds declared outer' rounds resolved : ExceptT TypeError Id _).run := by
  induction rounds generalizing resolved with
  | zero => rfl
  | succ rounds ih =>
      exact run_bind_congr (congrArg ExceptT.run (bind_roundScope_eq hnames h))
        fun next hnext => ih (names_of_bind declared next hnext)

theorem resolve_eq
    (h : outer.AgreeBeyond (declared.entries.map name) declared.freeNames outer') :
    (resolve declared outer : ExceptT TypeError Id _).run =
      (resolve declared outer' : ExceptT TypeError Id _).run :=
  resolveRounds_eq h rfl _

end

/-- **A method asks its outer scope only for what it does not declare.** -/
theorem bindMethod_eq {t : TypeTree Unit .methodSignature}
    (h : outer.AgreeBeyond (t.typeParameters.map name) t.freeNames outer') :
    (t.bindMethod outer : ExceptT TypeError Id _).run =
      (t.bindMethod outer' : ExceptT TypeError Id _).run := by
  cases t with
  | methodSignature i ts ps r es =>
      unfold Scope.AgreeBeyond at h
      simp only [freeNames, List.forall_mem_append] at h
      obtain ⟨⟨⟨hts, hps⟩, hr⟩, hes⟩ := h
      refine run_bind_congr (resolve_eq hts) fun ts' hts' => ?_
      have hnames := names_of_resolve hts'
      exact run_bind_congr (congrArg ExceptT.run (bind_roundScope_eq hnames hps)) fun _ _ =>
        run_bind_congr (congrArg ExceptT.run (bind_roundScope_eq hnames hr)) fun _ _ =>
          run_bind_congr (congrArg ExceptT.run (bind_roundScope_eq hnames hes)) fun _ _ => rfl

/-- **So does a class.** -/
theorem bindClass_eq {t : TypeTree Unit .classSignature}
    (h : outer.AgreeBeyond (t.typeParameters.map name) t.freeNames outer') :
    (t.bindClass outer : ExceptT TypeError Id _).run =
      (t.bindClass outer' : ExceptT TypeError Id _).run := by
  cases t with
  | classSignature i ts c is =>
      unfold Scope.AgreeBeyond at h
      simp only [freeNames, List.forall_mem_append] at h
      obtain ⟨⟨hts, hc⟩, his⟩ := h
      refine run_bind_congr (resolve_eq hts) fun ts' hts' => ?_
      have hnames := names_of_resolve hts'
      exact run_bind_congr (congrArg ExceptT.run (bind_roundScope_eq hnames hc)) fun _ _ =>
        run_bind_congr (congrArg ExceptT.run (bind_roundScope_eq hnames his)) fun _ _ => rfl

end TypeTree

/-! ## In sessions -/

namespace Session

open Pool TypeTree

variable {f : Form} {s s' : Session} {b b' : Scope Nat} {t t' : TypeTree Nat f}

/-- Without tags, the declarations that are asked for agree if the scopes do. -/
theorem agreeBeyond_only {hidden : List String} (heq : t.plain = t'.plain)
    (h : b.plain.AgreeBeyond hidden t.unboundNames b'.plain) :
    (b.only t.unboundNames).plain.AgreeBeyond hidden t.plain.freeNames
      (b'.only t'.unboundNames).plain := by
  intro x hx hnot
  have hx' : x ∈ t'.freeNames := by rwa [← freeNames_plain, ← heq]
  rw [freeNames_plain] at hx
  have hagree := h x (List.mem_eraseDups.mpr hx) hnot
  unfold Scope.plain at hagree ⊢
  rw [← Scope.eq_only b t x hx, ← Scope.eq_only b' t' x hx']
  exact hagree

/-- **Own declarations shadow the outer scope.** In any two sessions, if two outer scopes have
the same for each name of a method or a class that is not the name of a type parameter, then
binding it in its own scope and the one gives the same tree or the same error as binding it in
its own scope and the other, whatever they have for other names. Without a pool that is so for
every two scopes: they may make their declarations when they are asked for them. -/
theorem bound_alike (c c' : Intern.Config) (steps steps' : List Step) (b b' : Scope Nat) :
    let s := (start c).after steps
    let s' := (start c').after steps'
    (∀ t t' : TypeTree Nat .methodSignature, s.HoldsFor t b → s'.HoldsFor t' b' →
      t.plain = t'.plain →
      b.plain.AgreeBeyond (t.typeParameters.map name) t.unboundNames b'.plain →
      ((t.bindMethod b : ExceptT TypeError PoolM _).run s.pool).1.map plain =
        ((t'.bindMethod b' : ExceptT TypeError PoolM _).run s'.pool).1.map plain) ∧
    (∀ t t' : TypeTree Nat .classSignature, s.HoldsFor t b → s'.HoldsFor t' b' →
      t.plain = t'.plain →
      b.plain.AgreeBeyond (t.typeParameters.map name) t.unboundNames b'.plain →
      ((t.bindClass b : ExceptT TypeError PoolM _).run s.pool).1.map plain =
        ((t'.bindClass b' : ExceptT TypeError PoolM _).run s'.pool).1.map plain) ∧
    ∀ o o' : Scope Unit,
      (∀ t : TypeTree Unit .methodSignature,
        o.AgreeBeyond (t.typeParameters.map name) t.unboundNames o' →
        (t.bindMethod o : ExceptT TypeError Id _).run =
          (t.bindMethod o' : ExceptT TypeError Id _).run) ∧
      ∀ t : TypeTree Unit .classSignature,
        o.AgreeBeyond (t.typeParameters.map name) t.unboundNames o' →
        (t.bindClass o : ExceptT TypeError Id _).run =
          (t.bindClass o' : ExceptT TypeError Id _).run := by
  intro s s'
  have hs : s.Valid False := valid_after_start c steps
  have hs' : s'.Valid False := valid_after_start c' steps'
  have hnames : ∀ {f : Form} (t : TypeTree Nat f),
      t.plain.typeParameters.map name = t.typeParameters.map name := by
    intro f t
    simp [TypeTree.plain]
  refine ⟨fun t t' ht ht' heq h => ?_, fun t t' ht ht' heq h => ?_, fun o o' =>
    ⟨fun t h => bindMethod_eq h.freeNames, fun t h => bindClass_eq h.freeNames⟩⟩
  · rw [← hnames] at h
    rw [(ht.refines_bindMethod hs).map_plain hs.sound,
      (ht'.refines_bindMethod hs').map_plain hs'.sound, ← heq]
    exact bindMethod_eq (agreeBeyond_only heq h)
  · rw [← hnames] at h
    rw [(ht.refines_bindClass hs).map_plain hs.sound,
      (ht'.refines_bindClass hs').map_plain hs'.sound, ← heq]
    exact bindClass_eq (agreeBeyond_only heq h)

/-- The second scope has the name of the type parameter, and a name that does not occur. The
method is bound in either scope to the same, and the class has a name that neither has. The
scope that makes the declaration of the parameter, too, is no different from the first. -/
theorem bound_alike_of_declared_name :
    let steps : List Step := [.value (.unconstrained "E") (some "e"),
      .value (.unconstrained "T") (some "t"),
      .value (.methodSignature .checked
        [.typeParameter .checked "T" (some (.freeVariable .checked "E")) []]
        [.freeVariable .checked "T"] .voidSignature []) (some "m"),
      .value (.classSignature [.typeParameter .checked "T" (some (.freeVariable .checked "F")) []]
        (.classType .checked none "a" []) []) (some "c")]
    let p := ((start {}).after steps).pool
    let e : TypeTree Nat .typeParameter :=
      .typeParameter 1 "E" (.boundedBy (.refClass (.classType 0 .topLevel objectName .nil))) .nil
    let t : TypeTree Nat .typeParameter :=
      .typeParameter 3 "T" (.boundedBy (.refClass (.classType 0 .topLevel objectName .nil))) .nil
    let m : TypeTree Nat .methodSignature := .methodSignature 7
      (.cons (.typeParameter 5 "T" (.boundedBy (.refVariable (.freeVariable 4 "E"))) .nil) .nil)
      (.cons (.sigReference (.refVariable (.freeVariable 6 "T"))) .nil) .sigVoid .nil
    let d : TypeTree Nat .classSignature := .classSignature 11
      (.cons (.typeParameter 9 "T" (.boundedBy (.refVariable (.freeVariable 8 "F"))) .nil) .nil)
      (.classType 10 .topLevel "a" .nil) .nil
    let b : Scope Nat := Scope.ofParameters [e]
    let b' : Scope Nat := Scope.ofParameters [t, e]
    (∃ r, ((m.bindMethod b : ExceptT TypeError PoolM _).run p).1.map plain = .ok r ∧
      ((m.bindMethod b' : ExceptT TypeError PoolM _).run p).1.map plain = .ok r) ∧
    ((d.bindClass b' : ExceptT TypeError PoolM _).run p).1.map plain =
      .error (.unresolved "F") ∧
    (m.plain.bindMethod b.plain : ExceptT TypeError Id _).run =
      (m.plain.bindMethod .onDemand : ExceptT TypeError Id _).run := by
  intro steps p e t m d b b'
  obtain ⟨hmethod, hclass, hplain⟩ := bound_alike {} {} steps steps b b'
  have hm : b.plain.AgreeBeyond (m.typeParameters.map name) m.unboundNames b'.plain := by
    refine List.forall_mem_cons.mpr ⟨fun _ => rfl, List.forall_mem_singleton.mpr fun h => ?_⟩
    exact absurd (List.mem_singleton_self _) h
  have hd : b.plain.AgreeBeyond (d.typeParameters.map name) d.unboundNames b'.plain :=
    List.forall_mem_singleton.mpr fun _ => rfl
  have hmade : b.plain.AgreeBeyond (m.plain.typeParameters.map name) m.plain.unboundNames
      .onDemand := by
    refine List.forall_mem_cons.mpr ⟨fun _ => rfl, List.forall_mem_singleton.mpr fun h => ?_⟩
    exact absurd (List.mem_singleton_self _) h
  refine ⟨?_, ?_, (hplain b.plain .onDemand).1 m.plain hmade⟩
  · obtain ⟨m', q, hbind⟩ := exists_of_isOk
      (show ((m.bindMethod b : ExceptT TypeError PoolM _).run p).1.isOk = true by decide +kernel)
    have hone : ((m.bindMethod b : ExceptT TypeError PoolM _).run p).1.map plain =
        .ok m'.plain := by rw [hbind]; rfl
    exact ⟨m'.plain, hone,
      (hmethod m m (by decide +kernel) (by decide +kernel) rfl hm).symm.trans hone⟩
  · exact (hclass d d (by decide +kernel) (by decide +kernel) rfl hd).symm

end Session

end ClassfileTypes
