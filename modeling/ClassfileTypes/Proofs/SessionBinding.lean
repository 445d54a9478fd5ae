import ClassfileTypes.Proofs.DeclaredErasure
import ClassfileTypes.Proofs.Identity
import ClassfileTypes.Proofs.StrictOperations

/-!
# Binding in sessions

A session may bind a tree if it holds the tree, and with it the declarations that the
scope has for the names in the tree. Then the outcome is the one without a pool. There,
nothing is held, and a scope may as well make its declarations when it is asked for them.
-/

namespace ClassfileTypes

/-! ## Trees that a session holds -/

namespace TypeTree

variable {ι : Type} {f : Form}

/-- A tree that is not composite is well formed if its parts are. -/
theorem wellFormed_of_parts {t : TypeTree ι f} (htag : t.tag? = none)
    (hparts : ∀ x ∈ t.parts, x.2.WellFormed) : t.WellFormed := by
  cases t <;> simp_all [tag?, parts, WellFormed]

/-- A tree is well formed if the composite trees that it reaches are. -/
theorem wellFormed_of_nodes {t : TypeTree ι f} (h : ∀ v ∈ t.nodes, v.2.WellFormed) :
    t.WellFormed := by
  induction t using partsInduction with
  | step t ih =>
      cases htag : t.tag? with
      | some i => exact h _ (self_mem_nodes htag)
      | none =>
          refine wellFormed_of_parts htag fun x hx => ih x hx fun v hv => ?_
          exact h v (mem_nodes_iff_parts.mpr (Or.inr ⟨x, hx, hv⟩))

end TypeTree

namespace Session

open Pool

variable {canonical : Prop} {s : Session} {f : Form}

/-- Everything composite in the tree is reached by the registers. -/
def Holds (s : Session) (t : TypeTree Nat f) : Prop :=
  ∀ v ∈ t.nodes, s.Reaches v

instance (s : Session) (t : TypeTree Nat f) : Decidable (s.Holds t) :=
  inferInstanceAs (Decidable (∀ v ∈ t.nodes, s.Reaches v))

theorem Valid.holds_tree (h : s.Valid canonical) {t : TypeTree Nat f} (ht : s.Holds t) :
    s.pool.Holds canonical t := by
  have htags : ∀ i ∈ t.tags, ∃ e ∈ s.registers, i ∈ e.2.2.tags := by
    intro i hi
    obtain ⟨v, hv, htag⟩ := TypeTree.mem_tags_iff.mp hi
    obtain ⟨e, he, hev⟩ := ht v hv
    exact ⟨e, he, TypeTree.mem_tags_iff.mpr ⟨v, hev, htag⟩⟩
  refine ⟨⟨?_, ?_, ?_⟩, ?_⟩
  · exact TypeTree.wellFormed_of_nodes fun v hv => h.wellFormed_of_reaches (ht v hv)
  · intro i hi
    obtain ⟨e, he, hei⟩ := htags i hi
    exact (h.holds e he).good.older i hei
  · exact fun hc v hv => h.registers_of_reaches hc (ht v hv)
  · intro i hi
    obtain ⟨e, he, hei⟩ := htags i hi
    exact (h.holds e he).kept i hei

/-- A tree together with the declarations that a scope has for the names in it. -/
structure HoldsFor (s : Session) (t : TypeTree Nat f) (b : Scope Nat) : Prop where
  tree : s.Holds t
  declarations : ∀ x ∈ t.unboundNames, ∀ d ∈ b x, s.Holds d

instance (s : Session) (t : TypeTree Nat f) (b : Scope Nat) : Decidable (s.HoldsFor t b) :=
  decidable_of_iff (s.Holds t ∧ ∀ x ∈ t.unboundNames, ∀ d ∈ b x, s.Holds d)
    ⟨fun h => ⟨h.1, h.2⟩, fun h => ⟨h.tree, h.declarations⟩⟩

end Session

/-! ## Scopes of the names that are asked for -/

namespace Scope

variable {ι : Type}

/-- The scope with no other names. -/
def only (names : List String) (b : Scope ι) : Scope ι :=
  fun x => if x ∈ names then b x else none

/-- The scope without tags. -/
def plain (b : Scope ι) : Scope Unit :=
  fun x => (b x).map TypeTree.plain

theorem only_of_mem {names : List String} {x : String} (b : Scope ι) (h : x ∈ names) :
    b.only names x = b x :=
  if_pos h

/-- There are no other names to ask for. -/
theorem eq_only (b : Scope ι) {f : Form} (t : TypeTree ι f) :
    ∀ x ∈ t.freeNames, b x = b.only t.unboundNames x :=
  fun _ hx => (only_of_mem b (List.mem_eraseDups.mpr hx)).symm

/-- The scope that makes a declaration for each name that it is asked for. -/
def onDemand : Scope Unit :=
  fun x => (TypeTree.makeUnconstrained x : ExceptT TypeError Id _).run.toOption

theorem eq_of_onDemand {x : String} {d : TypeTree Unit .typeParameter}
    (h : onDemand x = some d) : Name.IsSimpleName x ∧
      d = .typeParameter () x
        (.boundedBy (.refClass (.classType () .topLevel TypeTree.objectName .nil))) .nil := by
  cases hmake : (TypeTree.makeUnconstrained x : ExceptT TypeError Id _).run with
  | error e => simp [onDemand, hmake, Except.toOption] at h
  | ok d' =>
      simp only [onDemand, hmake, Except.toOption, Option.some.injEq] at h
      subst h
      obtain ⟨c, hc, hmake⟩ := run_bind_eq_ok.mp hmake
      obtain ⟨hname, -, rfl⟩ := TypeTree.eq_of_makeTypeParameter hmake
      obtain rfl := Except.ok.inj hc
      have hobject : String.ofList (Name.slashed TypeTree.objectName.toList) =
          TypeTree.objectName := by decide +kernel
      exact ⟨hname, by rw [hobject]; rfl⟩

theorem wellFormed_onDemand : onDemand.WellFormed := by
  intro x d hd
  obtain ⟨hname, rfl⟩ := eq_of_onDemand hd
  have hobject : Name.IsClassName TypeTree.objectName :=
    Name.isClassName_of_classNameOf (n := TypeTree.objectName) (by decide +kernel)
  exact ⟨hname, Bool.noConfusion, ⟨hobject, trivial, trivial⟩, trivial⟩

end Scope

namespace Pool

variable {canonical : Prop} {p q : Pool} {f : Form} {ε : Type}

/-- What refines a computation has its outcome, without the tags. -/
theorem Refines.map_plain {x : ExceptT ε PoolM (TypeTree Nat f)}
    {y : ExceptT ε Id (TypeTree Unit f)} (h : Refines canonical (Tagged canonical) p x y)
    (hs : Sound canonical p) : (x.run p).1.map TypeTree.plain = y.run := by
  obtain ⟨-, -, hR⟩ := h hs
  exact hR.map_eq fun a b hab => hab.plain

/-- A run with a pool that succeeds does so without, and what it gives is a tree of the
pool. -/
theorem Refines.of_ok {x : ExceptT ε PoolM (TypeTree Nat f)}
    {y : ExceptT ε Id (TypeTree Unit f)} (h : Refines canonical (Tagged canonical) p x y)
    (hs : Sound canonical p) {t : TypeTree Nat f} (hrun : x.run p = (.ok t, q)) :
    Sound canonical q ∧ p.Extends q ∧ q.Good canonical t ∧ y.run = .ok t.plain := by
  have hplain := h.map_plain hs
  obtain ⟨hsound, hext, hR⟩ := h hs
  rw [hrun] at hplain hsound hext hR
  rw [← hplain] at hR
  exact ⟨hsound, hext, hR.good, hplain.symm⟩

/-- Without tags a scope of trees that are held is a scope of well-formed trees. -/
theorem HoldsScope.wellFormed_plain {b : Scope Nat} (h : HoldsScope canonical p b b.plain)
    (x : String) (d : TypeTree Unit .typeParameter) (hd : b.plain x = some d) : d.WellFormed := by
  obtain ⟨d', hd', rfl⟩ := Option.map_eq_some_iff.mp hd
  exact (TypeTree.wellFormed_plain d').mpr (h.held x d' hd').good.wellFormed

end Pool

namespace Session

open Pool TypeTree

variable {canonical : Prop} {s : Session} {f : Form} {b : Scope Nat}

namespace HoldsFor

variable {t : TypeTree Nat f}

/-- The declarations that are asked for are held. -/
theorem holdsScope (h : s.HoldsFor t b) (hs : s.Valid canonical) :
    HoldsScope canonical s.pool (b.only t.unboundNames) (b.only t.unboundNames).plain where
  held x d hd := by
    unfold Scope.only at hd
    split_ifs at hd with hx
    exact hs.holds_tree (h.declarations x hx d hd)
  agrees _ := rfl

theorem wellFormed_plain (h : s.HoldsFor t b) (hs : s.Valid canonical) : t.plain.WellFormed :=
  (TypeTree.wellFormed_plain t).mpr (hs.holds_tree h.tree).good.wellFormed

/-- Binding in the scope has the outcome that it has without a pool. -/
theorem refines_bind (h : s.HoldsFor t b) (hs : s.Valid canonical) :
    Refines canonical (Tagged canonical) s.pool (t.bind b)
      (t.plain.bind (b.only t.unboundNames).plain) := by
  rw [TypeTree.bind_congr (Scope.eq_only b t)]
  exact Pool.refines_bind (hs.holds_tree h.tree) (h.holdsScope hs)

theorem refines_bindMethod {t : TypeTree Nat .methodSignature} (h : s.HoldsFor t b)
    (hs : s.Valid canonical) :
    Refines canonical (Tagged canonical) s.pool (t.bindMethod b)
      (t.plain.bindMethod (b.only t.unboundNames).plain) := by
  rw [bindMethod_congr (Scope.eq_only b t)]
  exact Pool.refines_bindMethod (hs.holds_tree h.tree) (h.holdsScope hs)

theorem refines_bindClass {t : TypeTree Nat .classSignature} (h : s.HoldsFor t b)
    (hs : s.Valid canonical) :
    Refines canonical (Tagged canonical) s.pool (t.bindClass b)
      (t.plain.bindClass (b.only t.unboundNames).plain) := by
  rw [bindClass_congr (Scope.eq_only b t)]
  exact Pool.refines_bindClass (hs.holds_tree h.tree) (h.holdsScope hs)

theorem refines_resolve {t : TypeTree Nat (.list .typeParameter)} (h : s.HoldsFor t b)
    (hs : s.Valid canonical) :
    Refines canonical (Tagged canonical) s.pool (resolve t b)
      (resolve t.plain (b.only t.unboundNames).plain) := by
  rw [resolve_congr (Scope.eq_only b t)]
  exact Pool.refines_resolve (hs.holds_tree h.tree) (h.holdsScope hs)

/-- What refines a computation that asks for the names of the tree asks for them, too. -/
theorem resolves_of_refines (declared : String → Bool) (hs : Sound canonical s.pool)
    {x : ExceptT TypeError PoolM (TypeTree Nat f)} {y : ExceptT TypeError Id (TypeTree Unit f)}
    (h : Refines canonical (Tagged canonical) s.pool x y)
    (hy : Resolves (fun x => declared x || ((b.only t.unboundNames).plain x).isSome)
      t.plain.freeNames y.run) :
    Resolves (fun x => declared x || (b x).isSome) t.unboundNames (x.run s.pool).1 := by
  rw [← h.map_plain hs, freeNames_plain] at hy
  refine (hy.of_map.congr fun x hx => ?_).eraseDups
  rw [Scope.eq_only b t x hx, Scope.plain, Option.isSome_map]

end HoldsFor

/-- **Binding succeeds if every name can be resolved.** In every session a tree and a
declaration is bound if the scope has a declaration for each of its names, where a
declaration resolves the names of its type parameters itself. Otherwise the error is
about the first name that cannot be resolved. Without a pool that is so in every scope: the
declarations may be made when they are asked for. -/
theorem resolves_unboundNames (c : Intern.Config) (steps : List Step) (b : Scope Nat) :
    let s := (start c).after steps
    (∀ {f : Form} (t : TypeTree Nat f), s.HoldsFor t b →
      Resolves (fun x => (b x).isSome) t.unboundNames
        ((t.bind b : ExceptT TypeError PoolM _).run s.pool).1) ∧
    (∀ t : TypeTree Nat .methodSignature, s.HoldsFor t b →
      Resolves (fun x => t.declares x || (b x).isSome) t.unboundNames
        ((t.bindMethod b : ExceptT TypeError PoolM _).run s.pool).1) ∧
    (∀ t : TypeTree Nat .classSignature, s.HoldsFor t b →
      Resolves (fun x => t.declares x || (b x).isSome) t.unboundNames
        ((t.bindClass b : ExceptT TypeError PoolM _).run s.pool).1) ∧
    ∀ b' : Scope Unit,
      (∀ {f : Form} (t : TypeTree Unit f), t.WellFormed →
        Resolves (fun x => (b' x).isSome) t.unboundNames
          (t.bind b' : ExceptT TypeError Id _).run) ∧
      (∀ t : TypeTree Unit .methodSignature, t.WellFormed →
        Resolves (fun x => t.declares x || (b' x).isSome) t.unboundNames
          (t.bindMethod b' : ExceptT TypeError Id _).run) ∧
      ∀ t : TypeTree Unit .classSignature, t.WellFormed →
        Resolves (fun x => t.declares x || (b' x).isSome) t.unboundNames
          (t.bindClass b' : ExceptT TypeError Id _).run := by
  intro s
  have hs : s.Valid False := valid_after_start c steps
  refine ⟨fun t ht => ?_, fun t ht => ?_, fun t ht => ?_, fun b' => ⟨fun t ht => ?_,
    fun t ht => ?_, fun t ht => ?_⟩⟩
  · refine HoldsFor.resolves_of_refines (fun _ => false) hs.sound (ht.refines_bind hs) ?_
    exact resolves_bind (ht.wellFormed_plain hs)
  · refine HoldsFor.resolves_of_refines t.declares hs.sound (ht.refines_bindMethod hs) ?_
    simp only [← declares_plain t]
    exact resolves_bindMethod (ht.wellFormed_plain hs)
  · refine HoldsFor.resolves_of_refines t.declares hs.sound (ht.refines_bindClass hs) ?_
    simp only [← declares_plain t]
    exact resolves_bindClass (ht.wellFormed_plain hs)
  · exact (resolves_bind ht).eraseDups
  · exact (resolves_bindMethod ht).eraseDups
  · exact (resolves_bindClass ht).eraseDups

/-- The result of the method names no type parameter. In the scope that makes a declaration
for every name it is bound. -/
theorem resolves_unboundNames_of_unknown_result :
    let steps : List Step := [.value (.unconstrained "T") (some "t"),
      .value (.typeParameter .checked "U" (some (.freeVariable .checked "T")) []) (some "u"),
      .value (.methodSignature .checked [.register "u"] [] (.freeVariable .checked "V") [])
        (some "m"),
      .value (.classSignature [.register "u"] (.classType .checked none "a" []) []) (some "c")]
    let p := ((start {}).after steps).pool
    let b : Scope Nat := Scope.ofParameters
      [.typeParameter 1 "T" (.boundedBy (.refClass (.classType 0 .topLevel objectName .nil))) .nil]
    let u : TypeTree Nat .typeParameter :=
      .typeParameter 3 "U" (.boundedBy (.refVariable (.freeVariable 2 "T"))) .nil
    let m : TypeTree Nat .methodSignature := .methodSignature 5 (.cons u .nil) .nil
      (.sigReference (.refVariable (.freeVariable 4 "V"))) .nil
    ((TypeTree.bind b u : ExceptT TypeError PoolM _).run p).1.isOk = true ∧
      ((bindMethod b m : ExceptT TypeError PoolM _).run p).1 = .error (.unresolved "V") ∧
      ((bindClass b (.classSignature 7 (.cons u .nil) (.classType 6 .topLevel "a" .nil) .nil) :
        ExceptT TypeError PoolM _).run p).1.isOk = true ∧
      (bindMethod .onDemand m.plain : ExceptT TypeError Id _).run.isOk = true := by
  intro steps p b u m
  obtain ⟨hbind, hmethod, hclass, hplain⟩ := resolves_unboundNames {} steps b
  have hm : ((start {}).after steps).HoldsFor m b := by decide +kernel
  have hwf : m.plain.WellFormed := hm.wellFormed_plain (valid_after_start {} steps)
  obtain ⟨d, hd⟩ := (hbind u (by decide +kernel)).ok_iff.mpr (by decide +kernel)
  have hv := ((hmethod m hm).error_iff _).mpr ⟨"V", by decide +kernel, rfl⟩
  obtain ⟨c, hc⟩ := (hclass (.classSignature 7 (.cons u .nil)
    (.classType 6 .topLevel "a" .nil) .nil) (by decide +kernel)).ok_iff.mpr (by decide +kernel)
  obtain ⟨m', hm'⟩ := ((hplain .onDemand).2.1 m.plain hwf).ok_iff.mpr (by decide +kernel)
  exact ⟨by rw [hd]; rfl, hv, by rw [hc]; rfl, by rw [hm']; rfl⟩

/-! ## Erasure of methods that are bound -/

/-- What refines the erasure of a method has its outcome. -/
theorem erasesAlong_of_refines {p : Pool} (hs : Sound canonical p)
    {x : ExceptT TypeError PoolM (TypeTree Nat .methodDescriptor)}
    {t : TypeTree Unit .methodSignature} (h : Refines canonical (Tagged canonical) p x t.erase)
    {ps : List (TypeTree Unit .typeParameter)} {outer : Scope Unit}
    {ts : List (TypeTree Unit .typeSignature)}
    (ht : ErasesAlong ps outer ts descriptorTypes t.methodErasure) :
    ErasesAlong ps outer ts (fun e => e.plain.descriptorTypes) (x.run p).1 := by
  refine .of_map (g := TypeTree.plain) ?_
  rw [h.map_plain hs]
  exact ht

/-- Without a pool the outer scope is asked only for the names of the method. -/
theorem HoldsFor.erasesAlong (hs : s.Valid canonical) {m : TypeTree Nat .methodSignature}
    (hm : s.HoldsFor m b) (hu : m.Unbound) {t : TypeTree Unit .methodSignature}
    (h : (m.plain.bindMethod (b.only m.unboundNames).plain : ExceptT TypeError Id _).run =
      .ok t) :
    ErasesAlong m.plain.typeParameters b.plain m.plain.signatureTypes descriptorTypes
      t.methodErasure := by
  have hwf := hm.wellFormed_plain hs
  have hu' := (unbound_plain m).mpr hu
  have hscope := hm.holdsScope hs
  refine (methodErasure_of_bindMethod hwf hu' hscope.wellFormed_plain h).congr
    fun t ht y hmeets => ?_
  have hy := mem_freeNames_of_meets hwf hu' ht hmeets
  rw [freeNames_plain] at hy
  exact congrArg (Option.map TypeTree.plain) (Scope.eq_only b m y hy).symm

/-- **A method that is bound in its own scope erases along its declarations.** In every
session, if a method whose variables are only named is bound in its own scope and an outer
one, the outcome of its erasure is the one that the walks from its types say. It is the
same at once and in any session that holds the bound method. Without a pool the outer scope
may make its declarations when it is asked for them. -/
theorem erasesAlong_of_bindMethod (c : Intern.Config) (steps : List Step) :
    (∀ (b : Scope Nat) (m : TypeTree Nat .methodSignature), m.Unbound →
      ((start c).after steps).HoldsFor m b → ∀ (t : TypeTree Nat .methodSignature) (q : Pool),
      (m.bindMethod b : ExceptT TypeError PoolM _).run ((start c).after steps).pool =
        (.ok t, q) →
      let erasesAlong := ErasesAlong m.plain.typeParameters b.plain m.plain.signatureTypes
        fun e : TypeTree Nat .methodDescriptor => e.plain.descriptorTypes
      erasesAlong ((MonadPool.holding t t.erase : ExceptT TypeError PoolM _).run q).1 ∧
        ∀ (c' : Intern.Config) (steps' : List Step) (t' : TypeTree Nat .methodSignature),
          let s' := (start c').after steps'
          s'.Holds t' → t'.plain = t.plain →
            erasesAlong ((t'.erase : ExceptT TypeError PoolM _).run s'.pool).1) ∧
    ∀ (b : Scope Unit) (m : TypeTree Unit .methodSignature), m.Unbound → m.WellFormed →
      b.WellFormed → ∀ t : TypeTree Unit .methodSignature,
      (m.bindMethod b : ExceptT TypeError Id _).run = .ok t →
      ErasesAlong m.typeParameters b m.signatureTypes descriptorTypes
        (t.erase : ExceptT TypeError Id _).run := by
  refine ⟨fun b m hu hm t q hbind => ?_,
    fun b m hu hwf hb t hbind => methodErasure_of_bindMethod hwf hu hb hbind⟩
  intro erasesAlong
  have hs : ((start c).after steps).Valid False := valid_after_start c steps
  -- The method is bound without a pool, too.
  obtain ⟨hsound, -, hgood, hplain⟩ := (hm.refines_bindMethod hs).of_ok hs.sound hbind
  have hwalks := hm.erasesAlong hs hu hplain
  constructor
  · exact erasesAlong_of_refines hsound
      (Refines.held (u := t.plain) hgood (refines_erase hgood.holds_hold)) hwalks
  · intro c' steps' t' s' ht' heq
    have hs' : s'.Valid False := valid_after_start c' steps'
    rw [← heq] at hwalks
    exact erasesAlong_of_refines hs'.sound (refines_erase (hs'.holds_tree ht')) hwalks

theorem exists_of_isOk {ε α σ : Type} {x : Except ε α × σ} (h : x.1.isOk = true) :
    ∃ a q, x = (.ok a, q) := by
  obtain ⟨r, q⟩ := x
  cases r with
  | ok a => exact ⟨a, q, rfl⟩
  | error e => exact nomatch h

/-- The parameter takes both declarations to come to the outer one, which is held, or is made
when it is asked for. -/
theorem erasesAlong_of_bindMethod_chain :
    let steps : List Step := [.value (.unconstrained "E") (some "e"),
      .value (.methodSignature .checked
        [.typeParameter .checked "T" (some (.freeVariable .checked "U")) [],
          .typeParameter .checked "U" none [.freeVariable .checked "E"]]
        [.freeVariable .checked "T"] .voidSignature []) (some "m")]
    let b : Scope Nat := Scope.ofParameters
      [.typeParameter 1 "E" (.boundedBy (.refClass (.classType 0 .topLevel objectName .nil))) .nil]
    let m : TypeTree Nat .methodSignature := .methodSignature 7
      (.cons (.typeParameter 3 "T" (.boundedBy (.refVariable (.freeVariable 2 "U"))) .nil)
        (.cons (.typeParameter 5 "U" .noClassBound
          (.cons (.refVariable (.freeVariable 4 "E")) .nil)) .nil))
      (.cons (.sigReference (.refVariable (.freeVariable 6 "T"))) .nil) .sigVoid .nil
    (∃ t q, (m.bindMethod b : ExceptT TypeError PoolM _).run ((start {}).after steps).pool =
      (.ok t, q) ∧
      ((MonadPool.holding t t.erase : ExceptT TypeError PoolM _).run q).1.isOk = true) ∧
    ∃ t, (m.plain.bindMethod .onDemand : ExceptT TypeError Id _).run = .ok t ∧
      (t.erase : ExceptT TypeError Id _).run.isOk = true := by
  intro steps b m
  obtain ⟨hsession, hplain⟩ := erasesAlong_of_bindMethod {} steps
  have hu : m.Unbound :=
    ⟨⟨⟨trivial, trivial⟩, ⟨trivial, trivial, trivial⟩, trivial⟩, ⟨trivial, trivial⟩, trivial,
      trivial⟩
  have hm : ((start {}).after steps).HoldsFor m b := by decide +kernel
  have hwf : m.plain.WellFormed := hm.wellFormed_plain (valid_after_start {} steps)
  -- The walks are the same in both scopes.
  let e : TypeTree Unit .typeParameter :=
    .typeParameter () "E" (.boundedBy (.refClass (.classType () .topLevel objectName .nil))) .nil
  have hwalks : ∀ outer : Scope Unit, outer "E" = some e →
      ∀ t ∈ m.plain.signatureTypes, WalkSucceeds m.plain.typeParameters outer t := by
    intro outer he
    have hwalk : Walk m.plain.typeParameters outer (.name "T") 0
        (.descClass (.classDescriptor () objectName)) :=
      .declared (r := .refVariable (.freeVariable () "U")) (n := 0) rfl
        (.declared (r := .refVariable (.freeVariable () "E")) (n := 0) rfl
          (.outer (e := .descClass (.classDescriptor () objectName)) rfl he rfl))
    refine List.forall_mem_cons.mpr
      ⟨hwalk.succeeds (Nat.zero_le _), List.forall_mem_singleton.mpr ?_⟩
    exact Walk.succeeds (.descriptor .descVoid) (Nat.zero_le _)
  constructor
  · obtain ⟨t, q, hbind⟩ := exists_of_isOk (show ((m.bindMethod b : ExceptT TypeError PoolM _).run
      ((start {}).after steps).pool).1.isOk = true by decide +kernel)
    obtain ⟨d, hd⟩ := (hsession b m hu hm t q hbind).1.ok_iff.mpr (hwalks b.plain rfl)
    exact ⟨t, q, hbind, by rw [hd]; rfl⟩
  · obtain ⟨t, hbind⟩ : ∃ t, (m.plain.bindMethod .onDemand : ExceptT TypeError Id _).run =
        .ok t := ⟨_, rfl⟩
    obtain ⟨d, hd⟩ := (hplain .onDemand m.plain ((unbound_plain m).mpr hu) hwf
      Scope.wellFormed_onDemand t hbind).ok_iff.mpr (hwalks .onDemand rfl)
    exact ⟨t, hbind, by rw [hd]; rfl⟩

end Session

end ClassfileTypes
