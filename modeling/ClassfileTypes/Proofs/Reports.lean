import ClassfileTypes.Proofs.Erasure
import ClassfileTypes.Tree.Report

/-!
# Reports refine their plain versions

A report asks the pool for trees, and mostly their texts are told. Texts do not show
tags, so the same is told with a pool and without. A report cannot fail, so inside an
evaluation it does what it does outside; for erasure, which may fail, that is said of
its outcome.
-/

namespace ClassfileTypes

namespace Pool

open TypeTree

/-! ## Inside a computation that may fail -/

section

variable {ε α β : Type} {m : Type → Type} [Monad m] [LawfulMonad m]

/-- The outcome is computed without failure. -/
def LiftsTo (x : ExceptT TypeError (ExceptT ε m) α) (x' : ExceptT TypeError m α) : Prop :=
  x.run = ExceptT.lift x'.run

namespace LiftsTo

theorem pure (a : α) :
    LiftsTo (Pure.pure a : ExceptT TypeError (ExceptT ε m) α) (Pure.pure a) :=
  pure_eq_lift (Except.ok a)

theorem throw (e : TypeError) :
    LiftsTo (MonadExcept.throw e : ExceptT TypeError (ExceptT ε m) α) (MonadExcept.throw e) :=
  pure_eq_lift (Except.error e)

theorem bind {x : ExceptT TypeError (ExceptT ε m) α} {x' : ExceptT TypeError m α}
    {k : α → ExceptT TypeError (ExceptT ε m) β} {l : α → ExceptT TypeError m β}
    (hx : LiftsTo x x') (hk : ∀ a, LiftsTo (k a) (l a)) : LiftsTo (x >>= k) (x' >>= l) := by
  refine bind_eq_lift (k := ExceptT.bindCont k) (l := ExceptT.bindCont l) hx ?_
  intro r
  cases r with
  | ok a => exact hk a
  | error e => exact pure_eq_lift (Except.error e)

theorem map {x : ExceptT TypeError (ExceptT ε m) α} {x' : ExceptT TypeError m α} (g : α → β)
    (hx : LiftsTo x x') : LiftsTo (g <$> x) (g <$> x') := by
  rw [← bind_pure_comp, ← bind_pure_comp]
  exact hx.bind fun a => .pure (g a)

theorem checked (x : Except ConstructionError α) :
    LiftsTo (TypeTree.checked x : ExceptT TypeError (ExceptT ε m) α) (TypeTree.checked x) := by
  cases x with
  | ok a => exact .pure a
  | error e => exact .throw (.construction e)

end LiftsTo

theorem mapM_eq_lift {g : α → ExceptT ε m β} {g' : α → m β}
    (hg : ∀ a, g a = ExceptT.lift (g' a)) (l : List α) :
    l.mapM g = ExceptT.lift (l.mapM g') := by
  induction l with
  | nil => exact pure_eq_lift []
  | cons a l ih =>
      rw [List.mapM_cons, List.mapM_cons]
      exact bind_eq_lift (hg a) fun _ => bind_eq_lift ih fun _ => pure_eq_lift _

end

section

variable {ι ε α : Type} {m : Type → Type} [Monad m] [MonadPool ι m] [LawfulPool ι m] {f : Form}

namespace LiftsTo

theorem holding (t : TypeTree ι f) {x : ExceptT TypeError (ExceptT ε m) α}
    {x' : ExceptT TypeError m α} (hx : LiftsTo x x') :
    LiftsTo (MonadPool.holding t x) (MonadPool.holding t x') :=
  holding_eq_lift t hx

theorem intern (draft : ι → TypeTree ι f) :
    LiftsTo (MonadPool.intern draft : ExceptT TypeError (ExceptT ε m) _)
      (MonadPool.intern draft) :=
  map_eq_lift _ rfl

theorem makeClassDescriptor (n : String) :
    LiftsTo (TypeTree.makeClassDescriptor n : ExceptT TypeError (ExceptT ε m) _)
      (TypeTree.makeClassDescriptor n) :=
  (LiftsTo.checked _).bind fun _ => .intern _

theorem makeArrayDescriptor (d : Nat) (b : TypeTree ι .typeDescriptor) :
    LiftsTo (TypeTree.makeArrayDescriptor d b : ExceptT TypeError (ExceptT ε m) _)
      (TypeTree.makeArrayDescriptor d b) :=
  (LiftsTo.checked _).bind fun _ => .intern _

theorem makeMethodDescriptor (ps : TypeTree ι (.list .typeDescriptor))
    (r : TypeTree ι .typeDescriptor) :
    LiftsTo (TypeTree.makeMethodDescriptor ps r : ExceptT TypeError (ExceptT ε m) _)
      (TypeTree.makeMethodDescriptor ps r) :=
  (LiftsTo.checked _).bind fun _ => .intern _

end LiftsTo

/-- Erasure does the same inside a computation that may fail. -/
theorem erase_liftsTo {f : Form} (t : TypeTree ι f) :
    LiftsTo (t.erase : ExceptT TypeError (ExceptT ε m) _) t.erase := by
  match t with
  | .sigReference r => exact erase_liftsTo r
  | .refVariable v => exact erase_liftsTo v
  | .throwsVariable v => exact erase_liftsTo v
  | .boundVariable i d => exact erase_liftsTo d
  | .refClass c => exact (erase_liftsTo c).map _
  | .throwsClass c => exact (erase_liftsTo c).map _
  | .refArray a => exact (erase_liftsTo a).map _
  | .classType i o n as => exact .intern _
  | .arrayType i d b => exact (erase_liftsTo b).bind fun b => .makeArrayDescriptor d b
  | .freeVariable i n => exact .throw _
  | .typeParameter i n (.boundedBy r) is => exact erase_liftsTo r
  | .typeParameter i n .noClassBound (.cons r rs) => exact erase_liftsTo r
  | .typeParameter i n .noClassBound .nil => exact LiftsTo.map _ (.makeClassDescriptor _)
  | .methodSignature i ts ps r es =>
      exact (erase_liftsTo ps).bind fun ps =>
        ((erase_liftsTo r).holding ps).bind fun r => .makeMethodDescriptor ps r
  | .cons x xs =>
      exact (erase_liftsTo x).bind fun x =>
        ((erase_liftsTo xs).holding x).bind fun xs => .pure _
  | .sigPrimitive _ | .sigVoid | .nil | .primitive _ | .descPrimitive _ | .descVoid
  | .descClass _ | .descArray _ | .classDescriptor _ _ | .arrayDescriptor _ _ _
  | .methodDescriptor _ _ _ | .topLevel | .nestedIn _ | .noClassBound | .boundedBy _
  | .wildcard | .argReference _ | .argBounded _ | .boundedArgument _ _ _
  | .classSignature _ _ _ _ => exact .pure _

theorem details_eq_lift {f : Form} (t : TypeTree ι f) :
    (t.details : ExceptT ε m _) = ExceptT.lift t.details := by
  induction t with
  | descClass c ih => exact bind_eq_lift ih fun _ => pure_eq_lift _
  | descArray a ih => exact bind_eq_lift ih fun _ => pure_eq_lift _
  | arrayDescriptor i d b _ =>
      exact bind_eq_lift (descriptorComponent_eq_lift _) fun _ => pure_eq_lift _
  | arrayType i d b _ => exact bind_eq_lift (typeComponent_eq_lift _) fun _ => pure_eq_lift _
  | _ => exact pure_eq_lift _

theorem facts_eq_lift (v : AnyTree ι) (aspect : Aspect) :
    (v.facts aspect : ExceptT ε m _) = ExceptT.lift (v.facts aspect) := by
  cases aspect with
  | views =>
      unfold AnyTree.facts
      by_cases herasable : v.isErasable = true
      · rw [if_pos herasable, if_pos herasable]
        exact bind_eq_lift (erase_liftsTo v.2) fun _ => pure_eq_lift _
      · rw [if_neg herasable, if_neg herasable]
        by_cases hdescriptor : v.1.isDescriptor = true
        · rw [if_pos hdescriptor, if_pos hdescriptor]
          exact bind_eq_lift (raise_eq_lift v.2) fun s =>
            bind_eq_lift (holding_eq_lift s (erase_liftsTo s)) fun _ => pure_eq_lift _
        · rw [if_neg hdescriptor, if_neg hdescriptor]
          exact pure_eq_lift _
  | details => exact bind_eq_lift (details_eq_lift v.2) fun _ => pure_eq_lift _
  | _ => exact pure_eq_lift _

/-- A report does the same inside an evaluation. -/
theorem report_eq_lift (v : AnyTree ι) (aspects : List Aspect) :
    (v.report aspects : ExceptT ε m _) = ExceptT.lift (v.report aspects) :=
  bind_eq_lift (mapM_eq_lift (facts_eq_lift v) aspects) fun _ => pure_eq_lift _

end

end Pool

/-! ## Tags do not matter -/

namespace TypeTree

variable {ι : Type} {f : Form}

section

variable {κ : Type} (g : ι → κ)

@[simp] theorem readable_mapTags (t : TypeTree ι f) : (t.mapTags g).readable = t.readable := by
  induction t with
  | typeParameter i n c is ihc ihis =>
      cases c with
      | noClassBound => simp [mapTags, readable, ihis]
      | boundedBy r =>
          rw [show (TypeTree.boundedBy r).mapTags g = .boundedBy (r.mapTags g) from rfl, readable,
            readable] at ihc
          simp [mapTags, readable, ihc, ihis]
  | _ => simp_all [mapTags, readable]

theorem variableTitle_mapTags (v : TypeTree ι .typeVariable) :
    (v.mapTags g).variableTitle = v.variableTitle := by
  cases v <;> rfl

@[simp] theorem outline_mapTags {f : Form} (t : TypeTree ι f) :
    (t.mapTags g).outline = t.outline := by
  match t with
  | .classType i .topLevel n as => simp [mapTags, outline, outline_mapTags as]
  | .classType i (.nestedIn c) n as =>
      simp [mapTags, outline, outline_mapTags c, outline_mapTags as]
  | .descClass t | .descArray t | .arrayDescriptor _ _ t | .sigReference t | .refClass t
  | .refArray t | .throwsClass t | .nestedIn t | .arrayType _ _ t | .boundVariable _ t
  | .boundedBy t | .argReference t | .argBounded t | .boundedArgument _ _ t =>
      simp [mapTags, outline, outline_mapTags t]
  | .refVariable v | .throwsVariable v =>
      simp [mapTags, outline, variableTitle_mapTags, outline_mapTags v]
  | .methodDescriptor _ t u | .typeParameter _ _ t u | .cons t u =>
      simp [mapTags, outline, outline_mapTags t, outline_mapTags u]
  | .methodSignature i ts ps r es =>
      simp [mapTags, outline, outline_mapTags ts, outline_mapTags ps, outline_mapTags r,
        outline_mapTags es]
  | .classSignature i ts c is =>
      simp [mapTags, outline, outline_mapTags ts, outline_mapTags c, outline_mapTags is]
  | .primitive _ | .descPrimitive _ | .descVoid | .classDescriptor _ _ | .sigPrimitive _
  | .sigVoid | .topLevel | .freeVariable _ _ | .noClassBound | .wildcard | .nil => rfl

theorem slots_mapTags (t : TypeTree ι .typeDescriptor) : (t.mapTags g).slots = t.slots := by
  cases t <;> rfl

theorem parameterSlots_mapTags (t : TypeTree ι .methodDescriptor) :
    (t.mapTags g).parameterSlots = t.parameterSlots := by
  cases t with
  | methodDescriptor i ps r =>
      show (ps.mapTags g).entries.foldl (fun n p => n + slots p) 0 = _
      rw [entries_mapTags]
      refine List.foldl_map.trans ?_
      exact congrArg (fun h => ps.entries.foldl h 0)
        (funext fun n => funext fun p => congrArg (n + ·) (slots_mapTags g p))

theorem bounds_mapTags (t : TypeTree ι .typeParameter) :
    (t.mapTags g).bounds = t.bounds.map (mapTags g) := by
  match t with
  | .typeParameter i n .noClassBound is => exact entries_mapTags g is
  | .typeParameter i n (.boundedBy r) is => exact congrArg (r.mapTags g :: ·) (entries_mapTags g is)

end

@[simp] theorem readable_plain (t : TypeTree ι f) : t.plain.readable = t.readable :=
  readable_mapTags _ t

@[simp] theorem outline_plain (t : TypeTree ι f) : t.plain.outline = t.outline :=
  outline_mapTags _ t

theorem map_internal_bounds (t : TypeTree ι .typeParameter) :
    t.plain.bounds.map internal = t.bounds.map internal := by
  rw [show t.plain.bounds = _ from bounds_mapTags _ t, List.map_map]
  exact List.map_congr_left fun r _ => internal_plain r

end TypeTree

/-- The fact about the tree without its tags. -/
def Fact.plain {ι : Type} : Fact ι → Fact Unit
  | .internal s => .internal s
  | .readable s => .readable s
  | .outline s => .outline s
  | .tree t => .tree t.plain
  | .unboundNames names => .unboundNames names
  | .isFullyBound b => .isFullyBound b
  | .erasure r => .erasure r
  | .signature s b => .signature s b
  | .details ds => .details ds

/-- The trees that a fact shows. -/
def Fact.trees {ι : Type} : Fact ι → List (AnyTree ι)
  | .tree t => [t]
  | _ => []

theorem TypeTree.plain_plain {ι : Type} {f : Form} (t : TypeTree ι f) :
    t.plain.plain = t.plain := by
  unfold plain
  induction t <;> simp_all [mapTags]

/-- Equality as types does not look at tags. -/
theorem AnyTree.isEqual_plain {ι : Type} (v w : AnyTree ι) :
    v.plain.isEqual w.plain = v.isEqual w := by
  have hplain : ∀ v : AnyTree ι, v.plain.plain = v.plain :=
    fun v => congrArg (Sigma.mk v.1) v.2.plain_plain
  rw [Bool.eq_iff_iff, isEqual_iff, isEqual_iff, hplain, hplain]

namespace Pool

/-! ## Reports with a pool and without -/

variable {canonical : Prop} {p : Pool} {f : Form} {α β γ : Type}

/-- A relation between values that has nothing to do with the pool. -/
def Anywhere (R : α → β → Prop) : Pool → α → β → Prop :=
  fun _ a b => R a b

instance (R : α → β → Prop) : Lasting (Anywhere R) where
  congr _ _ h := h

/-- The same fact, about a well-formed tree. -/
structure Tells (a : Fact Nat) (b : Fact Unit) : Prop where
  plain : a.plain = b
  wellFormed : ∀ v ∈ a.trees, v.2.WellFormed

/-- A fact that shows no tree. -/
theorem Tells.text {a : Fact Nat} {b : Fact Unit} (h : a.plain = b) (htrees : a.trees = []) :
    Tells a b :=
  ⟨h, by simp [htrees]⟩

open TypeTree

theorem runs_details {t : TypeTree Nat f} (ht : p.Holds canonical t) :
    Runs canonical (Anywhere Eq) p t.details t.plain.details := by
  induction t with
  | descClass c ih =>
      exact (ih ht.parts).bind fun _ _ _ h => Runs.pure (congrArg _ h)
  | descArray a ih =>
      exact (ih ht.parts).bind fun _ _ _ h => Runs.pure (congrArg _ h)
  | arrayDescriptor i d b _ =>
      apply (runs_descriptorComponent ht).bind
      intro q c _ hc
      have hinternal := internal_plain c
      rw [hc.plain] at hinternal
      exact Runs.pure (congrArg (fun s => [Detail.component s]) hinternal.symm)
  | arrayType i d b _ =>
      apply (runs_typeComponent ht).bind
      intro q c _ hc
      have hinternal := internal_plain c
      rw [hc.plain] at hinternal
      exact Runs.pure (congrArg (fun s => [Detail.component s]) hinternal.symm)
  | methodDescriptor i ps r =>
      exact Runs.pure (congrArg (fun n => [Detail.slots n])
        (parameterSlots_mapTags (fun _ => ()) (.methodDescriptor i ps r)).symm)
  | classType i o n as =>
      exact Runs.pure (congrArg (fun s => [Detail.erasedName s])
        (binaryName_mapTags (fun _ => ()) (.classType i o n as)).symm)
  | typeParameter i n c is =>
      exact Runs.pure (congrArg (fun ss => [Detail.bounds ss])
        (map_internal_bounds (.typeParameter i n c is)).symm)
  | _ => exact Runs.pure rfl

/-- What a tree erases to is told by its text. -/
theorem Tells.erasure {q : Pool} {r : Except TypeError (TypeTree Nat f)}
    {r' : Except TypeError (TypeTree Unit f)} (hr : Outcome (Tagged canonical) q r r') :
    Tells (.erasure (r.map internal)) (.erasure (r'.map internal)) := by
  refine .text (congrArg Fact.erasure (hr.map_eq_map fun t u ht => ?_)) rfl
  rw [← ht.plain, internal_plain]

theorem any_toOption {ε : Type} (r : Except ε α) (h : α → Bool) :
    r.toOption.any h = (r.map h).toOption.getD false := by
  cases r <;> rfl

/-- A signature is told by its text and by whether it erases to the tree. -/
theorem Tells.signature {q : Pool} {g : Form} (v : AnyTree Nat) (s : TypeTree Nat f)
    {r : Except TypeError (TypeTree Nat g)} {r' : Except TypeError (TypeTree Unit g)}
    (hr : Outcome (Tagged canonical) q r r') :
    Tells (.signature s.internal (r.toOption.any fun t => v.isEqual ⟨_, t⟩))
      (.signature s.plain.internal (r'.toOption.any fun t => v.plain.isEqual ⟨_, t⟩)) := by
  have hequal : r.map (fun t => v.isEqual ⟨g, t⟩) = r'.map fun t => v.plain.isEqual ⟨g, t⟩ := by
    refine hr.map_eq_map fun t u ht => ?_
    rw [← ht.plain]
    exact (AnyTree.isEqual_plain v ⟨g, t⟩).symm
  refine .text ?_ rfl
  rw [internal_plain, any_toOption, any_toOption, hequal]
  rfl

/-- The texts of the erasures are told, and of these the tags cannot be told. -/
theorem runs_views {v : AnyTree Nat} (hv : p.Holds canonical v.2) :
    Runs canonical (Anywhere (List.Forall₂ Tells)) p (v.facts .views) (v.plain.facts .views) := by
  unfold AnyTree.facts
  dsimp only
  rw [AnyTree.isErasable_plain]
  by_cases herasable : v.isErasable = true
  · rw [if_pos herasable, if_pos herasable]
    apply Runs.bind (refines_erase hv)
    intro q r _ hr
    exact Runs.pure (.cons (.erasure hr) .nil)
  · rw [if_neg herasable, if_neg herasable]
    by_cases hdescriptor : v.1.isDescriptor = true
    · rw [if_pos hdescriptor, if_pos (show v.plain.1.isDescriptor = true from hdescriptor)]
      apply (runs_raise hv).bind
      intro q s _ hs
      rw [← hs.plain]
      apply (Runs.holding (u := s.plain) hs.good (refines_erase hs.good.holds_hold)).bind
      rintro q' r _ ⟨hr, -⟩
      exact Runs.pure (.cons (.signature v s hr) .nil)
    · rw [if_neg hdescriptor, if_neg (show ¬ v.plain.1.isDescriptor = true from hdescriptor)]
      exact Runs.pure .nil

theorem runs_facts {v : AnyTree Nat} (hv : p.Holds canonical v.2) (aspect : Aspect) :
    Runs canonical (Anywhere (List.Forall₂ Tells)) p (v.facts aspect) (v.plain.facts aspect) := by
  have htext : ∀ {a : Fact Nat} {b : Fact Unit}, a.plain = b → a.trees = [] →
      Runs canonical (Anywhere (List.Forall₂ Tells)) p (pure [a]) (pure [b]) :=
    fun h htrees => Runs.pure (.cons (.text h htrees) .nil)
  cases aspect with
  | internal => exact htext (congrArg Fact.internal (internal_plain v.2).symm) rfl
  | readable => exact htext (congrArg Fact.readable (readable_plain v.2).symm) rfl
  | outline => exact htext (congrArg Fact.outline (outline_plain v.2).symm) rfl
  | tree =>
      refine Runs.pure (.cons ⟨rfl, ?_⟩ .nil)
      exact List.forall_mem_singleton.mpr hv.good.wellFormed
  | unbound =>
      unfold AnyTree.facts
      by_cases hbindable : v.1.isBindable = true
      · have hnames : v.2.unboundNames = v.plain.2.unboundNames :=
          congrArg List.eraseDups (freeNames_plain v.2).symm
        have hbound : v.2.isFullyBound = v.plain.2.isFullyBound :=
          congrArg List.isEmpty (freeNames_plain v.2).symm
        rw [if_pos hbindable, if_pos (show v.plain.1.isBindable = true from hbindable)]
        exact Runs.pure (.cons (.text (congrArg Fact.unboundNames hnames) rfl)
          (.cons (.text (congrArg Fact.isFullyBound hbound) rfl) .nil))
      · rw [if_neg hbindable, if_neg (show ¬ v.plain.1.isBindable = true from hbindable)]
        exact Runs.pure .nil
  | views => exact runs_views hv
  | details =>
      apply (runs_details hv).bind
      rintro q ds _ rfl
      split_ifs
      · exact Runs.pure .nil
      · exact Runs.pure (.cons (.text rfl rfl) .nil)

/-- Computations for the entries of a list, one after the other. -/
theorem Runs.mapM {R : β → γ → Prop} {x : α → PoolM β} {y : α → Id γ} (l : List α)
    (hx : ∀ a ∈ l, ∀ q, p.Extends q → Runs canonical (Anywhere R) q (x a) (y a)) :
    Runs canonical (Anywhere (List.Forall₂ R)) p (l.mapM x) (l.mapM y) := by
  induction l generalizing p with
  | nil => exact Runs.pure .nil
  | cons a l ih =>
      rw [List.mapM_cons, List.mapM_cons]
      apply (hx a List.mem_cons_self p (Extends.refl p)).bind
      intro q b hext hb
      apply Runs.bind
      · apply ih
        intro a' ha' q' hext'
        exact hx a' (List.mem_cons_of_mem _ ha') q' (hext.trans hext')
      · exact fun _ _ _ hbs => Runs.pure (.cons hb hbs)

/-- **A report.** -/
theorem runs_report {v : AnyTree Nat} (hv : p.Holds canonical v.2) (aspects : List Aspect) :
    Runs canonical (Anywhere (List.Forall₂ Tells)) p (v.report aspects)
      (v.plain.report aspects) := by
  apply Runs.bind
  · exact Runs.mapM aspects fun a _ q hext => runs_facts (hext.holds hv) a
  · exact fun _ _ _ h => Runs.pure (List.rel_flatten h)

end Pool

end ClassfileTypes
