import ClassfileTypes.Proofs.Refinement
import ClassfileTypes.Tree.Construct

/-!
# The checked constructions refine their plain versions

A tree of the pool is put together from trees of the pool. Forms with alternatives
and lists are put together in place, composite trees are asked for; what a
construction has checked is what makes the tree well formed.
-/

namespace ClassfileTypes.Pool

open TypeTree

variable {canonical : Prop} {p : Pool} {f g : Form}

/-! ## In place -/

/-- A tree without a tag is of the pool if its parts are. -/
theorem Good.of_parts {t : TypeTree Nat f} (htag : t.tag? = none) (hwf : t.WellFormed)
    (hparts : ∀ x ∈ t.parts, p.Good canonical x.2) : p.Good canonical t := by
  refine ⟨hwf, ?_, ?_⟩
  · intro i hi
    rcases mem_tags_iff_parts.mp hi with hself | ⟨x, hx, hi⟩
    · rw [htag] at hself
      exact absurd hself (by simp)
    · exact (hparts x hx).older i hi
  · intro hc v hv
    rcases mem_nodes_iff_parts.mp hv with ⟨-, hself⟩ | ⟨x, hx, hv⟩
    · rw [htag] at hself
      exact absurd hself (by simp)
    · exact (hparts x hx).registered hc v hv

/-- A tree without tags is of every pool. -/
theorem Tagged.leaf {t : TypeTree Nat f} {u : TypeTree Unit f} (htag : t.tag? = none)
    (hparts : t.parts = []) (hwf : t.WellFormed) (hplain : t.plain = u) :
    Tagged canonical p t u := by
  refine ⟨.of_parts htag hwf ?_, hplain⟩
  rw [hparts]
  exact fun _ hx => absurd hx List.not_mem_nil

/-- A tree that stands for another form. -/
theorem Tagged.wrap {w : ∀ {ι : Type}, TypeTree ι f → TypeTree ι g} {t : TypeTree Nat f}
    {u : TypeTree Unit f} (h : Tagged canonical p t u) (htag : (w t).tag? = none)
    (hparts : (w t).parts = [⟨f, t⟩]) (hwf : t.WellFormed → (w t).WellFormed)
    (hplain : (w t).plain = w t.plain) : Tagged canonical p (w t) (w u) := by
  refine ⟨.of_parts htag (hwf h.good.wellFormed) ?_, by rw [hplain, h.plain]⟩
  rw [hparts]
  intro x hx
  obtain rfl := List.mem_singleton.mp hx
  exact h.good

theorem Tagged.descClass {t : TypeTree Nat .classDescriptor} {u} (h : Tagged canonical p t u) :
    Tagged canonical p (.descClass t) (.descClass u) :=
  h.wrap (w := .descClass) rfl rfl id rfl

theorem Tagged.descArray {t : TypeTree Nat .arrayDescriptor} {u} (h : Tagged canonical p t u) :
    Tagged canonical p (.descArray t) (.descArray u) :=
  h.wrap (w := .descArray) rfl rfl id rfl

theorem Tagged.sigReference {t : TypeTree Nat .referenceType} {u} (h : Tagged canonical p t u) :
    Tagged canonical p (.sigReference t) (.sigReference u) :=
  h.wrap (w := .sigReference) rfl rfl id rfl

theorem Tagged.refClass {t : TypeTree Nat .classType} {u} (h : Tagged canonical p t u) :
    Tagged canonical p (.refClass t) (.refClass u) :=
  h.wrap (w := .refClass) rfl rfl id rfl

theorem Tagged.refArray {t : TypeTree Nat .arrayType} {u} (h : Tagged canonical p t u) :
    Tagged canonical p (.refArray t) (.refArray u) :=
  h.wrap (w := .refArray) rfl rfl id rfl

theorem Tagged.refVariable {t : TypeTree Nat .typeVariable} {u} (h : Tagged canonical p t u) :
    Tagged canonical p (.refVariable t) (.refVariable u) :=
  h.wrap (w := .refVariable) rfl rfl id rfl

theorem Tagged.throwsClass {t : TypeTree Nat .classType} {u} (h : Tagged canonical p t u) :
    Tagged canonical p (.throwsClass t) (.throwsClass u) :=
  h.wrap (w := .throwsClass) rfl rfl id rfl

theorem Tagged.throwsVariable {t : TypeTree Nat .typeVariable} {u} (h : Tagged canonical p t u) :
    Tagged canonical p (.throwsVariable t) (.throwsVariable u) :=
  h.wrap (w := .throwsVariable) rfl rfl id rfl

theorem Tagged.nestedIn {t : TypeTree Nat .classType} {u} (h : Tagged canonical p t u) :
    Tagged canonical p (.nestedIn t) (.nestedIn u) :=
  h.wrap (w := .nestedIn) rfl rfl id rfl

theorem Tagged.boundedBy {t : TypeTree Nat .referenceType} {u} (h : Tagged canonical p t u) :
    Tagged canonical p (.boundedBy t) (.boundedBy u) :=
  h.wrap (w := .boundedBy) rfl rfl id rfl

theorem Tagged.argReference {t : TypeTree Nat .referenceType} {u} (h : Tagged canonical p t u) :
    Tagged canonical p (.argReference t) (.argReference u) :=
  h.wrap (w := .argReference) rfl rfl id rfl

theorem Tagged.argBounded {t : TypeTree Nat .boundedArgument} {u} (h : Tagged canonical p t u) :
    Tagged canonical p (.argBounded t) (.argBounded u) :=
  h.wrap (w := .argBounded) rfl rfl id rfl

theorem Tagged.nil : Tagged canonical p (.nil : TypeTree Nat (.list f)) .nil :=
  .leaf rfl rfl trivial rfl

theorem Tagged.cons {x : TypeTree Nat f} {xs : TypeTree Nat (.list f)} {x' xs'}
    (hx : Tagged canonical p x x') (hxs : Tagged canonical p xs xs') :
    Tagged canonical p (.cons x xs) (.cons x' xs') := by
  refine ⟨.of_parts rfl ⟨hx.good.wellFormed, hxs.good.wellFormed⟩ ?_, ?_⟩
  · simp only [parts, List.forall_mem_cons]
    exact ⟨hx.good, hxs.good, fun _ h => absurd h List.not_mem_nil⟩
  · rw [← hx.plain, ← hxs.plain]
    rfl

theorem Tagged.of_good {t : TypeTree Nat f} (h : p.Good canonical t) :
    Tagged canonical p t t.plain :=
  ⟨h, rfl⟩

/-! ## Checks -/

variable {α β γ δ : Type} {T : Pool → γ → δ → Prop}

/-- A check leaves the pool as it is. -/
theorem Refines.checked_bind {x : Except ConstructionError α} {y : Except ConstructionError β}
    {k : α → ExceptT TypeError PoolM γ} {l : β → ExceptT TypeError Id δ}
    (h : Outcome (fun _ _ _ => True) p x y)
    (hk : ∀ a b, x = .ok a → y = .ok b → Refines canonical T p (k a) (l b)) :
    Refines canonical T p (checked x >>= k) (checked y >>= l) := by
  cases x with
  | ok a =>
      cases y with
      | ok b => exact hk a b rfl rfl
      | error e => exact h.elim
  | error e =>
      cases y with
      | ok b => exact h.elim
      | error e' =>
          obtain rfl : e = e' := h
          exact Refines.throw

/-- The same check on both sides. -/
theorem Refines.checked_bind_self {x : Except ConstructionError α}
    {k : α → ExceptT TypeError PoolM γ} {l : α → ExceptT TypeError Id δ}
    (hk : ∀ a, x = .ok a → Refines canonical T p (k a) (l a)) :
    Refines canonical T p (checked x >>= k) (checked x >>= l) := by
  apply Refines.checked_bind
  · cases x with
    | ok a => trivial
    | error e => rfl
  · intro a b ha hb
    obtain rfl := Except.ok.inj (ha.symm.trans hb)
    exact hk a ha

/-! ## Asking for composite trees

One rule for each kind: what has to hold of the parts. They are rules for runs
that cannot fail; `Refines.lift` makes them rules for the others. -/

theorem Good.forall_nil : ∀ x ∈ ([] : List (AnyTree Nat)), p.Good canonical x.2 :=
  fun _ hx => absurd hx List.not_mem_nil

theorem Good.forall_cons {t : TypeTree Nat f} {xs : List (AnyTree Nat)}
    (ht : p.Good canonical t) (hxs : ∀ x ∈ xs, p.Good canonical x.2) :
    ∀ x ∈ (⟨f, t⟩ : AnyTree Nat) :: xs, p.Good canonical x.2 :=
  List.forall_mem_cons.mpr ⟨ht, hxs⟩

section

variable {o : TypeTree Nat .enclosing} {o' : TypeTree Unit .enclosing}
  {as : TypeTree Nat (.list .typeArgument)} {as' : TypeTree Unit (.list .typeArgument)}
  {c : TypeTree Nat .classType} {c' : TypeTree Unit .classType}
  {is : TypeTree Nat (.list .classType)} {is' : TypeTree Unit (.list .classType)}
  {b : TypeTree Nat .classBound} {b' : TypeTree Unit .classBound}
  {rs : TypeTree Nat (.list .referenceType)} {rs' : TypeTree Unit (.list .referenceType)}
  {r : TypeTree Nat .referenceType} {r' : TypeTree Unit .referenceType}
  {ts : TypeTree Nat (.list .typeParameter)} {ts' : TypeTree Unit (.list .typeParameter)}
  {d : TypeTree Nat .typeParameter} {d' : TypeTree Unit .typeParameter}
  {ps : TypeTree Nat (.list .typeSignature)} {ps' : TypeTree Unit (.list .typeSignature)}
  {t : TypeTree Nat .typeSignature} {t' : TypeTree Unit .typeSignature}
  {es : TypeTree Nat (.list .throwsType)} {es' : TypeTree Unit (.list .throwsType)}
  {ds : TypeTree Nat (.list .typeDescriptor)} {ds' : TypeTree Unit (.list .typeDescriptor)}
  {e : TypeTree Nat .typeDescriptor} {e' : TypeTree Unit .typeDescriptor}
  {n : String} {k : Nat}

theorem runs_classDescriptor (hname : Name.IsClassName n) :
    Runs canonical (Tagged canonical) p
      (MonadPool.intern (TypeTree.classDescriptor · n))
      (MonadPool.intern (TypeTree.classDescriptor · n)) :=
  Runs.intern ⟨rfl, hname, Good.forall_nil⟩ rfl

theorem runs_freeVariable (hname : Name.IsSimpleName n) :
    Runs canonical (Tagged canonical) p
      (MonadPool.intern (TypeTree.freeVariable · n))
      (MonadPool.intern (TypeTree.freeVariable · n)) :=
  Runs.intern ⟨rfl, hname, Good.forall_nil⟩ rfl

theorem runs_arrayDescriptor (hk : 1 ≤ k ∧ k ≤ maxDimension) (hbase : e.IsBase)
    (he : Tagged canonical p e e') :
    Runs canonical (Tagged canonical) p
      (MonadPool.intern (TypeTree.arrayDescriptor · k e))
      (MonadPool.intern (TypeTree.arrayDescriptor · k e')) := by
  obtain ⟨he, rfl⟩ := he
  exact Runs.intern ⟨rfl, ⟨hk, hbase, he.wellFormed⟩, he.forall_cons Good.forall_nil⟩ rfl

theorem runs_arrayType (hk : 1 ≤ k ∧ k ≤ maxDimension) (hbase : t.IsBase)
    (ht : Tagged canonical p t t') :
    Runs canonical (Tagged canonical) p
      (MonadPool.intern (TypeTree.arrayType · k t))
      (MonadPool.intern (TypeTree.arrayType · k t')) := by
  obtain ⟨ht, rfl⟩ := ht
  exact Runs.intern ⟨rfl, ⟨hk, hbase, ht.wellFormed⟩, ht.forall_cons Good.forall_nil⟩ rfl

theorem runs_methodDescriptor (hvoid : ∀ x ∈ ds.entries, x.isVoid = false)
    (hds : Tagged canonical p ds ds') (he : Tagged canonical p e e') :
    Runs canonical (Tagged canonical) p
      (MonadPool.intern (TypeTree.methodDescriptor · ds e))
      (MonadPool.intern (TypeTree.methodDescriptor · ds' e')) := by
  obtain ⟨hds, rfl⟩ := hds
  obtain ⟨he, rfl⟩ := he
  exact Runs.intern ⟨rfl, ⟨hvoid, hds.wellFormed, he.wellFormed⟩,
    hds.forall_cons (he.forall_cons Good.forall_nil)⟩ rfl

theorem runs_classType (hname : o.AcceptsName n) (ho : Tagged canonical p o o')
    (has : Tagged canonical p as as') :
    Runs canonical (Tagged canonical) p
      (MonadPool.intern (TypeTree.classType · o n as))
      (MonadPool.intern (TypeTree.classType · o' n as')) := by
  obtain ⟨ho, rfl⟩ := ho
  obtain ⟨has, rfl⟩ := has
  exact Runs.intern ⟨rfl, ⟨hname, ho.wellFormed, has.wellFormed⟩,
    ho.forall_cons (has.forall_cons Good.forall_nil)⟩ rfl

theorem runs_boundVariable (hd : Tagged canonical p d d') :
    Runs canonical (Tagged canonical) p
      (MonadPool.intern (TypeTree.boundVariable · d))
      (MonadPool.intern (TypeTree.boundVariable · d')) := by
  obtain ⟨hd, rfl⟩ := hd
  exact Runs.intern ⟨rfl, hd.wellFormed, hd.forall_cons Good.forall_nil⟩ rfl

theorem runs_typeParameter (hname : Name.IsSimpleName n)
    (hbound : b.isUnbounded = true → rs.isNil = false) (hb : Tagged canonical p b b')
    (hrs : Tagged canonical p rs rs') :
    Runs canonical (Tagged canonical) p
      (MonadPool.intern (TypeTree.typeParameter · n b rs))
      (MonadPool.intern (TypeTree.typeParameter · n b' rs')) := by
  obtain ⟨hb, rfl⟩ := hb
  obtain ⟨hrs, rfl⟩ := hrs
  exact Runs.intern ⟨rfl, ⟨hname, hbound, hb.wellFormed, hrs.wellFormed⟩,
    hb.forall_cons (hrs.forall_cons Good.forall_nil)⟩ rfl

theorem runs_boundedArgument (w : Direction) (hr : Tagged canonical p r r') :
    Runs canonical (Tagged canonical) p
      (MonadPool.intern (TypeTree.boundedArgument · w r))
      (MonadPool.intern (TypeTree.boundedArgument · w r')) := by
  obtain ⟨hr, rfl⟩ := hr
  exact Runs.intern ⟨rfl, hr.wellFormed, hr.forall_cons Good.forall_nil⟩ rfl

theorem runs_methodSignature (hvoid : ∀ x ∈ ps.entries, x.isVoid = false)
    (hts : Tagged canonical p ts ts') (hps : Tagged canonical p ps ps')
    (ht : Tagged canonical p t t') (hes : Tagged canonical p es es') :
    Runs canonical (Tagged canonical) p
      (MonadPool.intern (TypeTree.methodSignature · ts ps t es))
      (MonadPool.intern (TypeTree.methodSignature · ts' ps' t' es')) := by
  obtain ⟨hts, rfl⟩ := hts
  obtain ⟨hps, rfl⟩ := hps
  obtain ⟨ht, rfl⟩ := ht
  obtain ⟨hes, rfl⟩ := hes
  exact Runs.intern
    ⟨rfl, ⟨hvoid, hts.wellFormed, hps.wellFormed, ht.wellFormed, hes.wellFormed⟩,
      hts.forall_cons (hps.forall_cons (ht.forall_cons (hes.forall_cons Good.forall_nil)))⟩ rfl

theorem runs_classSignature (hts : Tagged canonical p ts ts') (hc : Tagged canonical p c c')
    (his : Tagged canonical p is is') :
    Runs canonical (Tagged canonical) p
      (MonadPool.intern (TypeTree.classSignature · ts c is))
      (MonadPool.intern (TypeTree.classSignature · ts' c' is')) := by
  obtain ⟨hts, rfl⟩ := hts
  obtain ⟨hc, rfl⟩ := hc
  obtain ⟨his, rfl⟩ := his
  exact Runs.intern ⟨rfl, ⟨hts.wellFormed, hc.wellFormed, his.wellFormed⟩,
    hts.forall_cons (hc.forall_cons (his.forall_cons Good.forall_nil))⟩ rfl

/-! ## Classes and variables -/

theorem refines_makeClassDescriptor (n : String) :
    Refines canonical (Tagged canonical) p (makeClassDescriptor n)
      (makeClassDescriptor n) := by
  unfold makeClassDescriptor
  apply Refines.checked_bind_self
  intro m hm
  exact Refines.lift (runs_classDescriptor (Name.isClassName_of_classNameOf hm))

theorem refines_makeFreeVariable (n : String) :
    Refines canonical (Tagged canonical) p (makeFreeVariable n)
      (makeFreeVariable n) := by
  unfold makeFreeVariable
  apply Refines.checked_bind_self
  intro m hm
  obtain ⟨rfl, hname⟩ := Name.simpleNameOf_eq_ok_iff.mp hm
  exact Refines.lift (runs_freeVariable hname)

theorem refines_makeClassType (n : String) (ho : Tagged canonical p o o')
    (has : Tagged canonical p as as') :
    Refines canonical (Tagged canonical) p (makeClassType o n as)
      (makeClassType o' n as') := by
  obtain ⟨hgood, rfl⟩ := ho
  cases o with
  | topLevel =>
      apply Refines.checked_bind_self
      intro m hm
      exact Refines.lift
        (runs_classType (o := .topLevel) (Name.isClassName_of_classNameOf hm) ⟨hgood, rfl⟩ has)
  | nestedIn c =>
      apply Refines.checked_bind_self
      intro m hm
      obtain ⟨rfl, hname⟩ := Name.simpleNameOf_eq_ok_iff.mp hm
      exact Refines.lift (runs_classType (o := .nestedIn c) hname ⟨hgood, rfl⟩ has)

theorem refines_objectDescriptor :
    Refines canonical (Tagged canonical) p objectDescriptor objectDescriptor :=
  refines_makeClassDescriptor objectName

theorem refines_objectType :
    Refines canonical (Tagged canonical) p objectType objectType :=
  refines_makeClassType objectName (.leaf rfl rfl trivial rfl) .nil

/-! ## Type parameters -/

theorem refines_makeTypeParameter (n : String) (hb : Tagged canonical p b b')
    (hrs : Tagged canonical p rs rs') :
    Refines canonical (Tagged canonical) p (makeTypeParameter n b rs)
      (makeTypeParameter n b' rs') := by
  unfold makeTypeParameter
  apply Refines.checked_bind_self
  intro m hm
  obtain ⟨rfl, hname⟩ := Name.simpleNameOf_eq_ok_iff.mp hm
  have hbp := hb.plain
  have hrsp := hrs.plain
  cases b with
  | noClassBound =>
      subst hbp
      cases rs with
      | nil =>
          subst hrsp
          exact Refines.throw
      | cons r rs =>
          subst hrsp
          exact Refines.lift (runs_typeParameter hname (fun _ => rfl) hb hrs)
  | boundedBy r =>
      subst hbp
      exact Refines.lift (runs_typeParameter hname (fun h => nomatch h) hb hrs)

theorem refines_makeUnconstrained (n : String) :
    Refines canonical (Tagged canonical) p (makeUnconstrained n)
      (makeUnconstrained n) := by
  unfold makeUnconstrained
  apply Refines.bind refines_objectType
  intro q c c' _ hc _
  exact refines_makeTypeParameter n hc.refClass.boundedBy .nil

/-! ## Methods -/

/-- What is checked of the parameters does not depend on tags. -/
theorem checkParameters_plain (xs : TypeTree Nat (.list f)) :
    checkParameters xs.plain = checkParameters xs := by
  unfold checkParameters
  rw [show xs.plain.entries = _ from entries_mapTags _ xs, List.any_map]
  simp [Function.comp_def]

theorem forall_of_checkParameters {ι : Type} {xs : TypeTree ι (.list f)} {u : Unit}
    (h : checkParameters xs = .ok u) : ∀ x ∈ xs.entries, x.isVoid = false := by
  unfold checkParameters at h
  split_ifs at h with hany
  simpa using hany

theorem refines_makeMethodDescriptor (hds : Tagged canonical p ds ds')
    (he : Tagged canonical p e e') :
    Refines canonical (Tagged canonical) p (makeMethodDescriptor ds e)
      (makeMethodDescriptor ds' e') := by
  unfold makeMethodDescriptor
  rw [← hds.plain, checkParameters_plain, hds.plain]
  apply Refines.checked_bind_self
  intro u hu
  exact Refines.lift (runs_methodDescriptor (forall_of_checkParameters hu) hds he)

theorem refines_makeMethodSignature (hts : Tagged canonical p ts ts')
    (hps : Tagged canonical p ps ps') (ht : Tagged canonical p t t')
    (hes : Tagged canonical p es es') :
    Refines canonical (Tagged canonical) p (makeMethodSignature ts ps t es)
      (makeMethodSignature ts' ps' t' es') := by
  unfold makeMethodSignature
  rw [← hps.plain, checkParameters_plain, hps.plain]
  apply Refines.checked_bind_self
  intro u hu
  exact Refines.lift (runs_methodSignature (forall_of_checkParameters hu) hts hps ht hes)

end

/-! ## Arrays -/

theorem checkDimension_eq_ok {d d' : Nat} (h : checkDimension d = .ok d') :
    d' = d ∧ 1 ≤ d' ∧ d' ≤ maxDimension := by
  unfold checkDimension at h
  split_ifs at h with hd
  obtain rfl := Except.ok.inj h
  exact ⟨rfl, hd⟩

theorem addDimension_eq_ok {d inner d' : Nat} (h : addDimension d inner = .ok d') :
    d' = d + inner ∧ 1 ≤ d' ∧ d' ≤ maxDimension := by
  unfold addDimension at h
  split_ifs at h with hlimit
  exact checkDimension_eq_ok h

theorem map_eq_ok {ε α β : Type} {g : α → β} {x : Except ε α} {b : β} :
    g <$> x = .ok b ↔ ∃ a, x = .ok a ∧ g a = b := by
  cases x with
  | ok a =>
      constructor
      · intro h
        exact ⟨a, rfl, Except.ok.inj h⟩
      · rintro ⟨a', ha, rfl⟩
        rw [ha]
        rfl
  | error e =>
      constructor
      · exact fun h => nomatch h
      · rintro ⟨a', ha, -⟩
        exact nomatch ha

/-- What an array that is accepted is an array of: what was given, or the base of
the array that was given. -/
theorem flatDescriptor_eq_ok {ι : Type} {d d' : Nat} {b b' : TypeTree ι .typeDescriptor}
    (hb : b.WellFormed) (h : flatDescriptor d b = .ok (d', b')) :
    (1 ≤ d' ∧ d' ≤ maxDimension) ∧ b'.IsBase ∧
      (b' = b ∨ ∃ i inner, b = .descArray (.arrayDescriptor i inner b')) := by
  cases b with
  | descVoid => exact nomatch h
  | descPrimitive c =>
      obtain ⟨d₁, hd, heq⟩ := map_eq_ok.mp h
      obtain ⟨rfl, rfl⟩ := Prod.mk.inj heq
      exact ⟨(checkDimension_eq_ok hd).2, ⟨rfl, rfl⟩, Or.inl rfl⟩
  | descClass c =>
      obtain ⟨d₁, hd, heq⟩ := map_eq_ok.mp h
      obtain ⟨rfl, rfl⟩ := Prod.mk.inj heq
      exact ⟨(checkDimension_eq_ok hd).2, ⟨rfl, rfl⟩, Or.inl rfl⟩
  | descArray a =>
      cases a with
      | arrayDescriptor i inner base =>
          unfold flatDescriptor at h
          split_ifs at h with hzero
          · -- A dimension of zero is refused before the two are added.
            obtain ⟨d₁, hd, -⟩ := map_eq_ok.mp h
            have hone := checkDimension_eq_ok hd
            omega
          · obtain ⟨d₁, hd, heq⟩ := map_eq_ok.mp h
            obtain ⟨rfl, rfl⟩ := Prod.mk.inj heq
            exact ⟨(addDimension_eq_ok hd).2, hb.2.1, Or.inr ⟨i, inner, rfl⟩⟩

theorem pair_plain (t : TypeTree Nat f) (x : Except ConstructionError Nat) :
    ((·, t.plain) <$> x) = (fun x => (x.1, x.2.plain)) <$> ((·, t) <$> x) := by
  cases x <;> rfl

/-- Flattening does not look at tags. -/
theorem flatDescriptor_plain (d : Nat) (b : TypeTree Nat .typeDescriptor) :
    flatDescriptor d b.plain = (fun x => (x.1, x.2.plain)) <$> flatDescriptor d b := by
  cases b with
  | descVoid => rfl
  | descPrimitive c => exact pair_plain (.descPrimitive c) _
  | descClass c => exact pair_plain (.descClass c) _
  | descArray a =>
      cases a with
      | arrayDescriptor i inner base =>
          show (if d = 0 then _ else _) = _ <$> (if d = 0 then _ else _)
          split_ifs with hzero
          · exact pair_plain (.descArray (.arrayDescriptor i inner base)) _
          · exact pair_plain base _

/-- A check that flattens, with a pool and without. -/
theorem Refines.checked_bind_flat {x : Except ConstructionError (Nat × TypeTree Nat f)}
    {k : Nat × TypeTree Nat f → ExceptT TypeError PoolM γ}
    {l : Nat × TypeTree Unit f → ExceptT TypeError Id δ}
    (hk : ∀ d t, x = .ok (d, t) → Refines canonical T p (k (d, t)) (l (d, t.plain))) :
    Refines canonical T p (checked x >>= k)
      (checked ((fun x => (x.1, x.2.plain)) <$> x) >>= l) := by
  apply Refines.checked_bind
  · cases x with
    | ok a => trivial
    | error e => rfl
  · rintro ⟨d, t⟩ y hx hy
    rw [hx] at hy
    obtain rfl : (d, t.plain) = y := Except.ok.inj hy
    exact hk d t hx

theorem refines_makeArrayDescriptor (d : Nat) {b : TypeTree Nat .typeDescriptor}
    {b' : TypeTree Unit .typeDescriptor} (hb : Tagged canonical p b b') :
    Refines canonical (Tagged canonical) p (makeArrayDescriptor d b)
      (makeArrayDescriptor d b') := by
  obtain ⟨hgood, rfl⟩ := hb
  unfold makeArrayDescriptor
  rw [flatDescriptor_plain]
  apply Refines.checked_bind_flat
  intro d₁ b₁ hflat
  obtain ⟨hd, hbase, hpart⟩ := flatDescriptor_eq_ok hgood.wellFormed hflat
  have hgood₁ : p.Good canonical b₁ := by
    rcases hpart with rfl | ⟨i, inner, rfl⟩
    · exact hgood
    · have harray := hgood.of_mem_parts (List.mem_singleton_self _)
      exact harray.of_mem_parts (List.mem_singleton_self _)
  exact Refines.lift (runs_arrayDescriptor hd hbase ⟨hgood₁, rfl⟩)

/-- What an array that is accepted is an array of: what was given, or the base of
the array that was given. -/
theorem flatType_eq_ok {ι : Type} {d d' : Nat} {b b' : TypeTree ι .typeSignature}
    (hb : b.WellFormed) (h : flatType d b = .ok (d', b')) :
    (1 ≤ d' ∧ d' ≤ maxDimension) ∧ b'.IsBase ∧
      (b' = b ∨ ∃ i inner, b = .sigReference (.refArray (.arrayType i inner b'))) := by
  cases b with
  | sigVoid => exact nomatch h
  | sigPrimitive c =>
      obtain ⟨d₁, hd, heq⟩ := map_eq_ok.mp h
      obtain ⟨rfl, rfl⟩ := Prod.mk.inj heq
      exact ⟨(checkDimension_eq_ok hd).2, ⟨rfl, rfl⟩, Or.inl rfl⟩
  | sigReference r =>
      cases r with
      | refClass c | refVariable c =>
          obtain ⟨d₁, hd, heq⟩ := map_eq_ok.mp h
          obtain ⟨rfl, rfl⟩ := Prod.mk.inj heq
          exact ⟨(checkDimension_eq_ok hd).2, ⟨rfl, rfl⟩, Or.inl rfl⟩
      | refArray a =>
          cases a with
          | arrayType i inner base =>
              unfold flatType at h
              split_ifs at h with hzero
              · obtain ⟨d₁, hd, -⟩ := map_eq_ok.mp h
                have hone := checkDimension_eq_ok hd
                omega
              · obtain ⟨d₁, hd, heq⟩ := map_eq_ok.mp h
                obtain ⟨rfl, rfl⟩ := Prod.mk.inj heq
                exact ⟨(addDimension_eq_ok hd).2, hb.2.1, Or.inr ⟨i, inner, rfl⟩⟩

/-- Flattening does not look at tags. -/
theorem flatType_plain (d : Nat) (b : TypeTree Nat .typeSignature) :
    flatType d b.plain = (fun x => (x.1, x.2.plain)) <$> flatType d b := by
  cases b with
  | sigVoid => rfl
  | sigPrimitive c => exact pair_plain (.sigPrimitive c) _
  | sigReference r =>
      cases r with
      | refClass c => exact pair_plain (.sigReference (.refClass c)) _
      | refVariable v => exact pair_plain (.sigReference (.refVariable v)) _
      | refArray a =>
          cases a with
          | arrayType i inner base =>
              show (if d = 0 then _ else _) = _ <$> (if d = 0 then _ else _)
              split_ifs with hzero
              · exact pair_plain (.sigReference (.refArray (.arrayType i inner base))) _
              · exact pair_plain base _

theorem refines_makeArrayType (d : Nat) {b : TypeTree Nat .typeSignature}
    {b' : TypeTree Unit .typeSignature} (hb : Tagged canonical p b b') :
    Refines canonical (Tagged canonical) p (makeArrayType d b)
      (makeArrayType d b') := by
  obtain ⟨hgood, rfl⟩ := hb
  unfold makeArrayType
  rw [flatType_plain]
  apply Refines.checked_bind_flat
  intro d₁ b₁ hflat
  obtain ⟨hd, hbase, hpart⟩ := flatType_eq_ok hgood.wellFormed hflat
  have hgood₁ : p.Good canonical b₁ := by
    rcases hpart with rfl | ⟨i, inner, rfl⟩
    · exact hgood
    · have hreference := hgood.of_mem_parts (List.mem_singleton_self _)
      have harray := hreference.of_mem_parts (List.mem_singleton_self _)
      exact harray.of_mem_parts (List.mem_singleton_self _)
  exact Refines.lift (runs_arrayType hd hbase ⟨hgood₁, rfl⟩)

end ClassfileTypes.Pool
