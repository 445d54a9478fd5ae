import ClassfileTypes.Proofs.Making

/-!
# A strict pool

Some operations ask the pool for a tree without a check: what they ask for is right
because of what they were given. A strict pool puts this to the test. It gives up as soon
as it is asked for a tree that the checked construction of its kind does not give back
for the same parts. As long as it does not give up, a computation does what it does
without a pool.

The rules follow the shape of the operations, as those for runs with a pool do; but
nothing is held and nothing is found here, and so there is no state to speak of.
-/

namespace ClassfileTypes

namespace TypeTree

variable {f : Form}

/-- What the checked construction of its kind makes of the parts of a tree. Bound
variables, bounded arguments and class signatures are made without a check, and the
other trees are not made at all. -/
def remake : {f : Form} → TypeTree Unit f → ExceptT TypeError Id (TypeTree Unit f)
  | _, .classDescriptor _ n => makeClassDescriptor n
  | _, .arrayDescriptor _ d b => makeArrayDescriptor d b
  | _, .methodDescriptor _ ps r => makeMethodDescriptor ps r
  | _, .classType _ o n as => makeClassType o n as
  | _, .arrayType _ d b => makeArrayType d b
  | _, .freeVariable _ n => makeFreeVariable n
  | _, .typeParameter _ n c is => makeTypeParameter n c is
  | _, .methodSignature _ ts ps r es => makeMethodSignature ts ps r es
  | _, t => pure t

/-- Whether the checked construction gives the tree back. -/
def isRemade (t : TypeTree Unit f) : Bool :=
  match t.remake.run with
  | .ok u => u = t
  | .error _ => false

theorem isRemade_iff {t : TypeTree Unit f} : t.isRemade = true ↔ t.remake.run = .ok t := by
  unfold isRemade
  split
  · rename_i u hu
    rw [hu, decide_eq_true_iff]
    exact ⟨congrArg Except.ok, Except.ok.inj⟩
  · rename_i e he
    rw [he]
    exact ⟨fun h => (nomatch h), fun h => (nomatch h)⟩

/-- An array of arrays is made flat, so its construction does not give it back. -/
example : (arrayDescriptor () 1
    (.descArray (.arrayDescriptor () 1 (.descPrimitive .int)))).isRemade = false := by
  decide +kernel

/-- **A well-formed tree is what its checked construction makes.** -/
theorem run_remake {t : TypeTree Unit f} (ht : t.WellFormed) : t.remake.run = .ok t := by
  cases t with
  | classDescriptor i n => exact run_makeClassDescriptor ht
  | arrayDescriptor i d b => exact run_makeArrayDescriptor ht
  | methodDescriptor i ps r => exact run_makeMethodDescriptor ht
  | classType i o n as => exact run_makeClassType ht
  | arrayType i d b => exact run_makeArrayType ht
  | freeVariable i n => exact run_makeFreeVariable ht
  | typeParameter i n c is => exact run_makeTypeParameter ht.1 ht.2.1
  | methodSignature i ts ps r es => exact run_makeMethodSignature ht
  | _ => rfl

end TypeTree

/-- Computations with a strict pool; there is no result if the pool has given up. -/
def StrictM (α : Type) : Type :=
  Option α

instance : Monad StrictM :=
  inferInstanceAs (Monad Option)

instance : MonadPool Unit StrictM where
  intern draft := if (draft ()).isRemade then some (draft ()) else none
  find? _ _ := some none
  holding _ x := x

/-! ## Computations that a strict pool accepts -/

/-- The pool does not give up: the computation does what it does without a pool, and what
it gives has the property. -/
structure Accepts {ε α : Type} (P : α → Prop) (x : ExceptT ε StrictM α) (y : ExceptT ε Id α) :
    Prop where
  run : x.run = some y.run
  gives : ∀ a, y.run = .ok a → P a

namespace Accepts

variable {ε ε' α β : Type} {P : α → Prop} {Q : β → Prop} {x : ExceptT ε StrictM α}
  {y : ExceptT ε Id α}

theorem pure {a : α} (h : P a) : Accepts P (Pure.pure a : ExceptT ε StrictM α) (Pure.pure a) :=
  ⟨rfl, fun _ hb => Except.ok.inj hb ▸ h⟩

theorem throw {e : ε} :
    Accepts P (MonadExcept.throw e : ExceptT ε StrictM α) (MonadExcept.throw e) :=
  ⟨rfl, fun _ hb => nomatch hb⟩

/-- Computations in sequence. -/
theorem bind {k : α → ExceptT ε StrictM β} {l : α → ExceptT ε Id β} (hx : Accepts P x y)
    (hk : ∀ a, P a → y.run = .ok a → Accepts Q (k a) (l a)) : Accepts Q (x >>= k) (y >>= l) := by
  constructor
  · show Option.bind x.run (ExceptT.bindCont k) = some (ExceptT.bindCont l y.run)
    rw [hx.run]
    show ExceptT.bindCont k y.run = _
    cases hy : y.run with
    | ok a => exact (hk a (hx.gives a hy) hy).run
    | error e => rfl
  · intro b hb
    obtain ⟨a, ha, hb⟩ := run_bind_eq_ok.mp hb
    exact (hk a (hx.gives a ha) ha).gives b hb

theorem map {g : α → β} (hx : Accepts P x y) (hg : ∀ a, P a → Q (g a)) :
    Accepts Q (g <$> x) (g <$> y) := by
  show Accepts Q (x >>= fun a => Pure.pure (g a)) (y >>= fun a => Pure.pure (g a))
  exact hx.bind fun a ha _ => pure (hg a ha)

theorem adapt {e : ε → ε'} (hx : Accepts P x y) :
    Accepts P (ExceptT.adapt e x) (ExceptT.adapt e y) := by
  constructor
  · show Option.map (Except.mapError e) x.run = _
    rw [hx.run]
    rfl
  · exact fun a ha => hx.gives a (run_adapt_eq_ok.mp ha)

/-- **A well-formed tree is accepted.** -/
theorem intern {f : Form} {draft : Unit → TypeTree Unit f} (h : (draft ()).WellFormed) :
    Accepts TypeTree.WellFormed (MonadPool.intern draft : ExceptT ε StrictM _)
      (MonadPool.intern draft) := by
  constructor
  · show Option.map Except.ok (if (draft ()).isRemade then some (draft ()) else none) = _
    rw [if_pos (TypeTree.isRemade_iff.mpr (TypeTree.run_remake h))]
    rfl
  · exact fun t ht => Except.ok.inj ht ▸ h

theorem holdingAll {f : Form} (ts : List (TypeTree Unit f)) (hx : Accepts P x y) :
    Accepts P (ClassfileTypes.holdingAll ts x) (ClassfileTypes.holdingAll ts y) := by
  induction ts with
  | nil => exact hx
  | cons t ts ih => exact ih

end Accepts

/-! ## The checked constructions -/

namespace TypeTree

variable {α : Type} {o : TypeTree Unit .enclosing} {as : TypeTree Unit (.list .typeArgument)}
  {c : TypeTree Unit .classBound} {is : TypeTree Unit (.list .referenceType)}

theorem accepts_checked (x : Except ConstructionError α) :
    Accepts (fun a => x = .ok a) (checked x) (checked x) := by
  cases x with
  | ok a => exact .pure rfl
  | error e => exact .throw

theorem accepts_makeClassDescriptor (n : String) :
    Accepts WellFormed (makeClassDescriptor n) (makeClassDescriptor n) := by
  apply (accepts_checked _).bind
  intro m hm _
  exact .intern (Name.isClassName_of_classNameOf hm)

theorem accepts_makeFreeVariable (n : String) :
    Accepts WellFormed (makeFreeVariable n) (makeFreeVariable n) := by
  apply (accepts_checked _).bind
  intro m hm _
  obtain ⟨rfl, hname⟩ := Name.simpleNameOf_eq_ok_iff.mp hm
  exact .intern hname

theorem accepts_makeClassType (n : String) (ho : o.WellFormed) (has : as.WellFormed) :
    Accepts WellFormed (makeClassType o n as) (makeClassType o n as) := by
  cases o with
  | topLevel =>
      apply (accepts_checked _).bind
      intro m hm _
      exact .intern ⟨Name.isClassName_of_classNameOf hm, ho, has⟩
  | nestedIn d =>
      apply (accepts_checked _).bind
      intro m hm _
      obtain ⟨rfl, hname⟩ := Name.simpleNameOf_eq_ok_iff.mp hm
      exact .intern ⟨hname, ho, has⟩

theorem accepts_objectType : Accepts WellFormed objectType objectType :=
  accepts_makeClassType objectName trivial trivial

theorem accepts_makeTypeParameter (n : String) (hc : c.WellFormed) (his : is.WellFormed) :
    Accepts WellFormed (makeTypeParameter n c is) (makeTypeParameter n c is) := by
  apply (accepts_checked _).bind
  intro m hm _
  obtain ⟨rfl, hname⟩ := Name.simpleNameOf_eq_ok_iff.mp hm
  cases c with
  | boundedBy r => exact .intern ⟨hname, fun h => (nomatch h), hc, his⟩
  | noClassBound =>
      cases is with
      | nil => exact .throw
      | cons r rs => exact .intern ⟨hname, fun _ => rfl, hc, his⟩

theorem accepts_makeUnconstrained (n : String) :
    Accepts WellFormed (makeUnconstrained n) (makeUnconstrained n) := by
  apply accepts_objectType.bind
  intro object hobject _
  exact accepts_makeTypeParameter n hobject trivial

theorem accepts_makeMethodDescriptor {ps : TypeTree Unit (.list .typeDescriptor)}
    {r : TypeTree Unit .typeDescriptor} (hps : ps.WellFormed) (hr : r.WellFormed) :
    Accepts WellFormed (makeMethodDescriptor ps r) (makeMethodDescriptor ps r) := by
  apply (accepts_checked _).bind
  intro _ hvoid _
  exact .intern ⟨Pool.forall_of_checkParameters hvoid, hps, hr⟩

theorem accepts_makeMethodSignature {ts : TypeTree Unit (.list .typeParameter)}
    {ps : TypeTree Unit (.list .typeSignature)} {r : TypeTree Unit .typeSignature}
    {es : TypeTree Unit (.list .throwsType)} (hts : ts.WellFormed) (hps : ps.WellFormed)
    (hr : r.WellFormed) (hes : es.WellFormed) :
    Accepts WellFormed (makeMethodSignature ts ps r es) (makeMethodSignature ts ps r es) := by
  apply (accepts_checked _).bind
  intro _ hvoid _
  exact .intern ⟨Pool.forall_of_checkParameters hvoid, hts, hps, hr, hes⟩

/-- The base of an array that is accepted is what was given, or a part of a part of it. -/
theorem accepts_makeArrayDescriptor (d : Nat) {b : TypeTree Unit .typeDescriptor}
    (hb : b.WellFormed) :
    Accepts WellFormed (makeArrayDescriptor d b) (makeArrayDescriptor d b) := by
  apply (accepts_checked _).bind
  rintro ⟨d', b'⟩ hflat -
  obtain ⟨hd, hbase, hpart⟩ := Pool.flatDescriptor_eq_ok hb hflat
  rcases hpart with rfl | ⟨i, inner, rfl⟩
  · exact .intern ⟨hd, hbase, hb⟩
  · exact .intern ⟨hd, hbase, hb.2.2⟩

theorem accepts_makeArrayType (d : Nat) {b : TypeTree Unit .typeSignature} (hb : b.WellFormed) :
    Accepts WellFormed (makeArrayType d b) (makeArrayType d b) := by
  apply (accepts_checked _).bind
  rintro ⟨d', b'⟩ hflat -
  obtain ⟨hd, hbase, hpart⟩ := Pool.flatType_eq_ok hb hflat
  rcases hpart with rfl | ⟨i, inner, rfl⟩
  · exact .intern ⟨hd, hbase, hb⟩
  · exact .intern ⟨hd, hbase, hb.2.2⟩

end TypeTree

end ClassfileTypes
