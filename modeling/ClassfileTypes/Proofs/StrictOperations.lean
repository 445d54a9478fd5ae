import ClassfileTypes.Proofs.Operations
import ClassfileTypes.Proofs.StrictPool

/-!
# A strict pool accepts what operations ask for

Binding, erasure, the signatures of descriptors and the elements of arrays ask for trees
without a check. Given well-formed trees they ask for well-formed trees only: a bound
class stands where it stood, a bound or a raised base is still no array, a binary name is
a class name, and an array with more than one dimension may lose one.
-/

namespace ClassfileTypes

/-- All declarations of a scope are well formed. -/
def Scope.WellFormed {ι : Type} (s : Scope ι) : Prop :=
  ∀ x d, s x = some d → d.WellFormed

namespace Scope.WellFormed

variable {ι : Type} {s outer : Scope ι}

theorem empty : (Scope.empty : Scope ι).WellFormed :=
  fun _ _ hd => nomatch hd

theorem ofParameters {ps : List (TypeTree ι .typeParameter)} (hps : ∀ d ∈ ps, d.WellFormed) :
    (Scope.ofParameters ps).WellFormed :=
  fun _ d hd => hps d (List.mem_of_find?_eq_some hd)

theorem ofNamed {ds : List (String × TypeTree ι .typeParameter)}
    (hds : ∀ d ∈ ds, d.2.WellFormed) : (Scope.ofNamed ds).WellFormed :=
  fun x d hd => hds (x, d) (mem_of_lookup_eq_some hd)

theorem within (hs : s.WellFormed) (houter : outer.WellFormed) :
    (s.within outer).WellFormed := by
  intro x d hd
  unfold Scope.within at hd
  cases hx : s x with
  | some d' =>
      rw [hx] at hd
      exact hs x d (hx.trans hd)
  | none =>
      rw [hx] at hd
      exact houter x d hd

end Scope.WellFormed

namespace TypeTree

variable {ε : Type} {f : Form} {s outer : Scope Unit}

/-! ## Binding -/

theorem accepts_bindMethodParts {ts : TypeTree Unit (.list .typeParameter)}
    {ps : TypeTree Unit (.list .typeSignature)} {r : TypeTree Unit .typeSignature}
    {es : TypeTree Unit (.list .throwsType)} (hts : ts.WellFormed)
    (hvoid : ∀ t ∈ ps.entries, t.isVoid = false)
    (bindPs : Accepts WellFormed (ps.bind s) (ps.bind s))
    (bindR : Accepts WellFormed (r.bind s) (r.bind s))
    (bindEs : Accepts WellFormed (es.bind s) (es.bind s)) :
    Accepts WellFormed
      (MonadPool.holding ts do
        let ps ← ps.bind s
        MonadPool.holding ps do
          let r ← r.bind s
          let es ← MonadPool.holding r (es.bind s)
          MonadPool.intern (TypeTree.methodSignature · ts ps r es) : ExceptT TypeError StrictM _)
      (MonadPool.holding ts do
        let ps ← ps.bind s
        MonadPool.holding ps do
          let r ← r.bind s
          let es ← MonadPool.holding r (es.bind s)
          MonadPool.intern (TypeTree.methodSignature · ts ps r es)) := by
  apply bindPs.bind
  intro ps' hps hrun
  apply bindR.bind
  intro r' hr _
  apply bindEs.bind
  intro es' hes _
  exact .intern ⟨notVoid_of_bind ps ps' hrun hvoid, hts, hps, hr, hes⟩

theorem accepts_bindClassParts {ts : TypeTree Unit (.list .typeParameter)}
    {c : TypeTree Unit .classType} {is : TypeTree Unit (.list .classType)} (hts : ts.WellFormed)
    (bindC : Accepts WellFormed (c.bind s) (c.bind s))
    (bindIs : Accepts WellFormed (is.bind s) (is.bind s)) :
    Accepts WellFormed
      (MonadPool.holding ts do
        let c ← c.bind s
        let is ← MonadPool.holding c (is.bind s)
        MonadPool.intern (TypeTree.classSignature · ts c is) : ExceptT TypeError StrictM _)
      (MonadPool.holding ts do
        let c ← c.bind s
        let is ← MonadPool.holding c (is.bind s)
        MonadPool.intern (TypeTree.classSignature · ts c is)) := by
  apply bindC.bind
  intro c' hc _
  apply bindIs.bind
  intro is' his _
  exact .intern ⟨hts, hc, his⟩

theorem accepts_bind {t : TypeTree Unit f} (ht : t.WellFormed) (hs : s.WellFormed) :
    Accepts WellFormed (t.bind s) (t.bind s) := by
  induction t with
  | freeVariable i n =>
      unfold TypeTree.bind
      split
      · rename_i d hd
        exact .intern (hs n d hd)
      · exact .throw
  | sigReference r ih | refClass r ih | refArray r ih | refVariable r ih | throwsClass r ih
  | throwsVariable r ih | nestedIn r ih | boundedBy r ih | argReference r ih
  | argBounded r ih => exact (ih ht).map fun _ h => h
  | classType i o n as iho ihas =>
      obtain ⟨hname, ho, has⟩ := ht
      apply (iho ho).bind
      intro o' ho' hrun
      apply (ihas has).bind
      intro as' has' _
      exact .intern ⟨(acceptsName_of_bind hrun n).mpr hname, ho', has'⟩
  | arrayType i d b ih =>
      obtain ⟨hd, hbase, hb⟩ := ht
      apply (ih hb).bind
      intro b' hb' hrun
      obtain ⟨hvoid, harray⟩ := shape_of_bind hrun
      exact .intern ⟨hd, ⟨hvoid.trans hbase.1, harray.trans hbase.2⟩, hb'⟩
  | typeParameter i n c is ihc ihis =>
      obtain ⟨-, -, hc, his⟩ := ht
      apply (ihc hc).bind
      intro c' hc' _
      apply (ihis his).bind
      intro is' his' _
      exact accepts_makeTypeParameter n hc' his'
  | boundedArgument i d r ih =>
      apply (ih ht).bind
      intro r' hr _
      exact .intern hr
  | methodSignature i ts ps r es ihts ihps ihr ihes =>
      obtain ⟨hvoid, hts, hps, hr, hes⟩ := ht
      apply (ihts hts).bind
      intro ts' hts' _
      exact accepts_bindMethodParts hts' hvoid (ihps hps) (ihr hr) (ihes hes)
  | classSignature i ts c is ihts ihc ihis =>
      obtain ⟨hts, hc, his⟩ := ht
      apply (ihts hts).bind
      intro ts' hts' _
      exact accepts_bindClassParts hts' (ihc hc) (ihis his)
  | cons x xs ihx ihxs =>
      apply (ihx ht.1).bind
      intro x' hx _
      apply (ihxs ht.2).bind
      intro xs' hxs _
      exact .pure ⟨hx, hxs⟩
  | _ => exact .pure ht

/-! ## Declarations -/

theorem accepts_resolveRounds {declared resolved : TypeTree Unit (.list .typeParameter)}
    (rounds : Nat) (hdeclared : declared.WellFormed) (hresolved : resolved.WellFormed)
    (houter : outer.WellFormed) :
    Accepts WellFormed (resolveRounds declared outer rounds resolved)
      (resolveRounds declared outer rounds resolved) := by
  induction rounds generalizing resolved with
  | zero => exact .pure hresolved
  | succ rounds ih =>
      have hscope := (Scope.WellFormed.ofParameters hresolved.entries).within houter
      apply (accepts_bind hdeclared hscope).bind
      intro next hnext _
      exact ih hnext

theorem accepts_resolve {declared : TypeTree Unit (.list .typeParameter)}
    (hdeclared : declared.WellFormed) (houter : outer.WellFormed) :
    Accepts WellFormed (resolve declared outer) (resolve declared outer) :=
  accepts_resolveRounds _ hdeclared hdeclared houter

theorem accepts_bindMethod {t : TypeTree Unit .methodSignature} (ht : t.WellFormed)
    (houter : outer.WellFormed) :
    Accepts WellFormed (bindMethod outer t) (bindMethod outer t) := by
  cases t with
  | methodSignature i ts ps r es =>
      obtain ⟨hvoid, hts, hps, hr, hes⟩ := ht
      apply (accepts_resolve hts houter).bind
      intro ts' hts' _
      have hscope := (Scope.WellFormed.ofParameters hts'.entries).within houter
      exact accepts_bindMethodParts hts' hvoid (accepts_bind hps hscope) (accepts_bind hr hscope)
        (accepts_bind hes hscope)

theorem accepts_bindClass {t : TypeTree Unit .classSignature} (ht : t.WellFormed)
    (houter : outer.WellFormed) :
    Accepts WellFormed (bindClass outer t) (bindClass outer t) := by
  cases t with
  | classSignature i ts c is =>
      obtain ⟨hts, hc, his⟩ := ht
      apply (accepts_resolve hts houter).bind
      intro ts' hts' _
      have hscope := (Scope.WellFormed.ofParameters hts'.entries).within houter
      exact accepts_bindClassParts hts' (accepts_bind hc hscope) (accepts_bind his hscope)

theorem accepts_memberScope {t : TypeTree Unit .classSignature} (ht : t.WellFormed) :
    Accepts WellFormed (memberScope t) (memberScope t) := by
  cases t with
  | classSignature i ts c is => exact accepts_resolve ht.1 .empty

/-! ## Erasure -/

/-- The strict pool accepts what the erasure of a tree asks for. -/
def ErasesStrictly (t : TypeTree Unit f) : Prop :=
  t.WellFormed → Accepts WellFormed t.erase t.erase

/-- A type parameter erases to one of its bounds, which is two steps below. -/
theorem erasesStrictly_of_parts (t : TypeTree Unit f)
    (ih : ∀ x ∈ t.parts, x.2.ErasesStrictly ∧ ∀ y ∈ x.2.parts, y.2.ErasesStrictly) :
    t.ErasesStrictly := by
  have hparts : t.parts.Forall fun x => x.2.ErasesStrictly :=
    List.forall_iff_forall_mem.mpr fun x hx => (ih x hx).1
  intro ht
  cases t with
  | sigPrimitive c | sigVoid => exact .pure trivial
  | sigReference r | refVariable r | throwsVariable r | boundVariable i r => exact hparts ht
  | refClass c | throwsClass c | refArray c => exact (hparts ht).map fun _ h => h
  | classType i o n as => exact .intern (isClassName_binaryName _ ht)
  | arrayType i d b =>
      apply (hparts ht.2.2).bind
      intro b' hb _
      exact accepts_makeArrayDescriptor d hb
  | freeVariable i n => exact .throw
  | typeParameter i n c is =>
      obtain ⟨-, hbounds, hc, his⟩ := ht
      cases c with
      | boundedBy r =>
          have hr := (ih ⟨_, .boundedBy r⟩ (by simp [parts])).2 ⟨_, r⟩ (by simp [parts])
          exact hr hc
      | noClassBound =>
          cases is with
          | nil => exact absurd (hbounds rfl) (by decide)
          | cons r rs =>
              have hr := (ih ⟨_, .cons r rs⟩ (by simp [parts])).2 ⟨_, r⟩ (by simp [parts])
              exact hr his.1
  | methodSignature i ts ps r es =>
      obtain ⟨-, eps, er, -⟩ := hparts
      obtain ⟨-, -, hps, hr, -⟩ := ht
      apply (eps hps).bind
      intro ps' hps' _
      apply (er hr).bind
      intro r' hr' _
      exact accepts_makeMethodDescriptor hps' hr'
  | cons x xs =>
      obtain ⟨ex, exs⟩ := hparts
      apply (ex ht.1).bind
      intro x' hx _
      apply (exs ht.2).bind
      intro xs' hxs _
      exact .pure ⟨hx, hxs⟩
  | _ => exact .pure ht

theorem erasesStrictly (t : TypeTree Unit f) :
    t.ErasesStrictly ∧ ∀ x ∈ t.parts, x.2.ErasesStrictly := by
  induction t using partsInduction with
  | step t ih => exact ⟨erasesStrictly_of_parts t ih, fun x hx => (ih x hx).1⟩

theorem accepts_erase {t : TypeTree Unit f} (ht : t.WellFormed) :
    Accepts WellFormed t.erase t.erase :=
  (erasesStrictly t).1 ht

/-! ## Signatures of descriptors, and elements of arrays -/

/-- Without a pool the signature of a descriptor is the same among computations that may
fail. -/
theorem run_raise (t : TypeTree Unit f) :
    (t.raise : ExceptT ε Id _).run = Except.ok (t.raise (m := Id)) := by
  rw [Pool.raise_eq_lift]
  rfl

theorem accepts_raise {t : TypeTree Unit f} (ht : t.WellFormed) :
    Accepts WellFormed (t.raise : ExceptT ε StrictM _) t.raise := by
  induction t with
  | descPrimitive c | descVoid => exact .pure trivial
  | descClass c ih | descArray c ih => exact (ih ht).bind fun _ h _ => .pure h
  | classDescriptor i n => exact .intern ⟨ht, trivial, trivial⟩
  | arrayDescriptor i d b ih =>
      obtain ⟨hd, hbase, hb⟩ := ht
      apply (ih hb).bind
      intro b' hb' hrun
      obtain rfl := Except.ok.inj ((run_raise b).symm.trans hrun)
      obtain ⟨hvoid, harray⟩ := shape_raise b
      exact .intern ⟨hd, ⟨hvoid.trans hbase.1, harray.trans hbase.2⟩, hb'⟩
  | methodDescriptor i ps r ihps ihr =>
      obtain ⟨hvoid, hps, hr⟩ := ht
      apply (ihps hps).bind
      intro ps' hps' hrun
      obtain rfl := Except.ok.inj ((run_raise ps).symm.trans hrun)
      apply (ihr hr).bind
      intro r' hr' _
      exact .intern ⟨notVoid_raise ps hvoid, trivial, hps', hr', trivial⟩
  | cons x xs ihx ihxs =>
      apply (ihx ht.1).bind
      intro x' hx _
      apply (ihxs ht.2).bind
      intro xs' hxs _
      exact .pure ⟨hx, hxs⟩
  | _ => exact .pure ht

theorem accepts_descriptorComponent {t : TypeTree Unit .arrayDescriptor} (ht : t.WellFormed) :
    Accepts WellFormed (t.descriptorComponent : ExceptT ε StrictM _) t.descriptorComponent := by
  cases t with
  | arrayDescriptor i d b =>
      obtain ⟨⟨hone, hmax⟩, hbase, hb⟩ := ht
      show Accepts _ (if d = 1 then _ else _) (if d = 1 then _ else _)
      split_ifs with hd
      · exact .pure hb
      · have hlower : 1 ≤ d - 1 ∧ d - 1 ≤ maxDimension := by omega
        exact Accepts.map (.intern ⟨hlower, hbase, hb⟩) fun _ h => h

theorem accepts_typeComponent {t : TypeTree Unit .arrayType} (ht : t.WellFormed) :
    Accepts WellFormed (t.typeComponent : ExceptT ε StrictM _) t.typeComponent := by
  cases t with
  | arrayType i d b =>
      obtain ⟨⟨hone, hmax⟩, hbase, hb⟩ := ht
      show Accepts _ (if d = 1 then _ else _) (if d = 1 then _ else _)
      split_ifs with hd
      · exact .pure hb
      · have hlower : 1 ≤ d - 1 ∧ d - 1 ≤ maxDimension := by omega
        exact Accepts.map (.intern ⟨hlower, hbase, hb⟩) fun _ h => h

end TypeTree

end ClassfileTypes
