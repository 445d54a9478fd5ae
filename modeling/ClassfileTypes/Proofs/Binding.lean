import ClassfileTypes.Proofs.Making
import ClassfileTypes.Tree.Binding

/-!
# Binding refines its plain version

The tree and the declarations of the scope are held by whoever asks, so they are
trees of the pool all along. Binding changes variables only; so names are still
valid where they stand, arrays are still flat, and no parameter becomes `void`.
-/

namespace ClassfileTypes

namespace TypeTree

@[simp] theorem freeNames_mapTags {ι κ : Type} (g : ι → κ) {f : Form} (t : TypeTree ι f) :
    (t.mapTags g).freeNames = t.freeNames := by
  induction t <;> simp only [mapTags, freeNames, *]

@[simp] theorem freeNames_plain {ι : Type} {f : Form} (t : TypeTree ι f) :
    t.plain.freeNames = t.freeNames :=
  freeNames_mapTags _ t

variable {s : Scope Unit}

theorem acceptsName_of_bind {o o' : TypeTree Unit .enclosing}
    (h : (o.bind s : ExceptT TypeError Id _).run = .ok o') (n : String) :
    o'.AcceptsName n ↔ o.AcceptsName n := by
  cases o with
  | topLevel =>
      obtain rfl := Except.ok.inj h
      rfl
  | nestedIn c =>
      obtain ⟨c', -, rfl⟩ := run_map_eq_ok.mp h
      rfl

theorem shape_of_bind {t t' : TypeTree Unit .typeSignature}
    (h : (t.bind s : ExceptT TypeError Id _).run = .ok t') :
    t'.isVoid = t.isVoid ∧ t'.isArray = t.isArray := by
  cases t with
  | sigPrimitive c | sigVoid =>
      obtain rfl := Except.ok.inj h
      exact ⟨rfl, rfl⟩
  | sigReference r =>
      obtain ⟨r', hr, rfl⟩ := run_map_eq_ok.mp h
      cases r with
      | refClass c | refArray c | refVariable c =>
          obtain ⟨c', -, rfl⟩ := run_map_eq_ok.mp hr
          exact ⟨rfl, rfl⟩

theorem notVoid_of_bind (ps ps' : TypeTree Unit (.list .typeSignature))
    (h : (ps.bind s : ExceptT TypeError Id _).run = .ok ps')
    (hps : ∀ t ∈ ps.entries, t.isVoid = false) : ∀ t ∈ ps'.entries, t.isVoid = false := by
  match ps with
  | .nil =>
      obtain rfl := Except.ok.inj h
      exact hps
  | .cons x xs =>
      obtain ⟨x', hx, h⟩ := run_bind_eq_ok.mp h
      obtain ⟨xs', hxs, h⟩ := run_bind_eq_ok.mp h
      obtain rfl := Except.ok.inj h
      obtain ⟨hvoid, hvoids⟩ := List.forall_mem_cons.mp hps
      refine List.forall_mem_cons.mpr ⟨?_, notVoid_of_bind xs xs' hxs hvoids⟩
      exact (shape_of_bind hx).1.trans hvoid

end TypeTree

namespace Pool

open TypeTree

variable {canonical : Prop} {p q : Pool} {f : Form}

theorem Holds.of_mem_parts {t : TypeTree Nat f} (h : p.Holds canonical t) {x : AnyTree Nat}
    (hx : x ∈ t.parts) : p.Holds canonical x.2 :=
  ⟨h.good.of_mem_parts hx, h.kept.of_mem_parts hx⟩

/-- What is held, part by part: for a given tree this is a conjunction. -/
theorem Holds.parts {t : TypeTree Nat f} (h : p.Holds canonical t) :
    t.parts.Forall fun x => p.Holds canonical x.2 :=
  List.forall_iff_forall_mem.mpr fun _ hx => h.of_mem_parts hx

theorem Holds.entries (xs : TypeTree Nat (.list f)) (h : p.Holds canonical xs) :
    ∀ x ∈ xs.entries, p.Holds canonical x :=
  forall_mem_entries (P := fun v => p.Holds canonical v.2) (fun _ hv _ hx => hv.of_mem_parts hx) h

/-! ## Scopes -/

/-- A scope of trees that are held. -/
structure HoldsScope (canonical : Prop) (p : Pool) (s : Scope Nat) (s' : Scope Unit) : Prop where
  held : ∀ x d, s x = some d → p.Holds canonical d
  agrees : ∀ x, s' x = (s x).map plain

variable {s : Scope Nat} {s' : Scope Unit}

namespace HoldsScope

theorem mono (h : HoldsScope canonical p s s') (hext : p.Extends q) :
    HoldsScope canonical q s s' :=
  ⟨fun x d hd => hext.holds (h.held x d hd), h.agrees⟩

theorem hold {t : TypeTree Nat f} (h : HoldsScope canonical p s s') :
    HoldsScope canonical (p.hold t) s s' :=
  ⟨fun x d hd => (h.held x d hd).hold, h.agrees⟩

theorem empty : HoldsScope canonical p Scope.empty Scope.empty :=
  ⟨fun _ _ hd => (nomatch hd), fun _ => rfl⟩

theorem ofParameters {ps : List (TypeTree Nat .typeParameter)}
    (hps : ∀ d ∈ ps, p.Holds canonical d) :
    HoldsScope canonical p (Scope.ofParameters ps) (Scope.ofParameters (ps.map plain)) := by
  constructor
  · intro x d hd
    exact hps d (List.mem_of_find?_eq_some hd)
  · intro x
    unfold Scope.ofParameters
    rw [List.find?_map]
    congr 2
    funext d
    exact congrArg (fun n => decide (n = x)) (name_mapTags _ d)

theorem within {outer : Scope Nat} {outer' : Scope Unit} (h : HoldsScope canonical p s s')
    (houter : HoldsScope canonical p outer outer') :
    HoldsScope canonical p (s.within outer) (s'.within outer') := by
  constructor
  · intro x d hd
    unfold Scope.within at hd
    cases hs : s x with
    | some d' =>
        rw [hs] at hd
        exact h.held x d (hs.trans hd)
    | none =>
        rw [hs] at hd
        exact houter.held x d hd
  · intro x
    unfold Scope.within
    rw [h.agrees, houter.agrees]
    cases s x <;> rfl

end HoldsScope

/-! ## Declarations

What follows the type parameters of a declaration is bound in the same way
whether or not they extend the scope. -/

/-- Binding a tree refines its plain version, whenever the tree and the scope are held. -/
def Binds (canonical : Prop) (s : Scope Nat) (s' : Scope Unit) (t : TypeTree Nat f) : Prop :=
  ∀ {q : Pool}, q.Holds canonical t → HoldsScope canonical q s s' →
    Refines canonical (Tagged canonical) q (t.bind s) (t.plain.bind s')

theorem refines_bindMethodParts {ts : TypeTree Nat (.list .typeParameter)}
    {ts' : TypeTree Unit (.list .typeParameter)} {ps : TypeTree Nat (.list .typeSignature)}
    {r : TypeTree Nat .typeSignature} {es : TypeTree Nat (.list .throwsType)}
    (hts : Tagged canonical p ts ts') (hps : p.Holds canonical ps) (hr : p.Holds canonical r)
    (hes : p.Holds canonical es) (hs : HoldsScope canonical (p.hold ts) s s')
    (hvoid : ∀ t ∈ ps.entries, t.isVoid = false) (bindPs : Binds canonical s s' ps)
    (bindR : Binds canonical s s' r) (bindEs : Binds canonical s s' es) :
    Refines canonical (Tagged canonical) p
      (MonadPool.holding ts do
        let ps ← ps.bind s
        MonadPool.holding ps do
          let r ← r.bind s
          let es ← MonadPool.holding r (es.bind s)
          MonadPool.intern (TypeTree.methodSignature · ts ps r es) : ExceptT TypeError PoolM _)
      (MonadPool.holding ts' do
        let ps ← ps.plain.bind s'
        MonadPool.holding ps do
          let r ← r.plain.bind s'
          let es ← MonadPool.holding r (es.plain.bind s')
          MonadPool.intern (TypeTree.methodSignature · ts' ps r es)) := by
  apply Refines.held hts.good
  apply Refines.bind (bindPs hps.hold hs)
  intro q₁ ps₁ ps₁' hext₁ hps₁ hrun
  have hvoid₁ : ∀ t ∈ ps₁.entries, t.isVoid = false := by
    have hplain := notVoid_of_bind ps.plain ps₁' hrun (by simpa [plain] using hvoid)
    rw [← hps₁.plain] at hplain
    simpa [plain] using hplain
  have hts₁ := (hext₁.holds hts.good.holds_hold).hold (u := ps₁)
  have hr₁ := (hext₁.holds hr.hold).hold (u := ps₁)
  have hes₁ := (hext₁.holds hes.hold).hold (u := ps₁)
  have hs₁ := (hs.mono hext₁).hold (t := ps₁)
  apply Refines.held hps₁.good
  apply Refines.bind_holding (R := Tagged canonical) (bindR hr₁ hs₁)
  · intro q₂ r₂ r₂' hext₂ hr₂
    exact bindEs (hext₂.holds hes₁).hold (hs₁.mono hext₂).hold
  · intro q₂ r₂ r₂' es₂ es₂' hext₂ hr₂ _ hes₂ _
    have hts₂ := hext₂.holds hts₁
    have hps₂ := hext₂.holds hps₁.good.holds_hold
    exact Refines.lift (runs_methodSignature hvoid₁ ⟨hts₂.good, hts.plain⟩
      ⟨hps₂.good, hps₁.plain⟩ hr₂ hes₂)

theorem refines_bindClassParts {ts : TypeTree Nat (.list .typeParameter)}
    {ts' : TypeTree Unit (.list .typeParameter)} {c : TypeTree Nat .classType}
    {is : TypeTree Nat (.list .classType)} (hts : Tagged canonical p ts ts')
    (hc : p.Holds canonical c) (his : p.Holds canonical is)
    (hs : HoldsScope canonical (p.hold ts) s s') (bindC : Binds canonical s s' c)
    (bindIs : Binds canonical s s' is) :
    Refines canonical (Tagged canonical) p
      (MonadPool.holding ts do
        let c ← c.bind s
        let is ← MonadPool.holding c (is.bind s)
        MonadPool.intern (TypeTree.classSignature · ts c is) : ExceptT TypeError PoolM _)
      (MonadPool.holding ts' do
        let c ← c.plain.bind s'
        let is ← MonadPool.holding c (is.plain.bind s')
        MonadPool.intern (TypeTree.classSignature · ts' c is)) := by
  apply Refines.held hts.good
  apply Refines.bind_holding (R := Tagged canonical) (bindC hc.hold hs)
  · intro q₁ c₁ c₁' hext₁ hc₁
    exact bindIs (hext₁.holds his.hold).hold (hs.mono hext₁).hold
  · intro q₁ c₁ c₁' is₁ is₁' hext₁ hc₁ _ his₁ _
    have hts₁ := hext₁.holds hts.good.holds_hold
    exact Refines.lift (runs_classSignature ⟨hts₁.good, hts.plain⟩ hc₁ his₁)

/-! ## Trees -/

theorem refines_bind {t : TypeTree Nat f} (ht : p.Holds canonical t)
    (hs : HoldsScope canonical p s s') :
    Refines canonical (Tagged canonical) p (t.bind s) (t.plain.bind s') := by
  induction t generalizing p with
  | freeVariable i n =>
      -- The only tree for which the scope is asked.
      simp only [TypeTree.bind, TypeTree.plain, mapTags, hs.agrees n]
      cases hn : s n with
      | some d => exact Refines.lift (runs_boundVariable (.of_good (hs.held n d hn).good))
      | none => exact Refines.throw
  | sigReference r ih =>
      exact Refines.map (ih ht.parts hs) fun _ _ _ h => h.sigReference
  | refClass c ih => exact Refines.map (ih ht.parts hs) fun _ _ _ h => h.refClass
  | refArray a ih => exact Refines.map (ih ht.parts hs) fun _ _ _ h => h.refArray
  | refVariable v ih =>
      exact Refines.map (ih ht.parts hs) fun _ _ _ h => h.refVariable
  | throwsClass c ih =>
      exact Refines.map (ih ht.parts hs) fun _ _ _ h => h.throwsClass
  | throwsVariable v ih =>
      exact Refines.map (ih ht.parts hs) fun _ _ _ h => h.throwsVariable
  | nestedIn c ih => exact Refines.map (ih ht.parts hs) fun _ _ _ h => h.nestedIn
  | boundedBy r ih => exact Refines.map (ih ht.parts hs) fun _ _ _ h => h.boundedBy
  | argReference r ih =>
      exact Refines.map (ih ht.parts hs) fun _ _ _ h => h.argReference
  | argBounded b ih =>
      exact Refines.map (ih ht.parts hs) fun _ _ _ h => h.argBounded
  | classType i o n as iho ihas =>
      obtain ⟨ho, has⟩ := ht.parts
      apply Refines.bind_holding (R := Tagged canonical) (iho ho hs)
      · intro q o₁ o₁' hext ho₁
        exact ihas (hext.holds has).hold (hs.mono hext).hold
      · intro q o₁ o₁' as₁ as₁' hext ho₁ hrun has₁ _
        -- What encloses a class accepts the same names when it is bound.
        have hname : o₁.AcceptsName n := by
          have hplain := (acceptsName_of_bind hrun n).mpr
            ((acceptsName_mapTags _ o n).mpr ht.good.wellFormed.1)
          rw [← ho₁.plain] at hplain
          exact (acceptsName_mapTags _ o₁ n).mp hplain
        exact Refines.lift (runs_classType hname ho₁ has₁)
  | arrayType i d b ih =>
      apply Refines.bind (ih ht.parts hs)
      intro q b₁ b₁' hext hb₁ hrun
      have hbase : b₁.IsBase := by
        obtain ⟨hvoid, harray⟩ := shape_of_bind hrun
        have hplain : b₁'.IsBase := by
          unfold IsBase
          rw [hvoid, harray]
          exact (isBase_mapTags _ b).mpr ht.good.wellFormed.2.1
        rw [← hb₁.plain] at hplain
        exact (isBase_mapTags _ b₁).mp hplain
      exact Refines.lift (runs_arrayType ht.good.wellFormed.1 hbase hb₁)
  | typeParameter i n c is ihc ihis =>
      obtain ⟨hc, his⟩ := ht.parts
      apply Refines.bind_holding (R := Tagged canonical) (ihc hc hs)
      · intro q c₁ c₁' hext hc₁
        exact ihis (hext.holds his).hold (hs.mono hext).hold
      · intro q c₁ c₁' is₁ is₁' _ hc₁ _ his₁ _
        exact refines_makeTypeParameter n hc₁ his₁
  | boundedArgument i d r ih =>
      apply Refines.bind (ih ht.parts hs)
      intro q r₁ r₁' _ hr₁ _
      exact Refines.lift (runs_boundedArgument d hr₁)
  | methodSignature i ts ps r es ihts ihps ihr ihes =>
      obtain ⟨hts, hps, hr, hes⟩ := ht.parts
      apply Refines.bind (ihts hts hs)
      intro q₁ ts₁ ts₁' hext hts₁ _
      exact refines_bindMethodParts hts₁ (hext.holds hps) (hext.holds hr) (hext.holds hes)
        (hs.mono hext).hold ht.good.wellFormed.1 ihps ihr ihes
  | classSignature i ts c is ihts ihc ihis =>
      obtain ⟨hts, hc, his⟩ := ht.parts
      apply Refines.bind (ihts hts hs)
      intro q₁ ts₁ ts₁' hext hts₁ _
      exact refines_bindClassParts hts₁ (hext.holds hc) (hext.holds his) (hs.mono hext).hold
        ihc ihis
  | cons x xs ihx ihxs =>
      obtain ⟨hx, hxs⟩ := ht.parts
      apply Refines.bind_holding (R := Tagged canonical) (ihx hx hs)
      · intro q x₁ x₁' hext hx₁
        exact ihxs (hext.holds hxs).hold (hs.mono hext).hold
      · intro q x₁ x₁' xs₁ xs₁' _ hx₁ _ hxs₁ _
        exact Refines.pure (hx₁.cons hxs₁)
  | _ => exact Refines.pure (.of_good ht.good)

/-! ## Resolving declarations -/

variable {outer : Scope Nat} {outer' : Scope Unit}

/-- The scope of declarations that are held, and then an outer scope. -/
theorem HoldsScope.ofDeclarations {ts : TypeTree Nat (.list .typeParameter)}
    {ts' : TypeTree Unit (.list .typeParameter)} (hts : p.Holds canonical ts)
    (hplain : ts.plain = ts') (houter : HoldsScope canonical p outer outer') :
    HoldsScope canonical p ((Scope.ofParameters ts.entries).within outer)
      ((Scope.ofParameters ts'.entries).within outer') := by
  rw [← hplain, show ts.plain.entries = ts.entries.map plain from entries_mapTags _ ts]
  exact (HoldsScope.ofParameters (Holds.entries ts hts)).within houter

theorem refines_resolveRounds {declared resolved : TypeTree Nat (.list .typeParameter)}
    {resolved' : TypeTree Unit (.list .typeParameter)} (rounds : Nat)
    (hdeclared : p.Holds canonical declared) (hresolved : Tagged canonical p resolved resolved')
    (houter : HoldsScope canonical p outer outer') :
    Refines canonical (Tagged canonical) p (resolveRounds declared outer rounds resolved)
      (resolveRounds declared.plain outer' rounds resolved') := by
  induction rounds generalizing p resolved resolved' with
  | zero => exact Refines.pure hresolved
  | succ rounds ih =>
      have hscope : HoldsScope canonical (p.hold resolved) _ _ :=
        .ofDeclarations hresolved.good.holds_hold hresolved.plain houter.hold
      apply Refines.bind (Refines.held hresolved.good (refines_bind hdeclared.hold hscope))
      intro q next next' hext hnext _
      exact ih (hext.holds hdeclared) hnext (houter.mono hext)

theorem refines_resolve {declared : TypeTree Nat (.list .typeParameter)}
    (hdeclared : p.Holds canonical declared) (houter : HoldsScope canonical p outer outer') :
    Refines canonical (Tagged canonical) p (resolve declared outer)
      (resolve declared.plain outer') := by
  unfold resolve
  rw [show declared.plain.entries = _ from entries_mapTags _ declared, List.length_map]
  exact refines_resolveRounds _ hdeclared (.of_good hdeclared.good) houter

theorem refines_bindMethod {t : TypeTree Nat .methodSignature} (ht : p.Holds canonical t)
    (houter : HoldsScope canonical p outer outer') :
    Refines canonical (Tagged canonical) p (bindMethod outer t) (bindMethod outer' t.plain) := by
  cases t with
  | methodSignature i ts ps r es =>
      obtain ⟨hts, hps, hr, hes⟩ := ht.parts
      apply Refines.bind (refines_resolve hts houter)
      intro q ts₁ ts₁' hext hts₁ _
      have hscope : HoldsScope canonical (q.hold ts₁) _ _ :=
        .ofDeclarations hts₁.good.holds_hold hts₁.plain (houter.mono hext).hold
      exact refines_bindMethodParts hts₁ (hext.holds hps) (hext.holds hr) (hext.holds hes)
        hscope ht.good.wellFormed.1 refines_bind refines_bind refines_bind

theorem refines_bindClass {t : TypeTree Nat .classSignature} (ht : p.Holds canonical t)
    (houter : HoldsScope canonical p outer outer') :
    Refines canonical (Tagged canonical) p (bindClass outer t) (bindClass outer' t.plain) := by
  cases t with
  | classSignature i ts c is =>
      obtain ⟨hts, hc, his⟩ := ht.parts
      apply Refines.bind (refines_resolve hts houter)
      intro q ts₁ ts₁' hext hts₁ _
      have hscope : HoldsScope canonical (q.hold ts₁) _ _ :=
        .ofDeclarations hts₁.good.holds_hold hts₁.plain (houter.mono hext).hold
      exact refines_bindClassParts hts₁ (hext.holds hc) (hext.holds his) hscope refines_bind
        refines_bind

theorem refines_memberScope {t : TypeTree Nat .classSignature} (ht : p.Holds canonical t) :
    Refines canonical (Tagged canonical) p (memberScope t) (memberScope t.plain) := by
  cases t with
  | classSignature i ts c is =>
      obtain ⟨hts, -⟩ := ht.parts
      exact refines_resolve hts .empty

end Pool

end ClassfileTypes
