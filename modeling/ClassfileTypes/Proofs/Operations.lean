import ClassfileTypes.Proofs.Conversion
import ClassfileTypes.Proofs.Parsing
import ClassfileTypes.Session.Expression

/-!
# The operations of expressions refine their plain versions

Conversions, checked constructions, erasure and binding as an expression uses
them: on values of any form, with failures reported as failures of the
evaluation. The declarations of a scope are held together.
-/

namespace ClassfileTypes.Pool

open Evaluation TypeTree

variable {canonical : Prop} {p q : Pool} {f : Form} {α β γ δ ε : Type} {R : Pool → α → β → Prop}
  {T : Pool → γ → δ → Prop} {v : AnyTree Nat} {v' : AnyTree Unit}

/-! ## Holding several trees -/

instance (ts : List (TypeTree Nat f)) :
    Lasting (fun (q : Pool) (_ : α) (_ : β) => ∀ t ∈ ts, q.Good canonical t) where
  congr hnext hregistry h := fun t ht => (h t ht).congr hnext hregistry

/-- The pool while several trees are held. -/
def holdAll (p : Pool) (ts : List (TypeTree Nat f)) : Pool :=
  ts.foldl hold p

theorem Holds.holdAll {g : Form} {u : TypeTree Nat g} (h : p.Holds canonical u)
    (ts : List (TypeTree Nat f)) : (p.holdAll ts).Holds canonical u := by
  induction ts generalizing p with
  | nil => exact h
  | cons t ts ih => exact ih h.hold

/-- What is held together is kept alive. -/
theorem holds_holdAll {ts : List (TypeTree Nat f)} (hts : ∀ t ∈ ts, p.Good canonical t) :
    ∀ t ∈ ts, (p.holdAll ts).Holds canonical t := by
  induction ts generalizing p with
  | nil => exact fun _ ht => absurd ht List.not_mem_nil
  | cons t ts ih =>
      obtain ⟨ht, hts⟩ := List.forall_mem_cons.mp hts
      exact List.forall_mem_cons.mpr ⟨ht.holds_hold.holdAll ts, ih fun u hu => (hts u hu).hold⟩

/-- Holding several trees. -/
theorem Refines.holdingAll [Lasting R] {ts : List (TypeTree Nat f)}
    {ts' : List (TypeTree Unit f)} {x : ExceptT ε PoolM α} {y : ExceptT ε Id β}
    (hts : ∀ t ∈ ts, p.Good canonical t) (hx : Refines canonical R (p.holdAll ts) x y) :
    Refines canonical (fun q a b => R q a b ∧ ∀ t ∈ ts, q.Good canonical t) p
      (ClassfileTypes.holdingAll ts x) (ClassfileTypes.holdingAll ts' y) := by
  have hplain : ClassfileTypes.holdingAll ts' y = y := by
    induction ts' with
    | nil => rfl
    | cons t ts' ih => exact ih
  rw [hplain]
  induction ts generalizing p with
  | nil => exact hx.mono fun q a b _ hR => ⟨hR, fun _ ht => absurd ht List.not_mem_nil⟩
  | cons t ts ih =>
      obtain ⟨ht, hts⟩ := List.forall_mem_cons.mp hts
      have hrest := ih (fun u hu => (hts u hu).hold) hx
      have hheld := Refines.holding (u := t.plain) ht hrest
      apply hheld.mono
      rintro q a b - ⟨⟨hR, hgood⟩, ht⟩
      exact ⟨hR, List.forall_mem_cons.mpr ⟨ht, hgood⟩⟩

/-! ## Values -/

/-- A construction reports its refusal in a mode. -/
theorem refines_construct (mode : Mode) {x : ExceptT TypeError PoolM (TypeTree Nat f)}
    {y : ExceptT TypeError Id (TypeTree Unit f)} (hx : Refines canonical (Tagged canonical) p x y) :
    Refines canonical (TaggedAny canonical) p (construct mode x) (construct mode y) :=
  Refines.adapt _ (Refines.map hx fun _ _ _ h => h.any)

/-- A conversion makes nothing: what goes on with its result starts where it did. -/
theorem Refines.converted_bind {convert : ∀ {ι : Type}, AnyTree ι → Converted ι f}
    (hconvert : AnyTree.IsConversion convert) (hv : TaggedAny canonical p v v')
    {k : TypeTree Nat f → Evaluation PoolM γ} {l : TypeTree Unit f → Evaluation Id δ}
    (hk : ∀ t u, Tagged canonical p t u → Refines canonical T p (k t) (l u)) :
    Refines canonical T p (converted (convert v) >>= k) (converted (convert v') >>= l) := by
  obtain ⟨hgood, rfl⟩ := hv
  rw [hconvert.plain v]
  cases hc : convert v with
  | error e => exact Refines.throw
  | ok t => exact hk t t.plain (.of_good (hgood.restates (hconvert.restates v t hc)))

/-- A computation, and the conversion of what it gives. -/
theorem Refines.bind_converted {convert : ∀ {ι : Type}, AnyTree ι → Converted ι f}
    (hconvert : AnyTree.IsConversion convert) {x : Evaluation PoolM (AnyTree Nat)}
    {y : Evaluation Id (AnyTree Unit)} (hx : Refines canonical (TaggedAny canonical) p x y)
    {k : TypeTree Nat f → Evaluation PoolM γ} {l : TypeTree Unit f → Evaluation Id δ}
    (hk : ∀ q t u, p.Extends q → Tagged canonical q t u → Refines canonical T q (k t) (l u)) :
    Refines canonical T p (x >>= fun v => converted (convert v) >>= k)
      (y >>= fun v => converted (convert v) >>= l) := by
  apply Refines.bind hx
  intro q v v' hext hv _
  apply Refines.converted_bind hconvert hv
  intro t u ht
  exact hk q t u hext ht

theorem refines_convertTo (hv : TaggedAny canonical p v v') (target : Target) :
    Refines canonical (TaggedAny canonical) p (convertTo v target) (convertTo v' target) := by
  have hconverted : ∀ {f : Form} {convert : ∀ {ι : Type}, AnyTree ι → Converted ι f},
      AnyTree.IsConversion convert →
        Refines canonical (TaggedAny canonical) p
          ((fun t => (⟨f, t⟩ : AnyTree Nat)) <$> converted (m := PoolM) (convert v))
          ((fun t => (⟨f, t⟩ : AnyTree Unit)) <$> converted (m := Id) (convert v')) := by
    intro f convert hconvert
    rw [← bind_pure_comp, ← bind_pure_comp]
    exact Refines.converted_bind hconvert hv fun t u ht => Refines.pure ht.any
  cases target with
  | typeDescriptor => exact hconverted AnyTree.isConversion_toTypeDescriptor
  | typeSignature => exact hconverted AnyTree.isConversion_toTypeSignature
  | referenceType => exact hconverted AnyTree.isConversion_toReferenceType
  | throwsType => exact hconverted AnyTree.isConversion_toThrowsType
  | typeArgument => exact hconverted AnyTree.isConversion_toTypeArgument

theorem TaggedAny.inner (hv : TaggedAny canonical p v v') :
    TaggedAny canonical p v.inner v'.inner := by
  obtain ⟨hgood, rfl⟩ := hv
  exact ⟨hgood.restates (AnyTree.restates_inner v), (AnyTree.inner_plain v).symm⟩

theorem refines_signatureOf (hv : TaggedAny canonical p v v') :
    Refines canonical (TaggedAny canonical) p (signatureOf v) (signatureOf v') := by
  obtain ⟨hgood, rfl⟩ := hv
  unfold signatureOf
  rw [AnyTree.title_plain]
  show Refines _ _ _ (if v.1.isDescriptor then _ else _) (if v.1.isDescriptor then _ else _)
  split_ifs
  · apply Refines.held hgood
    apply Refines.bind (refines_raise hgood.holds_hold)
    intro q t t' _ ht _
    exact Refines.pure ht.any
  · exact Refines.throw

theorem refines_erasureOf (mode : Mode) (hv : TaggedAny canonical p v v') :
    Refines canonical (TaggedAny canonical) p (erasureOf mode v) (erasureOf mode v') := by
  obtain ⟨hgood, rfl⟩ := hv
  unfold erasureOf
  rw [AnyTree.title_plain, AnyTree.isErasable_plain]
  split_ifs
  · exact Refines.held hgood (refines_construct mode (refines_erase hgood.holds_hold))
  · exact Refines.throw

/-! ## Declarations and scopes -/

/-- Declarations of the pool, and the same ones without their tags. -/
structure TaggedDeclarations (canonical : Prop) (p : Pool) (ds : Declarations Nat)
    (ds' : Declarations Unit) : Prop where
  good : ∀ d ∈ ds, p.Good canonical d.2
  plain : ds' = ds.map fun d => (d.1, d.2.plain)

variable {ds : Declarations Nat} {ds' : Declarations Unit}

instance : Lasting (TaggedDeclarations canonical) where
  congr hnext hregistry h := ⟨fun d hd => (h.good d hd).congr hnext hregistry, h.plain⟩

theorem TaggedDeclarations.nil : TaggedDeclarations canonical p [] [] :=
  ⟨fun _ hd => absurd hd List.not_mem_nil, rfl⟩

theorem TaggedDeclarations.cons {d : TypeTree Nat .typeParameter}
    {d' : TypeTree Unit .typeParameter} (name : String) (hd : Tagged canonical p d d')
    (hds : TaggedDeclarations canonical p ds ds') :
    TaggedDeclarations canonical p ((name, d) :: ds) ((name, d') :: ds') := by
  refine ⟨List.forall_mem_cons.mpr ⟨hd.good, hds.good⟩, ?_⟩
  rw [List.map_cons, ← hds.plain, hd.plain]

theorem TaggedDeclarations.append {es : Declarations Nat} {es' : Declarations Unit}
    (hds : TaggedDeclarations canonical p ds ds') (hes : TaggedDeclarations canonical p es es') :
    TaggedDeclarations canonical p (ds ++ es) (ds' ++ es') := by
  refine ⟨List.forall_mem_append.mpr ⟨hds.good, hes.good⟩, ?_⟩
  rw [List.map_append, ← hds.plain, ← hes.plain]

theorem Good.entries {xs : TypeTree Nat (.list f)} (h : p.Good canonical xs) :
    ∀ x ∈ xs.entries, p.Good canonical x :=
  forall_mem_entries (P := fun v => p.Good canonical v.2) (fun _ hv _ hx => hv.of_mem_parts hx) h

/-- The scope of declarations that are held. -/
theorem HoldsScope.ofNamed (hds : ∀ d ∈ ds, p.Holds canonical d.2)
    (hplain : ds' = ds.map fun d => (d.1, d.2.plain)) :
    HoldsScope canonical p (Scope.ofNamed ds) (Scope.ofNamed ds') := by
  subst hplain
  constructor
  · intro x d hd
    exact hds (x, d) (mem_of_lookup_eq_some hd)
  · intro x
    exact lookup_map_values (fun _ d => d.plain) x ds

/-- Computing in the scope of declarations. -/
theorem Refines.inScope [Lasting R] {x : Scope Nat → Evaluation PoolM α}
    {y : Scope Unit → Evaluation Id β} (hds : TaggedDeclarations canonical p ds ds')
    (hx : ∀ s s', HoldsScope canonical (p.holdAll (ds.map (·.2))) s s' →
      Refines canonical R (p.holdAll (ds.map (·.2))) (x s) (y s')) :
    Refines canonical R p (Evaluation.inScope ds x) (Evaluation.inScope ds' y) := by
  have hgood : ∀ d ∈ ds.map (·.2), p.Good canonical d := List.forall_mem_map.mpr hds.good
  have hheld := holds_holdAll hgood
  have hscope := HoldsScope.ofNamed (fun d hd => hheld d.2 (List.mem_map_of_mem hd)) hds.plain
  exact (Refines.holdingAll hgood (hx _ _ hscope)).mono fun _ _ _ _ h => h.1

theorem refines_bound {s : Scope Nat} {s' : Scope Unit} (hv : p.Holds canonical v.2)
    (hs : HoldsScope canonical p s s') :
    Refines canonical (TaggedAny canonical) p (bound v s) (bound v.plain s') := by
  unfold bound
  rw [AnyTree.title_plain]
  show Refines _ _ _ (if v.1.isBindable then _ else _) (if v.1.isBindable then _ else _)
  split_ifs
  · exact refines_construct _ (refines_bind hv hs)
  · exact Refines.throw

theorem refines_boundDeclared {s : Scope Nat} {s' : Scope Unit} (hv : p.Holds canonical v.2)
    (hs : HoldsScope canonical p s s') :
    Refines canonical (TaggedAny canonical) p (boundDeclared v s) (boundDeclared v.plain s') := by
  obtain ⟨g, t⟩ := v
  cases t with
  | methodSignature i ts ps r es => exact refines_construct _ (refines_bindMethod hv hs)
  | classSignature i ts c is => exact refines_construct _ (refines_bindClass hv hs)
  | _ => exact Refines.throw

/-- Trees of the pool, and the same ones without their tags. -/
structure TaggedAll (canonical : Prop) (p : Pool) (ts : List (TypeTree Nat f))
    (ts' : List (TypeTree Unit f)) : Prop where
  good : ∀ t ∈ ts, p.Good canonical t
  plain : ts' = ts.map TypeTree.plain

instance : Lasting (TaggedAll canonical (f := f)) where
  congr hnext hregistry h := ⟨fun t ht => (h.good t ht).congr hnext hregistry, h.plain⟩

theorem Tagged.entries {xs : TypeTree Nat (.list f)} {xs' : TypeTree Unit (.list f)}
    (h : Tagged canonical p xs xs') : TaggedAll canonical p xs.entries xs'.entries := by
  obtain ⟨hgood, rfl⟩ := h
  exact ⟨hgood.entries, entries_mapTags _ xs⟩

/-- Type parameters under their own names. -/
theorem TaggedAll.ownNames {ps : List (TypeTree Nat .typeParameter)}
    {ps' : List (TypeTree Unit .typeParameter)} (h : TaggedAll canonical p ps ps') :
    TaggedDeclarations canonical p (Evaluation.ownNames ps) (Evaluation.ownNames ps') := by
  obtain ⟨hgood, rfl⟩ := h
  constructor
  · exact List.forall_mem_map.mpr hgood
  · unfold Evaluation.ownNames
    rw [List.map_map, List.map_map]
    apply List.map_congr_left
    intro d _
    exact congrArg (·, d.plain) (name_mapTags _ d)

theorem refines_membersOf (hv : TaggedAny canonical p v v') :
    Refines canonical (TaggedAll canonical) p (membersOf v) (membersOf v') := by
  obtain ⟨hgood, rfl⟩ := hv
  obtain ⟨g, t⟩ := v
  cases t with
  | classSignature i ts c is =>
      apply Refines.held hgood
      apply Refines.adapt
      exact Refines.map (refines_memberScope hgood.holds_hold) fun _ _ _ h => h.entries
  | _ => exact Refines.throw

end ClassfileTypes.Pool
