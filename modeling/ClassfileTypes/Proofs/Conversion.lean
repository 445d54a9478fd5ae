import ClassfileTypes.Proofs.Erasure
import ClassfileTypes.Tree.Conversion
import ClassfileTypes.Tree.Part

/-!
# Conversions and parts refine their plain versions

A conversion restates a tree in another form: no object is made, and the tree
reaches the objects that it reached before. So does the tree inside a tree. A
named part of a tree is one of the trees below it, except for the two that are
made.
-/

namespace ClassfileTypes

open TypeTree

variable {ι : Type} {f g : Form}

/-! ## Restating a tree -/

/-- A tree in another form. -/
structure TypeTree.Restates (t : TypeTree ι f) (u : TypeTree ι g) : Prop where
  tags : u.tags = t.tags
  nodes : u.nodes = t.nodes
  wellFormed : t.WellFormed → u.WellFormed

namespace AnyTree

theorem title_plain (v : AnyTree Nat) : v.plain.title = v.title := by
  unfold title plain
  rw [show v.2.plain.composite? = _ from composite?_mapTags _ v.2]

/-- A conversion does not look at tags, and what it gives restates the tree. -/
structure IsConversion (convert : ∀ {ι : Type}, AnyTree ι → Converted ι f) : Prop where
  plain : ∀ v : AnyTree Nat, convert v.plain = (convert v).map TypeTree.plain
  restates : ∀ {ι : Type} (v : AnyTree ι) (t : TypeTree ι f), convert v = .ok t → v.2.Restates t

theorem isConversion_toTypeDescriptor : IsConversion toTypeDescriptor where
  plain := by
    rintro ⟨g, t⟩
    cases t <;> rfl
  restates := by
    rintro ι ⟨g, t⟩ u h
    cases t <;> cases h <;> exact ⟨rfl, rfl, id⟩

theorem isConversion_toTypeSignature : IsConversion toTypeSignature where
  plain := by
    rintro ⟨g, t⟩
    cases t <;> rfl
  restates := by
    rintro ι ⟨g, t⟩ u h
    cases t <;> cases h <;> exact ⟨rfl, rfl, id⟩

theorem isConversion_toReferenceType : IsConversion toReferenceType where
  plain := by
    rintro ⟨g, t⟩
    cases t <;> rfl
  restates := by
    rintro ι ⟨g, t⟩ u h
    cases t <;> cases h <;> exact ⟨rfl, rfl, id⟩

theorem isConversion_toThrowsType : IsConversion toThrowsType where
  plain := by
    rintro ⟨g, t⟩
    -- An array is refused with its text, which does not show tags.
    have harray : ∀ {g : Form} (t : TypeTree Nat g),
        (narrowed ⟨g, t.plain⟩ none : Converted Unit .throwsType) =
          (narrowed ⟨g, t⟩ none : Converted Nat .throwsType).map TypeTree.plain := by
      intro g t
      unfold narrowed
      rw [internal_plain]
      rfl
    cases t with
    | refArray a => exact harray (.refArray a)
    | sigReference r =>
        cases r with
        | refArray a => exact harray (.sigReference (.refArray a))
        | _ => rfl
    | _ => rfl
  restates := by
    rintro ι ⟨g, t⟩ u h
    cases t with
    | sigReference r => cases r <;> cases h <;> exact ⟨rfl, rfl, id⟩
    | _ => cases h <;> exact ⟨rfl, rfl, id⟩

theorem isConversion_toTypeArgument : IsConversion toTypeArgument where
  plain := by
    rintro ⟨g, t⟩
    cases t <;> rfl
  restates := by
    rintro ι ⟨g, t⟩ u h
    cases t <;> cases h <;> exact ⟨rfl, rfl, id⟩

theorem isConversion_toClassType : IsConversion toClassType where
  plain := by
    rintro ⟨g, t⟩
    cases t with
    | sigReference r => cases r <;> rfl
    | _ => rfl
  restates := by
    rintro ι ⟨g, t⟩ u h
    cases t with
    | sigReference r =>
        cases r <;> cases h
        exact ⟨rfl, rfl, id⟩
    | _ => cases h <;> exact ⟨rfl, rfl, id⟩

theorem isConversion_toTypeParameter : IsConversion toTypeParameter where
  plain := by
    rintro ⟨g, t⟩
    cases t <;> rfl
  restates := by
    rintro ι ⟨g, t⟩ u h
    cases t <;> cases h
    exact ⟨rfl, rfl, id⟩

theorem restates_inner (v : AnyTree ι) : v.2.Restates v.inner.2 := by
  obtain ⟨g, t⟩ := v
  cases t with
  | sigReference r => cases r <;> exact ⟨rfl, rfl, id⟩
  | argReference r => cases r <;> exact ⟨rfl, rfl, id⟩
  | _ => exact ⟨rfl, rfl, id⟩

theorem inner_plain (v : AnyTree Nat) : v.plain.inner = v.inner.plain := by
  obtain ⟨g, t⟩ := v
  cases t with
  | sigReference r => cases r <;> rfl
  | argReference r => cases r <;> rfl
  | _ => rfl

end AnyTree

namespace Pool

variable {canonical : Prop} {p q : Pool}

/-- A tree of the pool of any form, and the same tree without its tags. -/
structure TaggedAny (canonical : Prop) (p : Pool) (v : AnyTree Nat) (v' : AnyTree Unit) :
    Prop where
  good : p.Good canonical v.2
  plain : v.plain = v'

instance : Lasting (TaggedAny canonical) where
  congr hnext hregistry h := ⟨h.good.congr hnext hregistry, h.plain⟩

theorem Tagged.any {t : TypeTree Nat f} {u : TypeTree Unit f} (h : Tagged canonical p t u) :
    TaggedAny canonical p ⟨f, t⟩ ⟨f, u⟩ := by
  refine ⟨h.good, ?_⟩
  rw [← h.plain]
  rfl

theorem Good.restates {t : TypeTree Nat f} {u : TypeTree Nat g} (h : p.Good canonical t)
    (htu : t.Restates u) : p.Good canonical u :=
  ⟨htu.wellFormed h.wellFormed, htu.tags ▸ h.older, htu.nodes ▸ h.registered⟩

/-! ## Parts -/

variable {ε : Type}

/-- A tree that is held, as a tree of any form. -/
theorem Holds.any {t : TypeTree Nat f} (h : p.Holds canonical t) :
    TaggedAny canonical p ⟨f, t⟩ ⟨f, t.plain⟩ :=
  (Tagged.of_good h.good).any

theorem refines_nth {xs : TypeTree Nat (.list f)} (hxs : p.Holds canonical xs)
    (index : Option Nat) :
    Refines canonical (TaggedAny canonical) p (AnyTree.nth xs index)
      (AnyTree.nth xs.plain index) := by
  unfold AnyTree.nth
  rw [show xs.plain.entries = xs.entries.map TypeTree.plain from entries_mapTags _ xs]
  cases index with
  | none => exact Refines.throw
  | some i =>
      simp only [Option.bind_some, List.getElem?_map]
      cases hx : xs.entries[i]? with
      | none => exact Refines.throw
      | some x =>
          have hmem : x ∈ xs.entries := List.mem_of_getElem? hx
          exact Refines.pure (Holds.entries xs hxs x hmem).any

/-- **A part of a tree.** -/
theorem refines_part {v : AnyTree Nat} (hv : p.Holds canonical v.2) (part : Part)
    (index : Option Nat) :
    Refines canonical (TaggedAny canonical) p (v.part part index) (v.plain.part part index) := by
  obtain ⟨g, t⟩ := v
  cases t with
  | classType i o n as =>
      obtain ⟨ho, has⟩ := hv.parts
      cases part with
      | outer =>
          cases o with
          | topLevel => exact Refines.throw
          | nestedIn c => exact Refines.pure ho.parts.any
      | argument => cases o <;> exact refines_nth has index
      | _ => cases o <;> exact Refines.throw
  | arrayDescriptor i d b =>
      cases part with
      | base => exact Refines.pure hv.parts.any
      | component =>
          exact Refines.map (refines_descriptorComponent hv) fun _ _ _ h => Tagged.any h
      | _ => exact Refines.throw
  | arrayType i d b =>
      cases part with
      | base => exact Refines.pure hv.parts.any
      | component =>
          exact Refines.map (refines_typeComponent hv) fun _ _ _ h => Tagged.any h
      | _ => exact Refines.throw
  | methodDescriptor i ps r =>
      obtain ⟨hps, hr⟩ := hv.parts
      cases part with
      | parameter => exact refines_nth hps index
      | result => exact Refines.pure hr.any
      | _ => exact Refines.throw
  | methodSignature i ts ps r es =>
      obtain ⟨hts, hps, hr, hes⟩ := hv.parts
      cases part with
      | typeParameter => exact refines_nth hts index
      | parameter => exact refines_nth hps index
      | result => exact Refines.pure hr.any
      | throws => exact refines_nth hes index
      | _ => exact Refines.throw
  | classSignature i ts c is =>
      obtain ⟨hts, hc, his⟩ := hv.parts
      cases part with
      | typeParameter => exact refines_nth hts index
      | superclass => exact Refines.pure hc.any
      | interface => exact refines_nth his index
      | _ => exact Refines.throw
  | boundVariable i d =>
      cases part with
      | declaration => exact Refines.pure hv.parts.any
      | _ => exact Refines.throw
  | typeParameter i n c is =>
      obtain ⟨hc, his⟩ := hv.parts
      cases part with
      | classBound =>
          cases c with
          | noClassBound => exact Refines.throw
          | boundedBy r => exact Refines.pure hc.parts.any
      | interfaceBound => cases c <;> exact refines_nth his index
      | «variable» =>
          have hmade := runs_boundVariable (Tagged.of_good hv.good)
          cases c <;> exact Refines.map (Refines.lift hmade) fun _ _ _ h => Tagged.any h
      | _ => cases c <;> exact Refines.throw
  | boundedArgument i d r =>
      cases part with
      | bound => exact Refines.pure hv.parts.any
      | _ => exact Refines.throw
  | _ => exact Refines.throw

end Pool

end ClassfileTypes
