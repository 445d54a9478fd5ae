import ClassfileTypes.Proofs.Rounds

/-!
# Erasure of methods that are bound

A method that is bound in its own scope has an erasure if the walk from each of its
types succeeds, and then the descriptor is the one to which the walks lead.
-/

namespace ClassfileTypes

namespace TypeTree

variable {ι : Type} {f : Form}

/-! ## The types of a method -/

/-- The entries of a list, as trees of their form. -/
def members (xs : TypeTree ι (.list f)) : List (TypeTree ι f) :=
  xs.entries

/-- The types of the parameters and then the result. -/
def signatureTypes : TypeTree ι .methodSignature → List (TypeTree ι .typeSignature)
  | .methodSignature _ _ ps r _ => ps.members ++ [r]

/-- The types of the parameters and then the result. -/
def descriptorTypes : TypeTree ι .methodDescriptor → List (TypeTree ι .typeDescriptor)
  | .methodDescriptor _ ps r => ps.members ++ [r]

/-- What the types of a list erase to without a pool. -/
def listErasure (xs : TypeTree Unit (.list .typeSignature)) :
    Except TypeError (TypeTree Unit (.list .typeDescriptor)) :=
  (xs.erase : ExceptT TypeError Id (TypeTree Unit (.list .typeDescriptor))).run

/-- What a method erases to without a pool. -/
def methodErasure (t : TypeTree Unit .methodSignature) :
    Except TypeError (TypeTree Unit .methodDescriptor) :=
  (t.erase : ExceptT TypeError Id (TypeTree Unit .methodDescriptor)).run

theorem listErasure_cons (x : TypeTree Unit .typeSignature)
    (xs : TypeTree Unit (.list .typeSignature)) :
    listErasure (.cons x xs) =
      x.typeErasure >>= fun y => xs.listErasure >>= fun ys => .ok (.cons y ys) := by
  show (ExceptT.bindCont _ x.typeErasure : Id _) = _
  cases x.typeErasure with
  | error e => rfl
  | ok y =>
      show (ExceptT.bindCont _ xs.listErasure : Id _) = _
      cases xs.listErasure <;> rfl

theorem methodErasure_eq (i : Unit) (ts : TypeTree Unit (.list .typeParameter))
    (ps : TypeTree Unit (.list .typeSignature)) (r : TypeTree Unit .typeSignature)
    (es : TypeTree Unit (.list .throwsType)) :
    methodErasure (.methodSignature i ts ps r es) =
      ps.listErasure >>= fun ps => r.typeErasure >>= fun r =>
        (makeMethodDescriptor ps r : ExceptT TypeError Id _).run := by
  show (ExceptT.bindCont _ ps.listErasure : Id _) = _
  cases ps.listErasure with
  | error e => rfl
  | ok ps =>
      show (ExceptT.bindCont _ r.typeErasure : Id _) = _
      cases r.typeErasure <;> rfl

/-- The types of a list are erased one after the other. -/
theorem map_listErasure (xs : TypeTree Unit (.list .typeSignature)) :
    xs.listErasure.map members = xs.members.mapM typeErasure := by
  match xs with
  | .nil => rfl
  | .cons x xs =>
      have ih := map_listErasure xs
      rw [listErasure_cons]
      show _ = List.mapM typeErasure (x :: xs.members)
      rw [List.mapM_cons, ← ih]
      cases x.typeErasure with
      | error e => rfl
      | ok y => cases xs.listErasure <;> rfl

section

variable {α β ε : Type} {g : α → Except ε β}

theorem mapM_cons_eq_ok {x : α} {xs : List α} {zs : List β} :
    (x :: xs).mapM g = .ok zs ↔ ∃ y ys, g x = .ok y ∧ xs.mapM g = .ok ys ∧ zs = y :: ys := by
  rw [List.mapM_cons]
  constructor
  · intro h
    cases hx : g x with
    | error e =>
        rw [hx] at h
        exact nomatch h
    | ok y =>
        rw [hx] at h
        cases hxs : xs.mapM g with
        | error e =>
            rw [hxs] at h
            exact nomatch h
        | ok ys =>
            rw [hxs] at h
            exact ⟨y, ys, rfl, rfl, (Except.ok.inj h).symm⟩
  · rintro ⟨y, ys, hx, hxs, rfl⟩
    rw [hx, hxs]
    rfl

theorem forall_of_mapM {P : β → Prop} {xs : List α} {ys : List β} (h : xs.mapM g = .ok ys)
    (hP : ∀ x ∈ xs, ∀ y, g x = .ok y → P y) : ∀ y ∈ ys, P y := by
  induction xs generalizing ys with
  | nil =>
      obtain rfl := Except.ok.inj h
      exact fun y hy => absurd hy List.not_mem_nil
  | cons x xs ih =>
      obtain ⟨y, ys, hx, hxs, rfl⟩ := mapM_cons_eq_ok.mp h
      obtain ⟨hhead, htail⟩ := List.forall_mem_cons.mp hP
      exact List.forall_mem_cons.mpr ⟨hhead y hx, ih hxs htail⟩

end

/-- So are the types of a method, unless a parameter becomes `void`. -/
theorem map_methodErasure {i : Unit} {ts : TypeTree Unit (.list .typeParameter)}
    {ps : TypeTree Unit (.list .typeSignature)} {r : TypeTree Unit .typeSignature}
    {es : TypeTree Unit (.list .throwsType)}
    (hvoid : ∀ x ∈ ps.members, ∀ y, x.typeErasure = .ok y → y.isVoid = false) :
    (methodErasure (.methodSignature i ts ps r es)).map descriptorTypes =
      (signatureTypes (.methodSignature i ts ps r es)).mapM typeErasure := by
  have hps := map_listErasure ps
  rw [methodErasure_eq]
  show _ = List.mapM typeErasure (ps.members ++ [r])
  rw [List.mapM_append, ← hps]
  cases hlist : ps.listErasure with
  | error e => rfl
  | ok ps' =>
      rw [hlist] at hps
      have hvoid' : ∀ y ∈ ps'.entries, y.isVoid = false := forall_of_mapM hps.symm hvoid
      rw [List.mapM_cons]
      cases r.typeErasure with
      | error e => rfl
      | ok r' =>
          show Except.map _ (makeMethodDescriptor ps' r' : ExceptT TypeError Id _).run = _
          unfold makeMethodDescriptor
          rw [checkParameters_of_no_void hvoid']
          rfl

end TypeTree

/-! ## Types that are erased in turn -/

/-- The outcome for types whose walks succeed, or of which one is the first to run into a
cycle. -/
structure ErasesAlong {α : Type} (ps : List (TypeTree Unit .typeParameter))
    (outer : Scope Unit) (ts : List (TypeTree Unit .typeSignature))
    (types : α → List (TypeTree Unit .typeDescriptor)) (r : Except TypeError α) : Prop where
  ok_iff : (∃ a, r = .ok a) ↔ ∀ t ∈ ts, WalkSucceeds ps outer t
  walks : ∀ a, r = .ok a → List.Forall₂ (WalksTo ps outer) ts (types a)
  cycle : ∀ before t after, ts = before ++ t :: after →
    (∀ u ∈ before, WalkSucceeds ps outer u) → Cyclic ps t.stop → ∃ x, r = .error (.unresolved x)

section

open TypeTree

variable {ps : List (TypeTree Unit .typeParameter)} {outer : Scope Unit}
  {ts ts' : List (TypeTree Unit .typeSignature)}

/-- The walks explain the outcome for each type. -/
def ExplainsAll (ps : List (TypeTree Unit .typeParameter)) (outer : Scope Unit)
    (ts ts' : List (TypeTree Unit .typeSignature)) : Prop :=
  List.Forall₂ (fun t t' => Explains ps outer t.dimensions t.stop t'.typeErasure) ts ts'

theorem ExplainsAll.ok_iff (h : ExplainsAll ps outer ts ts') :
    (∃ us, ts'.mapM typeErasure = .ok us) ↔ ∀ t ∈ ts, WalkSucceeds ps outer t := by
  induction h with
  | nil => exact ⟨fun _ _ ht => absurd ht List.not_mem_nil, fun _ => ⟨[], rfl⟩⟩
  | cons hx hxs ih =>
      rw [List.forall_mem_cons, ← ih, ← hx.ok_iff]
      constructor
      · rintro ⟨us, hus⟩
        obtain ⟨u, us', hu, hus', -⟩ := mapM_cons_eq_ok.mp hus
        exact ⟨⟨u, hu⟩, ⟨us', hus'⟩⟩
      · rintro ⟨⟨u, hu⟩, ⟨us, hus⟩⟩
        exact ⟨u :: us, mapM_cons_eq_ok.mpr ⟨u, us, hu, hus, rfl⟩⟩

theorem ExplainsAll.walks (h : ExplainsAll ps outer ts ts')
    {us : List (TypeTree Unit .typeDescriptor)} (hus : ts'.mapM typeErasure = .ok us) :
    List.Forall₂ (WalksTo ps outer) ts us := by
  induction h generalizing us with
  | nil =>
      obtain rfl := Except.ok.inj hus
      exact .nil
  | cons hx hxs ih =>
      obtain ⟨u, us', hu, hus', rfl⟩ := mapM_cons_eq_ok.mp hus
      exact .cons (hu ▸ hx).walksTo (ih hus')

theorem ExplainsAll.cycle {before after : List (TypeTree Unit .typeSignature)}
    {t : TypeTree Unit .typeSignature} (h : ExplainsAll ps outer (before ++ t :: after) ts')
    (hbefore : ∀ u ∈ before, WalkSucceeds ps outer u) (hcyclic : Cyclic ps t.stop) :
    ∃ x, ts'.mapM typeErasure = .error (.unresolved x) := by
  induction before generalizing ts' with
  | nil =>
      cases h with
      | cons hx hxs =>
          obtain ⟨x, hx⟩ := hx.error_of_cyclic hcyclic
          refine ⟨x, ?_⟩
          rw [List.mapM_cons, hx]
          rfl
  | cons u before ih =>
      cases h with
      | cons hx hxs =>
          obtain ⟨hu, hbefore⟩ := List.forall_mem_cons.mp hbefore
          obtain ⟨y, hy⟩ := hx.ok_iff.mpr hu
          obtain ⟨x, hx⟩ := ih hxs hbefore
          refine ⟨x, ?_⟩
          rw [List.mapM_cons, hy, hx]
          rfl

theorem ExplainsAll.erasesAlong (h : ExplainsAll ps outer ts ts') :
    ErasesAlong ps outer ts id (ts'.mapM typeErasure) where
  ok_iff := h.ok_iff
  walks _ := h.walks
  cycle before t after heq := by
    subst heq
    exact h.cycle

/-- Nothing but `void` becomes `void`. -/
theorem ExplainsAll.isVoid (h : ExplainsAll ps outer ts ts')
    (hps : ∀ x r, firstBound ps x = some r → NamedType (.sigReference r))
    (houter : ∀ x p, outer x = some p → p.WellFormed) (hts : ∀ t ∈ ts, t.stop.IsBase) :
    ∀ t' ∈ ts', ∀ u, t'.typeErasure = .ok u → u.isVoid = false := by
  induction h with
  | nil => exact fun _ ht => absurd ht List.not_mem_nil
  | cons hx hxs ih =>
      obtain ⟨hst, hts⟩ := List.forall_mem_cons.mp hts
      refine List.forall_mem_cons.mpr ⟨fun u hu => ?_, ih hts⟩
      obtain ⟨n, e, hwalk, rfl⟩ := (hu ▸ hx).walksTo
      exact isVoid_arrayOf (hwalk.isBase hps houter hst) _

end

namespace ErasesAlong

variable {α β : Type} {ps : List (TypeTree Unit .typeParameter)} {outer outer' : Scope Unit}
  {ts : List (TypeTree Unit .typeSignature)} {types : β → List (TypeTree Unit .typeDescriptor)}
  {r : Except TypeError α}

theorem of_map {g : α → β} (h : ErasesAlong ps outer ts types (r.map g)) :
    ErasesAlong ps outer ts (fun a => types (g a)) r := by
  cases r with
  | ok a =>
      refine ⟨?_, fun a' ha' => ?_, fun before t after heq hbefore hcyclic => ?_⟩
      · exact ⟨fun _ => h.ok_iff.mp ⟨g a, rfl⟩, fun _ => ⟨a, rfl⟩⟩
      · obtain rfl := Except.ok.inj ha'
        exact h.walks (g a) rfl
      · obtain ⟨x, hx⟩ := h.cycle before t after heq hbefore hcyclic
        exact nomatch hx
  | error e =>
      refine ⟨?_, fun a' ha' => (nomatch ha'), fun before t after heq hbefore hcyclic => ?_⟩
      · constructor
        · rintro ⟨a, ha⟩
          exact nomatch ha
        · intro hts
          obtain ⟨b, hb⟩ := h.ok_iff.mpr hts
          exact nomatch hb
      · obtain ⟨x, hx⟩ := h.cycle before t after heq hbefore hcyclic
        exact ⟨x, congrArg Except.error (Except.error.inj hx)⟩

/-- The outer scope is asked only for what the walks meet. -/
theorem congr {types : α → List (TypeTree Unit .typeDescriptor)}
    (h : ErasesAlong ps outer ts types r)
    (heq : ∀ t ∈ ts, ∀ y, Meets ps t.stop y → outer y = outer' y) :
    ErasesAlong ps outer' ts types r where
  ok_iff := h.ok_iff.trans (forall₂_congr fun t ht =>
    ⟨fun hs => hs.congr (heq t ht), fun hs => hs.congr fun y hy => (heq t ht y hy).symm⟩)
  walks a ha :=
    ((List.forall₂_and_left ts (types a)).mpr ⟨heq, h.walks a ha⟩).imp
      fun _ _ hwalks => hwalks.2.congr hwalks.1
  cycle before t after hts hbefore := by
    refine h.cycle before t after hts fun u hu => ?_
    have hmem : u ∈ ts := hts ▸ List.mem_append_left _ hu
    exact (hbefore u hu).congr fun y hy => (heq u hmem y hy).symm

end ErasesAlong

/-! ## Methods -/

namespace TypeTree

variable {declared resolved : TypeTree Unit (.list .typeParameter)} {outer : Scope Unit}
  {f : Form}

theorem explainsAll_of_bind (hwf : declared.WellFormed) (hu : declared.Unbound)
    (houter : ∀ x p, outer x = some p → p.WellFormed)
    (h : Round declared outer declared.entries.length resolved)
    (xs xs' : TypeTree Unit (.list .typeSignature)) (hxs : ∀ x ∈ xs.members, NamedType x)
    (hbind : (xs.bind (roundScope outer resolved) : ExceptT TypeError Id _).run = .ok xs') :
    ExplainsAll declared.entries outer xs.members xs'.members := by
  match xs with
  | .nil =>
      obtain rfl := Except.ok.inj hbind
      exact .nil
  | .cons x xs =>
      obtain ⟨x', hx, hbind⟩ := run_bind_eq_ok.mp hbind
      obtain ⟨xs', hbinds, hbind⟩ := run_bind_eq_ok.mp hbind
      obtain rfl := Except.ok.inj hbind
      obtain ⟨hnamed, hxs⟩ := List.forall_mem_cons.mp hxs
      exact .cons (explains_of_bind hwf hu houter h hnamed hx)
        (explainsAll_of_bind hwf hu houter h xs xs' hxs hbinds)

/-! ### The names that walks meet -/

theorem freeNames_of_mem_members (xs : TypeTree Unit (.list f)) {x : TypeTree Unit f}
    (hx : x ∈ xs.members) : x.freeNames ⊆ xs.freeNames := by
  match xs with
  | .nil => exact absurd hx List.not_mem_nil
  | .cons y ys =>
      rcases List.mem_cons.mp hx with rfl | hx
      · exact List.subset_append_left _ _
      · exact List.Subset.trans (freeNames_of_mem_members ys hx) (List.subset_append_right _ _)

theorem freeNames_of_bound {p : TypeTree Unit .typeParameter} {r : TypeTree Unit .referenceType}
    (h : p.bounds.head? = some r) : r.freeNames ⊆ p.freeNames := by
  match p with
  | .typeParameter i n (.boundedBy r') is =>
      obtain rfl := Option.some.inj h
      exact List.subset_append_left _ _
  | .typeParameter i n .noClassBound .nil => exact nomatch h
  | .typeParameter i n .noClassBound (.cons r' rs) =>
      obtain rfl := Option.some.inj h
      exact List.subset_append_left _ _

theorem mem_freeNames_of_next (hwf : declared.WellFormed) (hu : declared.Unbound) {x y : String}
    (h : Next declared.entries x y) : y ∈ declared.freeNames := by
  obtain ⟨r, hbound, hstop⟩ := h
  obtain ⟨p, hp, hhead⟩ := Option.bind_eq_some_iff.mp hbound
  have hr : y ∈ r.freeNames :=
    (namedType_of_firstBound hwf hu hbound).mem_freeNames_of_stop hstop
  have hmem : p ∈ declared.members := List.mem_of_find?_eq_some hp
  exact freeNames_of_mem_members declared hmem (freeNames_of_bound hhead hr)

/-- Binding resolves all names that the walks meet. -/
theorem mem_freeNames_of_meets {m : TypeTree Unit .methodSignature} (hwf : m.WellFormed)
    (hu : m.Unbound) {t : TypeTree Unit .typeSignature} (ht : t ∈ m.signatureTypes) {y : String}
    (h : Meets m.typeParameters t.stop y) : y ∈ m.freeNames := by
  cases m with
  | methodSignature i ts ps r es =>
      obtain ⟨-, hts, hps, hr, -⟩ := hwf
      obtain ⟨uts, ups, ur, -⟩ := hu
      have hnamed : NamedType t ∧ t.freeNames ⊆ ps.freeNames ++ r.freeNames := by
        rcases List.mem_append.mp ht with hmem | hmem
        · exact ⟨.of_unbound (hps.entries t hmem) (ups.entries t hmem),
            List.Subset.trans (freeNames_of_mem_members ps hmem) (List.subset_append_left _ _)⟩
        · obtain rfl := List.mem_singleton.mp hmem
          exact ⟨.of_unbound hr ur, List.subset_append_right _ _⟩
      cases hstop : t.stop with
      | descriptor e =>
          rw [hstop] at h
          exact h.elim
      | name x =>
          rw [hstop] at h
          simp only [freeNames, List.mem_append]
          rcases Relation.ReflTransGen.cases_tail h with rfl | ⟨z, -, hnext⟩
          · have hy := hnamed.2 (hnamed.1.mem_freeNames_of_stop hstop)
            rw [List.mem_append] at hy
            tauto
          · exact Or.inl (Or.inl (Or.inl (mem_freeNames_of_next hts uts hnext)))

/-- **A method that is bound in its own scope erases along its declarations.** -/
theorem methodErasure_of_bindMethod {m b : TypeTree Unit .methodSignature} (hwf : m.WellFormed)
    (hu : m.Unbound) (houter : ∀ x p, outer x = some p → p.WellFormed)
    (h : (m.bindMethod outer : ExceptT TypeError Id _).run = .ok b) :
    ErasesAlong m.typeParameters outer m.signatureTypes descriptorTypes b.methodErasure := by
  cases m with
  | methodSignature i ts ps r es =>
      obtain ⟨hvoid, hts, hps, hr, -⟩ := hwf
      obtain ⟨uts, ups, ur, -⟩ := hu
      obtain ⟨ts', hresolve, h⟩ := run_bind_eq_ok.mp h
      obtain ⟨ps', hps', h⟩ := run_bind_eq_ok.mp h
      obtain ⟨r', hr', h⟩ := run_bind_eq_ok.mp h
      obtain ⟨es', -, h⟩ := run_bind_eq_ok.mp h
      obtain rfl := Except.ok.inj h
      have hround := Round.of_resolve hresolve
      have hnamed : ∀ x ∈ ps.members, NamedType x :=
        fun x hx => .of_unbound (hps.entries x hx) (ups.entries x hx)
      have hparameters := explainsAll_of_bind hts uts houter hround ps ps' hnamed hps'
      have hresult := explains_of_bind hts uts houter hround (.of_unbound hr ur) hr'
      have hall : ExplainsAll ts.entries outer (ps.members ++ [r]) (ps'.members ++ [r']) :=
        List.rel_append hparameters (.cons hresult .nil)
      have herased := hparameters.isVoid (fun x r => namedType_of_firstBound hts uts) houter
        fun t ht => (hnamed t ht).isBase_stop (hvoid t ht)
      have hmap : ErasesAlong ts.entries outer (ps.members ++ [r]) id
          ((methodErasure (.methodSignature () ts' ps' r' es')).map descriptorTypes) := by
        rw [map_methodErasure herased]
        exact hall.erasesAlong
      exact hmap.of_map

end TypeTree

end ClassfileTypes
