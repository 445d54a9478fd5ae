import ClassfileTypes.Proofs.SessionBinding

/-!
# Erasure along first bounds

The erasure of a type is found by a walk. An array adds its dimension and goes on with
its base, and a variable goes on with the first bound of its declaration, until the walk
stops at a type that is neither. What it stops at is erased, with one array of all
dimensions over it. Two things stand in the way: a variable that has no declaration, and
more dimensions than an array may have. The second one may happen although no array on
the way has too many.
-/

namespace ClassfileTypes

/-- A walk: the dimensions of the arrays on the way, and where it stops. -/
structure Trail where
  dimension : Nat
  stop : Stop
deriving DecidableEq, Repr

/-- The walk from an array of so many dimensions. -/
def Trail.under (w : Trail) (d : Nat) : Trail :=
  ⟨d + w.dimension, w.stop⟩

namespace TypeTree

variable {ι κ : Type}

/-- The walk from a type. -/
def trail : {f : Form} → TypeTree ι f → Trail
  | _, .sigPrimitive p => ⟨0, .descriptor (.descPrimitive p)⟩
  | _, .sigReference r => r.trail
  | _, .refClass c | _, .throwsClass c =>
      ⟨0, .descriptor (.descClass (.classDescriptor () c.binaryName))⟩
  | _, .refArray a => a.trail
  | _, .arrayType _ d b => b.trail.under d
  | _, .refVariable v | _, .throwsVariable v => v.trail
  | _, .freeVariable _ n => ⟨0, .name n⟩
  | _, .boundVariable _ d => d.trail
  | _, .typeParameter _ _ (.boundedBy r) _ => r.trail
  | _, .typeParameter _ _ .noClassBound (.cons r _) => r.trail
  | _, .typeParameter _ _ .noClassBound .nil =>
      ⟨0, .descriptor (.descClass (.classDescriptor () objectName))⟩
  | _, _ => ⟨0, .descriptor .descVoid⟩

/-- Induction along the walk from a type. -/
theorem trailInduction {P : TypeTree ι .typeSignature → Prop}
    (primitive : ∀ p, P (.sigPrimitive p)) (void : P .sigVoid)
    (classType : ∀ c, P (.sigReference (.refClass c)))
    (array : ∀ i d b, P b → P (.sigReference (.refArray (.arrayType i d b))))
    (free : ∀ i n, P (.sigReference (.refVariable (.freeVariable i n))))
    (classBound : ∀ i j n r is, P (.sigReference r) →
      P (.sigReference (.refVariable (.boundVariable i (.typeParameter j n (.boundedBy r) is)))))
    (interfaceBound : ∀ i j n r rs, P (.sigReference r) →
      P (.sigReference (.refVariable
        (.boundVariable i (.typeParameter j n .noClassBound (.cons r rs))))))
    (noBound : ∀ i j n, P (.sigReference (.refVariable
      (.boundVariable i (.typeParameter j n .noClassBound .nil)))))
    (t : TypeTree ι .typeSignature) : P t := by
  have ih : ∀ u : TypeTree ι .typeSignature, sizeOf u < sizeOf t → P u := fun u _ =>
    trailInduction primitive void classType array free classBound interfaceBound noBound u
  match t with
  | .sigPrimitive p => exact primitive p
  | .sigVoid => exact void
  | .sigReference (.refClass c) => exact classType c
  | .sigReference (.refArray (.arrayType i d b)) => exact array i d b (ih b (by simp; omega))
  | .sigReference (.refVariable (.freeVariable i n)) => exact free i n
  | .sigReference (.refVariable (.boundVariable i (.typeParameter j n (.boundedBy r) is))) =>
      exact classBound i j n r is (ih (.sigReference r) (by simp; omega))
  | .sigReference (.refVariable
      (.boundVariable i (.typeParameter j n .noClassBound (.cons r rs)))) =>
      exact interfaceBound i j n r rs (ih (.sigReference r) (by simp; omega))
  | .sigReference (.refVariable (.boundVariable i (.typeParameter j n .noClassBound .nil))) =>
      exact noBound i j n
termination_by sizeOf t

/-- The walk does not depend on tags. -/
theorem trail_plain (t : TypeTree ι .typeSignature) : t.plain.trail = t.trail := by
  induction t using trailInduction with
  | primitive p => rfl
  | void => rfl
  | classType c =>
      show Trail.mk 0 (.descriptor (.descClass (.classDescriptor () (c.mapTags _).binaryName))) = _
      rw [binaryName_mapTags]
      rfl
  | array i d b ih => exact congrArg (Trail.under · d) ih
  | free i n => rfl
  | classBound i j n r is ih => exact ih
  | interfaceBound i j n r rs ih => exact ih
  | noBound i j n => rfl

/-- The walk from a type other than `void` does not stop at `void`. -/
theorem isBase_trail {t : TypeTree Unit .typeSignature} (ht : t.WellFormed)
    (hvoid : t.isVoid = false) : t.trail.stop.IsBase := by
  induction t using trailInduction with
  | primitive p => exact ⟨rfl, rfl⟩
  | void => exact nomatch hvoid
  | classType c => exact ⟨rfl, rfl⟩
  | array i d b ih => exact ih ht.2.2 ht.2.1.1
  | free i n => trivial
  | classBound i j n r is ih => exact ih ht.2.2.1 rfl
  | interfaceBound i j n r rs ih => exact ih ht.2.2.2.1 rfl
  | noBound i j n => exact ⟨rfl, rfl⟩

end TypeTree

open TypeTree

/-! ## The outcome of a walk -/

/-- The outcome that a walk leads to. -/
inductive Trail.LeadsTo (w : Trail) : Except TypeError (TypeTree Unit .typeDescriptor) → Prop
  | name {x : String} (hstop : w.stop = .name x) : w.LeadsTo (.error (.unresolved x))
  | tooMany {e : TypeTree Unit .typeDescriptor} {d : Nat} (hstop : w.stop = .descriptor e)
      (hlt : maxDimension < w.dimension) :
      w.LeadsTo (.error (.construction (.invalidDimension d)))
  | descriptor {e : TypeTree Unit .typeDescriptor} (hstop : w.stop = .descriptor e)
      (hle : w.dimension ≤ maxDimension) : w.LeadsTo (.ok (arrayOf w.dimension e))

/-- An array on the way adds its dimension. -/
theorem Trail.LeadsTo.under {w : Trail} {d : Nat}
    {r : Except TypeError (TypeTree Unit .typeDescriptor)} (h : w.LeadsTo r)
    (hd : d ≤ maxDimension) (hstop : w.stop.IsBase) : (w.under d).LeadsTo (r >>= addArrays d) := by
  cases h with
  | name hname => exact .name hname
  | tooMany he hlt => exact .tooMany he (Nat.lt_of_lt_of_le hlt (Nat.le_add_left _ _))
  | @descriptor e he hle =>
      have hbase : e.IsBase := by
        rw [he] at hstop
        exact hstop
      show (w.under d).LeadsTo (addArrays d (arrayOf w.dimension e))
      rcases Nat.lt_or_ge maxDimension (d + w.dimension) with hlt | hle'
      · rw [addArrays_of_lt (fun _ => hbase) hd hle hlt]
        exact .tooMany he hlt
      · rw [addArrays_of_le (fun _ => hbase) hle']
        exact .descriptor (w := w.under d) he hle'

/-- **Erasure is the walk along first bounds.** -/
theorem TypeTree.leadsTo_typeErasure {t : TypeTree Unit .typeSignature} (ht : t.WellFormed) :
    t.trail.LeadsTo t.typeErasure := by
  induction t using trailInduction with
  | primitive p => exact .descriptor (w := ⟨0, _⟩) rfl (Nat.zero_le _)
  | void => exact .descriptor (w := ⟨0, _⟩) rfl (Nat.zero_le _)
  | classType c =>
      cases c with
      | classType i o n as => exact .descriptor (w := ⟨0, _⟩) rfl (Nat.zero_le _)
  | array i d b ih =>
      obtain ⟨⟨hone, hmax⟩, hbase, hb⟩ := ht
      rw [typeErasure_array hone]
      exact (ih hb).under hmax (isBase_trail hb hbase.1)
  | free i n => exact .name rfl
  | classBound i j n r is ih => exact ih ht.2.2.1
  | interfaceBound i j n r rs ih => exact ih ht.2.2.2.1
  | noBound i j n => exact .descriptor (w := ⟨0, _⟩) rfl (Nat.zero_le _)

/-- What a walk says of an erasure: whether it fails, how, and what it gives. -/
structure Trail.Decides (w : Trail) (r : Except TypeError (TypeTree Nat .typeDescriptor)) :
    Prop where
  unresolved_iff : ∀ x, r = .error (.unresolved x) ↔ w.stop = .name x
  invalid_iff : (∃ d, r = .error (.construction (.invalidDimension d))) ↔
    (∃ e, w.stop = .descriptor e) ∧ maxDimension < w.dimension
  ok_iff : ∀ u, r.map plain = .ok u ↔
    ∃ e, w.stop = .descriptor e ∧ w.dimension ≤ maxDimension ∧ u = arrayOf w.dimension e

theorem Trail.LeadsTo.decides {w : Trail} {r : Except TypeError (TypeTree Nat .typeDescriptor)}
    (h : w.LeadsTo (r.map plain)) : w.Decides r := by
  cases r with
  | ok a =>
      change w.LeadsTo (.ok a.plain) at h
      generalize hu : a.plain = u at h
      cases h with
      | descriptor hstop hle =>
          refine ⟨fun x => by simp [hstop], by simp [hstop, hle], fun u => ?_⟩
          simp [Except.map, hu, hstop, hle, eq_comm]
  | error e =>
      change w.LeadsTo (.error e) at h
      cases h with
      | name hstop =>
          exact ⟨fun x => by simp [hstop], by simp [hstop], fun u => by simp [Except.map, hstop]⟩
      | tooMany hstop hlt =>
          refine ⟨fun x => by simp [hstop], by simp [hstop, hlt], fun u => ?_⟩
          simp [Except.map, hstop, hlt]

theorem decides_of_plain {t : TypeTree Nat .typeSignature} (ht : t.WellFormed)
    {r : Except TypeError (TypeTree Nat .typeDescriptor)}
    (hr : r.map plain = t.plain.typeErasure) : t.trail.Decides r := by
  refine Trail.LeadsTo.decides ?_
  rw [hr, ← trail_plain]
  exact leadsTo_typeErasure ((wellFormed_plain t).mpr ht)

/-! ## Types that are erased one after the other -/

section

variable {α β ε : Type} {g : α → Except ε β}

theorem map_eq_error_iff {f : α → β} {x : Except ε α} {e : ε} :
    x.map f = .error e ↔ x = .error e := by
  cases x with
  | ok a => exact ⟨fun h => (nomatch h), fun h => nomatch h⟩
  | error e' =>
      exact ⟨fun h => congrArg _ (Except.error.inj h), fun h => congrArg _ (Except.error.inj h)⟩

theorem mapM_eq_ok_iff {xs : List α} {ys : List β} :
    xs.mapM g = .ok ys ↔ List.Forall₂ (fun x y => g x = .ok y) xs ys := by
  induction xs generalizing ys with
  | nil =>
      simp only [List.forall₂_nil_left_iff]
      exact ⟨fun h => (Except.ok.inj h).symm, fun h => congrArg Except.ok h.symm⟩
  | cons x xs ih =>
      rw [mapM_cons_eq_ok, List.forall₂_cons_left_iff]
      simp only [ih]

theorem mapM_congr_of_mem {g' : α → Except ε β} {xs : List α} (h : ∀ x ∈ xs, g x = g' x) :
    xs.mapM g = xs.mapM g' := by
  induction xs with
  | nil => rfl
  | cons x xs ih =>
      obtain ⟨hx, hxs⟩ := List.forall_mem_cons.mp h
      rw [List.mapM_cons, List.mapM_cons, hx, ih hxs]

/-- The error is that of the first element that has one. -/
theorem mapM_eq_error_iff {xs : List α} {e : ε} :
    xs.mapM g = .error e ↔ ∃ before x after, xs = before ++ x :: after ∧
      (∀ y ∈ before, ∃ z, g y = .ok z) ∧ g x = .error e := by
  induction xs with
  | nil =>
      constructor
      · exact fun h => nomatch h
      · rintro ⟨before, x, after, h, -⟩
        simp at h
  | cons x xs ih =>
      rw [List.mapM_cons]
      cases hx : g x with
      | error e' =>
          constructor
          · intro h
            obtain rfl := Except.error.inj h
            exact ⟨[], x, xs, rfl, fun _ hy => absurd hy List.not_mem_nil, hx⟩
          · rintro ⟨before, y, after, h, hbefore, hy⟩
            cases before with
            | nil =>
                obtain ⟨rfl, -⟩ := List.cons.inj h
                exact congrArg Except.error (Except.error.inj (hx.symm.trans hy))
            | cons b before =>
                -- The first element would have to succeed.
                obtain ⟨rfl, -⟩ := List.cons.inj h
                obtain ⟨z, hz⟩ := hbefore x List.mem_cons_self
                exact nomatch hx.symm.trans hz
      | ok z =>
          have hrest : (do let y ← Except.ok z; let ys ← xs.mapM g; pure (y :: ys)) =
              Except.error e ↔ xs.mapM g = .error e := by
            cases xs.mapM g with
            | ok zs => exact ⟨fun h => (nomatch h), fun h => nomatch h⟩
            | error e' => exact Iff.rfl
          rw [hrest, ih]
          constructor
          · rintro ⟨before, y, after, rfl, hbefore, hy⟩
            exact ⟨x :: before, y, after, rfl, List.forall_mem_cons.mpr ⟨⟨z, hx⟩, hbefore⟩, hy⟩
          · rintro ⟨before, y, after, h, hbefore, hy⟩
            cases before with
            | nil =>
                obtain ⟨rfl, -⟩ := List.cons.inj h
                exact nomatch hx.symm.trans hy
            | cons b before =>
                obtain ⟨-, rfl⟩ := List.cons.inj h
                exact ⟨before, y, after, rfl, (List.forall_mem_cons.mp hbefore).2, hy⟩

end

/-- The outcome for a method, given the outcome for each of its types: the descriptor of
their erasures if all of them have one, and otherwise the first error. -/
structure ErasesInTurn (erasure : TypeTree Nat .typeSignature →
      Except TypeError (TypeTree Nat .typeDescriptor))
    (ts : List (TypeTree Nat .typeSignature))
    (r : Except TypeError (TypeTree Nat .methodDescriptor)) : Prop where
  ok_iff : (∃ d, r = .ok d) ↔ ∀ t ∈ ts, ∃ e, erasure t = .ok e
  types : ∀ d, r = .ok d →
    List.Forall₂ (fun t u => (erasure t).map plain = .ok u) ts d.plain.descriptorTypes
  error_iff : ∀ e, r = .error e ↔ ∃ before t after, ts = before ++ t :: after ∧
    (∀ u ∈ before, ∃ d, erasure u = .ok d) ∧ erasure t = .error e

theorem ErasesInTurn.of_mapM {erasure : TypeTree Nat .typeSignature →
      Except TypeError (TypeTree Nat .typeDescriptor)} {ts : List (TypeTree Nat .typeSignature)}
    {r : Except TypeError (TypeTree Nat .methodDescriptor)}
    (h : r.map (fun d => d.plain.descriptorTypes) = ts.mapM fun t => (erasure t).map plain) :
    ErasesInTurn erasure ts r := by
  have htypes : ∀ d, r = .ok d →
      List.Forall₂ (fun t u => (erasure t).map plain = .ok u) ts d.plain.descriptorTypes := by
    rintro d rfl
    exact mapM_eq_ok_iff.mp h.symm
  have herror : ∀ e, r = .error e ↔ ∃ before t after, ts = before ++ t :: after ∧
      (∀ u ∈ before, ∃ d, erasure u = .ok d) ∧ erasure t = .error e := by
    intro e
    have hok : ∀ t, (∃ u, (erasure t).map plain = .ok u) ↔ ∃ d, erasure t = .ok d := by
      intro t
      cases erasure t with
      | ok d => exact ⟨fun _ => ⟨d, rfl⟩, fun _ => ⟨d.plain, rfl⟩⟩
      | error e => exact ⟨fun ⟨_, hu⟩ => (nomatch hu), fun ⟨_, hd⟩ => nomatch hd⟩
    rw [← map_eq_error_iff (x := r), h, mapM_eq_error_iff]
    simp only [map_eq_error_iff, hok]
  refine ⟨⟨?_, fun hall => ?_⟩, htypes, herror⟩
  · rintro ⟨d, hd⟩
    have hboth : List.Forall₂ (fun t u => (∃ e, erasure t = .ok e) ∧
        (erasure t).map plain = .ok u) ts d.plain.descriptorTypes :=
      (htypes d hd).imp fun t u hu => ⟨(Pool.map_eq_ok.mp hu).imp fun _ he => he.1, hu⟩
    exact (List.forall₂_and_left _ _).mp hboth |>.1
  · cases hr : r with
    | ok d => exact ⟨d, rfl⟩
    | error e =>
        obtain ⟨before, t, after, rfl, -, ht⟩ := (herror e).mp hr
        obtain ⟨d, hd⟩ := hall t (by simp)
        exact nomatch ht.symm.trans hd

theorem signatureTypes_plain (m : TypeTree Nat .methodSignature) :
    m.plain.signatureTypes = m.signatureTypes.map plain := by
  cases m with
  | methodSignature i ts ps r es =>
      have hps : ps.plain.members = ps.members.map plain := entries_mapTags _ ps
      show ps.plain.members ++ [r.plain] = (ps.members ++ [r]).map plain
      rw [List.map_append, hps]
      rfl

theorem erasesInTurn_of_plain {m : TypeTree Nat .methodSignature} (hm : m.WellFormed)
    {erasure : TypeTree Nat .typeSignature → Except TypeError (TypeTree Nat .typeDescriptor)}
    (herasure : ∀ t ∈ m.signatureTypes, (erasure t).map plain = t.plain.typeErasure)
    {r : Except TypeError (TypeTree Nat .methodDescriptor)}
    (hr : r.map plain = m.plain.methodErasure) : ErasesInTurn erasure m.signatureTypes r := by
  have hwf := (wellFormed_plain m).mpr hm
  have hdescriptor : (m.plain.methodErasure).map descriptorTypes =
      m.plain.signatureTypes.mapM typeErasure := by
    cases m with
    | methodSignature i ts ps r es =>
        -- No parameter is `void`, and so none erases to `void`.
        refine map_methodErasure fun t ht e he => ?_
        exact (wellFormed_of_typeErasure t (hwf.2.2.1.entries t ht) (hwf.1 t ht) he).2
  refine .of_mapM ?_
  have hmap : r.map (fun d => d.plain.descriptorTypes) = (r.map plain).map descriptorTypes := by
    cases r <;> rfl
  rw [hmap, hr, hdescriptor, signatureTypes_plain, List.mapM_map]
  exact (mapM_congr_of_mem herasure).symm

/-! ## In sessions -/

namespace Session

open Pool

variable {canonical : Prop} {s : Session} {f : Form}

/-- What a tree erases to in a session. -/
def erasureOf (s : Session) (t : TypeTree Nat f) : Except TypeError (TypeTree Nat f.erased) :=
  ((t.erase : ExceptT TypeError PoolM _).run s.pool).1

/-- The pool does not show in it. -/
theorem Valid.erasureOf_eq (h : s.Valid canonical) {t : TypeTree Nat f} (ht : s.Holds t) :
    (s.erasureOf t).map plain = (t.plain.erase : ExceptT TypeError Id _).run :=
  (refines_erase (h.holds_tree ht)).map_plain h.sound

theorem Holds.of_mem_parts {v : AnyTree Nat} (h : s.Holds v.2) :
    ∀ x ∈ v.2.parts, s.Holds x.2 :=
  fun x hx w hw => h w (mem_nodes_iff_parts.mpr (Or.inr ⟨x, hx, hw⟩))

/-- A session that holds a method holds its types. -/
theorem Holds.signatureTypes {m : TypeTree Nat .methodSignature} (h : s.Holds m) :
    ∀ t ∈ m.signatureTypes, s.Holds t := by
  have hparts := Holds.of_mem_parts (v := ⟨_, m⟩) h
  cases m with
  | methodSignature i ts ps r es =>
      have hps : s.Holds ps := hparts ⟨_, ps⟩ (by simp [parts])
      have hr : s.Holds r := hparts ⟨_, r⟩ (by simp [parts])
      refine List.forall_mem_append.mpr ⟨?_, List.forall_mem_singleton.mpr hr⟩
      exact forall_mem_entries (P := fun v => s.Holds v.2) (fun v => Holds.of_mem_parts) hps

theorem Valid.decides (h : s.Valid canonical) {t : TypeTree Nat .typeSignature} (ht : s.Holds t) :
    t.trail.Decides (s.erasureOf t) :=
  decides_of_plain (h.holds_tree ht).good.wellFormed (h.erasureOf_eq ht)

theorem Valid.erasesInTurn (h : s.Valid canonical) {m : TypeTree Nat .methodSignature}
    (hm : s.Holds m) : ErasesInTurn s.erasureOf m.signatureTypes (s.erasureOf m) :=
  erasesInTurn_of_plain (h.holds_tree hm).good.wellFormed
    (fun t ht => h.erasureOf_eq (hm.signatureTypes t ht)) (h.erasureOf_eq hm)

/-- **Erasure follows first bounds.** In every session the erasure of a type fails about a
name exactly if the walk from the type stops at a variable of that name, it fails about a
dimension exactly if the walk stops elsewhere after too many, and otherwise it is one array
of all the dimensions. A method is erased type by type. -/
theorem erases_along_firstBounds (c : Intern.Config) (steps : List Step) :
    let s := (start c).after steps
    (∀ t : TypeTree Nat .typeSignature, s.Holds t → t.trail.Decides (s.erasureOf t)) ∧
    (∀ t : TypeTree Nat .referenceType, s.Holds t → t.trail.Decides (s.erasureOf t)) ∧
    (∀ t : TypeTree Nat .throwsType, s.Holds t → t.trail.Decides (s.erasureOf t)) ∧
    (∀ m : TypeTree Nat .methodSignature, s.Holds m →
      ErasesInTurn s.erasureOf m.signatureTypes (s.erasureOf m)) := by
  intro s
  have hs : s.Valid False := valid_after_start c steps
  refine ⟨fun t ht => hs.decides ht, fun t ht => ?_, fun t ht => ?_, fun m hm => ?_⟩
  · exact hs.decides (t := .sigReference t) ht
  · cases t with
    | throwsClass c => exact hs.decides (t := .sigReference (.refClass c)) ht
    | throwsVariable v => exact hs.decides (t := .sigReference (.refVariable v)) ht
  · exact hs.erasesInTurn hm

/-- Neither array has too many dimensions, but together they do. The method comes to this
before it comes to the variable without a declaration. -/
theorem erases_along_firstBounds_of_arrays :
    let s := (start {}).after
      [.value (.typeParameter .checked "T" none
          [.arrayType .checked 100 (.classType .checked none "a" [])]) (some "t"),
        .value (.methodSignature .checked []
          [.boundVariable (.register "t"), .arrayType .checked 200 (.boundVariable (.register "t"))]
          (.freeVariable .checked "U") [.boundVariable (.register "t")]) (some "m")]
    let v : TypeTree Nat .typeVariable := .boundVariable 3 (.typeParameter 2 "T" .noClassBound
      (.cons (.refArray (.arrayType 1 100
        (.sigReference (.refClass (.classType 0 .topLevel "a" .nil))))) .nil))
    let a : TypeTree Nat .typeSignature :=
      .sigReference (.refArray (.arrayType 5 200 (.sigReference (.refVariable v))))
    let m : TypeTree Nat .methodSignature := .methodSignature 8 .nil
      (.cons (.sigReference (.refVariable v)) (.cons a .nil))
      (.sigReference (.refVariable (.freeVariable 6 "U"))) (.cons (.throwsVariable v) .nil)
    s.erasureOf (.refVariable (.freeVariable 6 "U")) = .error (.unresolved "U") ∧
      (s.erasureOf (.throwsVariable v)).map plain =
        .ok (arrayOf 100 (.descClass (.classDescriptor () "a"))) ∧
      ∃ d, s.erasureOf a = .error (.construction (.invalidDimension d)) ∧
        s.erasureOf m = .error (.construction (.invalidDimension d)) := by
  intro s v a m
  obtain ⟨htype, hreference, hthrows, hmethod⟩ := erases_along_firstBounds {}
    [.value (.typeParameter .checked "T" none
        [.arrayType .checked 100 (.classType .checked none "a" [])]) (some "t"),
      .value (.methodSignature .checked []
        [.boundVariable (.register "t"), .arrayType .checked 200 (.boundVariable (.register "t"))]
        (.freeVariable .checked "U") [.boundVariable (.register "t")]) (some "m")]
  have hm : s.Holds m := by decide +kernel
  obtain ⟨hv, ha, hu⟩ : s.Holds (.sigReference (.refVariable v) : TypeTree Nat .typeSignature) ∧
      s.Holds a ∧ s.Holds (.refVariable (.freeVariable 6 "U") : TypeTree Nat .referenceType) :=
    ⟨hm.signatureTypes _ (.head _), hm.signatureTypes _ (.tail _ (.head _)),
      hm.signatureTypes (.sigReference (.refVariable (.freeVariable 6 "U")))
        (.tail _ (.tail _ (.head _)))⟩
  obtain ⟨d, hinvalid⟩ := (htype a ha).invalid_iff.mpr ⟨⟨_, rfl⟩, by decide⟩
  obtain ⟨e, hfirst, -⟩ := Pool.map_eq_ok.mp
    (((htype (.sigReference (.refVariable v)) hv).ok_iff _).mpr ⟨_, rfl, by decide, rfl⟩)
  refine ⟨((hreference _ hu).unresolved_iff "U").mpr rfl,
    ((hthrows (.throwsVariable v) hv).ok_iff _).mpr ⟨_, rfl, by decide, rfl⟩, d, hinvalid, ?_⟩
  refine ((hmethod m hm).error_iff _).mpr
    ⟨[.sigReference (.refVariable v)], a, _, rfl, ?_, hinvalid⟩
  exact List.forall_mem_singleton.mpr ⟨e, hfirst⟩

end Session

end ClassfileTypes
