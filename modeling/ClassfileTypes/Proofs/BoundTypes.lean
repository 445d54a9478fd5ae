import ClassfileTypes.Proofs.Erasure
import ClassfileTypes.Proofs.Making
import ClassfileTypes.Proofs.Walk

/-!
# The erasure of bound types

A type of a signature that is not bound yet is an array of so many dimensions, or none,
over a primitive type, a class or a name. Bound in a scope it erases to what the scope
has for the name, with the dimensions of the array on top; and where two arrays meet,
their dimensions add up to those of one.
-/

namespace ClassfileTypes

namespace TypeTree

variable {s : Scope Unit} {t t' : TypeTree Unit .typeSignature}

/-! ## Types whose variables are only named -/

/-- The types of a signature before it is bound. -/
inductive NamedType : TypeTree Unit .typeSignature → Prop
  | primitive (p : Primitive) : NamedType (.sigPrimitive p)
  | void : NamedType .sigVoid
  | classType (c : TypeTree Unit .classType) : NamedType (.sigReference (.refClass c))
  | freeVariable (i : Unit) (x : String) :
      NamedType (.sigReference (.refVariable (.freeVariable i x)))
  | array (i : Unit) {d : Nat} {b : TypeTree Unit .typeSignature} (hone : 1 ≤ d)
      (hmax : d ≤ maxDimension) (hbase : b.IsBase) (hb : NamedType b) :
      NamedType (.sigReference (.refArray (.arrayType i d b)))

theorem NamedType.of_unbound {t : TypeTree Unit .typeSignature} (ht : t.WellFormed)
    (hu : t.Unbound) : NamedType t := by
  match t with
  | .sigPrimitive p => exact .primitive p
  | .sigVoid => exact .void
  | .sigReference (.refClass c) => exact .classType c
  | .sigReference (.refVariable (.freeVariable i x)) => exact .freeVariable i x
  | .sigReference (.refVariable (.boundVariable i d)) => exact hu.elim
  | .sigReference (.refArray (.arrayType i d b)) =>
      obtain ⟨⟨hone, hmax⟩, hbase, hb⟩ := ht
      exact .array i hone hmax hbase (of_unbound hb hu)

theorem dimensions_of_isBase {b : TypeTree Unit .typeSignature} (hb : b.IsBase) :
    b.dimensions = 0 := by
  match b with
  | .sigPrimitive p => rfl
  | .sigVoid => rfl
  | .sigReference (.refClass c) => rfl
  | .sigReference (.refVariable v) => rfl
  | .sigReference (.refArray a) => exact nomatch hb.2

namespace NamedType

theorem dimensions_le (ht : NamedType t) : t.dimensions ≤ maxDimension := by
  induction ht with
  | array i hone hmax hbase hb ih =>
      show _ + _ ≤ maxDimension
      rw [dimensions_of_isBase hbase]
      exact hmax
  | _ => exact Nat.zero_le _

/-- An array is not an array of `void`. -/
theorem isBase_stop (ht : NamedType t) (hvoid : t.isVoid = false) : t.stop.IsBase := by
  induction ht with
  | primitive p | classType c => exact ⟨rfl, rfl⟩
  | void => exact nomatch hvoid
  | freeVariable i x => trivial
  | array i hone hmax hbase hb ih => exact ih hbase.1

theorem isBase_of_dimensions (ht : NamedType t) (hd : t.dimensions ≠ 0) : t.stop.IsBase := by
  refine ht.isBase_stop ?_
  cases ht with
  | void => exact absurd rfl hd
  | _ => rfl

theorem mem_freeNames_of_stop (ht : NamedType t) {x : String} (hstop : t.stop = .name x) :
    x ∈ t.freeNames := by
  induction ht with
  | primitive p | classType c | void => exact nomatch hstop
  | freeVariable i y =>
      obtain rfl := Stop.name.inj hstop
      exact List.mem_singleton_self _
  | array i hone hmax hbase hb ih => exact ih hstop

end NamedType

/-! ## Arrays -/

/-- A descriptor under an array with so many dimensions, if it has any. -/
def addArrays (d : Nat) (e : TypeTree Unit .typeDescriptor) :
    Except TypeError (TypeTree Unit .typeDescriptor) :=
  if d = 0 then .ok e else (.descArray <$> makeArrayDescriptor d e : ExceptT TypeError Id _).run

theorem bind_addArrays_zero (r : Except TypeError (TypeTree Unit .typeDescriptor)) :
    r >>= addArrays 0 = r := by
  cases r <;> rfl

/-- What an array is put over is erased first. -/
theorem run_map_makeArray {d : Nat} (hd : 1 ≤ d)
    {x : ExceptT TypeError Id (TypeTree Unit .typeDescriptor)}
    {r : Except TypeError (TypeTree Unit .typeDescriptor)} (hx : x.run = r) :
    (TypeTree.descArray <$> (x >>= makeArrayDescriptor d)).run = r >>= addArrays d := by
  have hadd : addArrays d = fun e =>
      (TypeTree.descArray <$> makeArrayDescriptor d e : ExceptT TypeError Id _).run :=
    funext fun _ => if_neg (by omega)
  rw [hadd, map_bind]
  show (ExceptT.bindCont (fun e => TypeTree.descArray <$> makeArrayDescriptor d e) x.run : Id _) = _
  rw [hx]
  cases r <;> rfl

theorem typeErasure_array {i : Unit} {d : Nat} (hd : 1 ≤ d) (b : TypeTree Unit .typeSignature) :
    typeErasure (.sigReference (.refArray (.arrayType i d b))) =
      b.typeErasure >>= addArrays d :=
  run_map_makeArray hd rfl

theorem arrayOf_zero (e : TypeTree Unit .typeDescriptor) : arrayOf 0 e = e :=
  rfl

theorem arrayOf_of_pos {d : Nat} (hd : d ≠ 0) (e : TypeTree Unit .typeDescriptor) :
    arrayOf d e = .descArray (.arrayDescriptor () d e) :=
  if_neg hd

theorem isVoid_arrayOf {e : TypeTree Unit .typeDescriptor} (he : e.IsBase) (d : Nat) :
    (arrayOf d e).isVoid = false := by
  unfold arrayOf
  split_ifs with hd
  · exact he.1
  · rfl

/-- The dimensions of arrays of arrays add up, and only the sum is checked. -/
theorem flatDescriptor_arrayOf {d n : Nat} {e : TypeTree Unit .typeDescriptor} (he : e.IsBase)
    (hzero : d ≠ 0) (hd : d ≤ maxDimension) (hn : n ≤ maxDimension) :
    flatDescriptor d (arrayOf n e) = (·, e) <$> checkDimension (d + n) := by
  rcases eq_or_ne n 0 with rfl | hn0
  · rw [arrayOf_zero]
    exact flatDescriptor_of_isBase he
  · have hlimit : d + n < dimensionLimit := by
      unfold maxDimension at hd hn
      unfold dimensionLimit
      omega
    rw [arrayOf_of_pos hn0, flatDescriptor, if_neg hzero, addDimension, if_pos hlimit]

section

variable {d n : Nat} {e : TypeTree Unit .typeDescriptor}

theorem addArrays_of_le (he : d ≠ 0 → e.IsBase) (hle : d + n ≤ maxDimension) :
    addArrays d (arrayOf n e) = .ok (arrayOf (d + n) e) := by
  rcases eq_or_ne d 0 with rfl | hd
  · rw [Nat.zero_add]
    rfl
  · rw [addArrays, if_neg hd, makeArrayDescriptor,
      flatDescriptor_arrayOf (he hd) hd (by omega) (by omega), checkDimension_of_allowed (by omega),
      arrayOf_of_pos (by omega)]
    rfl

theorem addArrays_of_lt (he : d ≠ 0 → e.IsBase) (hd : d ≤ maxDimension) (hn : n ≤ maxDimension)
    (hlt : maxDimension < d + n) :
    addArrays d (arrayOf n e) = .error (.construction (.invalidDimension (d + n))) := by
  have hzero : d ≠ 0 := by omega
  rw [addArrays, if_neg hzero, makeArrayDescriptor, flatDescriptor_arrayOf (he hzero) hzero hd hn,
    checkDimension, if_neg (by omega)]
  rfl

/-- What may be a value is an array of a base. -/
theorem eq_arrayOf (hwf : e.WellFormed) (hvoid : e.isVoid = false) :
    e.dimensions ≤ maxDimension ∧ e.base.IsBase ∧ e = arrayOf e.dimensions e.base := by
  match e with
  | .descPrimitive p => exact ⟨Nat.zero_le _, ⟨rfl, rfl⟩, rfl⟩
  | .descClass c => exact ⟨Nat.zero_le _, ⟨rfl, rfl⟩, rfl⟩
  | .descArray (.arrayDescriptor i k b) =>
      obtain ⟨⟨hone, hmax⟩, hbase, -⟩ := hwf
      exact ⟨hmax, hbase, (arrayOf_of_pos (by omega) b).symm⟩

end

/-! ## Erasures are types -/

theorem wellFormed_of_addArrays {d : Nat} {b e : TypeTree Unit .typeDescriptor}
    (hb : b.WellFormed ∧ b.isVoid = false) (h : addArrays d b = .ok e) :
    e.WellFormed ∧ e.isVoid = false := by
  unfold addArrays at h
  split_ifs at h with hd
  · obtain rfl := Except.ok.inj h
    exact hb
  · obtain ⟨a, ha, rfl⟩ := run_map_eq_ok.mp h
    obtain ⟨⟨d', b'⟩, hflat, ha⟩ := run_bind_eq_ok.mp ha
    obtain ⟨hallowed, hbase, hpart⟩ := Pool.flatDescriptor_eq_ok hb.1 (run_checked_eq_ok.mp hflat)
    obtain rfl := Except.ok.inj ha
    refine ⟨⟨hallowed, hbase, ?_⟩, rfl⟩
    rcases hpart with rfl | ⟨i, inner, rfl⟩
    · exact hb.1
    · exact hb.1.2.2

/-- The erasure of a well-formed type other than `void` is another one. -/
theorem wellFormed_of_typeErasure (t : TypeTree Unit .typeSignature) (ht : t.WellFormed)
    (hvoid : t.isVoid = false) {e : TypeTree Unit .typeDescriptor} (h : t.typeErasure = .ok e) :
    e.WellFormed ∧ e.isVoid = false := by
  match t with
  | .sigPrimitive p =>
      obtain rfl := Except.ok.inj h
      exact ⟨trivial, rfl⟩
  | .sigReference (.refClass (.classType i o n as)) =>
      obtain rfl := Except.ok.inj h
      exact ⟨isClassName_binaryName _ ht, rfl⟩
  | .sigReference (.refArray (.arrayType i d b)) =>
      obtain ⟨hd, hbase, hb⟩ := ht
      rw [typeErasure_array hd.1] at h
      cases hr : b.typeErasure with
      | ok e' =>
          rw [hr] at h
          exact wellFormed_of_addArrays (wellFormed_of_typeErasure b hb hbase.1 hr) h
      | error err =>
          rw [hr] at h
          exact nomatch h
  | .sigReference (.refVariable (.freeVariable i x)) => exact nomatch h
  -- A variable erases as the first bound does.
  | .sigReference (.refVariable (.boundVariable i (.typeParameter j n (.boundedBy r) is))) =>
      exact wellFormed_of_typeErasure (.sigReference r) ht.2.2.1 rfl h
  | .sigReference (.refVariable (.boundVariable i (.typeParameter j n .noClassBound .nil))) =>
      exact nomatch ht.2.1 rfl
  | .sigReference (.refVariable
      (.boundVariable i (.typeParameter j n .noClassBound (.cons r rs)))) =>
      exact wellFormed_of_typeErasure (.sigReference r) ht.2.2.2.1 rfl h
termination_by sizeOf t

theorem binaryName_of_bind (c c' : TypeTree Unit .classType)
    (h : (c.bind s : ExceptT TypeError Id _).run = .ok c') : c'.binaryName = c.binaryName := by
  match c with
  | .classType i .topLevel n as =>
      obtain ⟨o, ho, h⟩ := run_bind_eq_ok.mp h
      obtain ⟨as', -, h⟩ := run_bind_eq_ok.mp h
      obtain rfl := Except.ok.inj ho
      obtain rfl := Except.ok.inj h
      rfl
  | .classType i (.nestedIn o) n as =>
      obtain ⟨o', ho, h⟩ := run_bind_eq_ok.mp h
      obtain ⟨as', -, h⟩ := run_bind_eq_ok.mp h
      obtain ⟨o₁, ho₁, rfl⟩ := run_map_eq_ok.mp ho
      obtain rfl := Except.ok.inj h
      show o₁.binaryName ++ "$" ++ n = o.binaryName ++ "$" ++ n
      rw [binaryName_of_bind o o₁ ho₁]

theorem eq_of_bind_freeVariable {i : Unit} {x : String} {v : TypeTree Unit .typeVariable}
    (h : ((freeVariable i x).bind s : ExceptT TypeError Id _).run = .ok v) :
    ∃ d, s x = some d ∧ v = .boundVariable () d := by
  unfold TypeTree.bind at h
  cases hx : s x with
  | some d =>
      rw [hx] at h
      exact ⟨d, rfl, (Except.ok.inj h).symm⟩
  | none =>
      rw [hx] at h
      cases h

end TypeTree

/-- What a name erases to in a scope. -/
def Scope.erasure (s : Scope Unit) (x : String) :
    Except TypeError (TypeTree Unit .typeDescriptor) :=
  match s x with
  | some d => d.variableErasure
  | none => .error (.unresolved x)

/-- What a stop erases to in a scope. -/
def Stop.erasure (s : Scope Unit) : Stop → Except TypeError (TypeTree Unit .typeDescriptor)
  | .descriptor e => .ok e
  | .name x => s.erasure x

namespace TypeTree

namespace NamedType

/-- A type that is not bound has no erasure if it stops at a name. -/
theorem erasure_of_stop_name (ht : NamedType t) {x : String} (hstop : t.stop = .name x) :
    t.typeErasure = .error (.unresolved x) := by
  induction ht with
  | primitive p | classType c | void => exact nomatch hstop
  | freeVariable i y =>
      obtain rfl := Stop.name.inj hstop
      rfl
  | array i hone hmax hbase hb ih =>
      rw [typeErasure_array hone, ih hstop]
      rfl

theorem isSome_of_bind (ht : NamedType t) (h : (t.bind s : ExceptT TypeError Id _).run = .ok t')
    {x : String} (hstop : t.stop = .name x) : (s x).isSome := by
  induction ht generalizing t' with
  | primitive p | classType c | void => exact nomatch hstop
  | freeVariable i y =>
      obtain rfl := Stop.name.inj hstop
      obtain ⟨r', hr, rfl⟩ := run_map_eq_ok.mp h
      obtain ⟨v', hv, rfl⟩ := run_map_eq_ok.mp hr
      obtain ⟨d, hd, -⟩ := eq_of_bind_freeVariable hv
      rw [hd]
      rfl
  | array i hone hmax hbase hb ih =>
      obtain ⟨r', hr, rfl⟩ := run_map_eq_ok.mp h
      obtain ⟨a', ha, rfl⟩ := run_map_eq_ok.mp hr
      obtain ⟨b', hb', ha⟩ := run_bind_eq_ok.mp ha
      exact ih hb' hstop

/-- A bound type erases to what it stops at, under its arrays. -/
theorem erasure_of_bind (ht : NamedType t)
    (h : (t.bind s : ExceptT TypeError Id _).run = .ok t') :
    t'.typeErasure = t.stop.erasure s >>= addArrays t.dimensions := by
  induction ht generalizing t' with
  | primitive p | void =>
      obtain rfl := Except.ok.inj h
      rfl
  | classType c =>
      obtain ⟨r', hr, rfl⟩ := run_map_eq_ok.mp h
      obtain ⟨c', hc, rfl⟩ := run_map_eq_ok.mp hr
      show _ = Except.ok (TypeTree.descClass (.classDescriptor () c.binaryName))
      rw [← binaryName_of_bind c c' hc]
      cases c'
      rfl
  | freeVariable i x =>
      obtain ⟨r', hr, rfl⟩ := run_map_eq_ok.mp h
      obtain ⟨v', hv, rfl⟩ := run_map_eq_ok.mp hr
      show _ = s.erasure x >>= addArrays 0
      obtain ⟨d, hd, rfl⟩ := eq_of_bind_freeVariable hv
      rw [bind_addArrays_zero, Scope.erasure, hd]
      rfl
  | array i hone hmax hbase hb ih =>
      obtain ⟨r', hr, rfl⟩ := run_map_eq_ok.mp h
      obtain ⟨a', ha, rfl⟩ := run_map_eq_ok.mp hr
      obtain ⟨b', hb', ha⟩ := run_bind_eq_ok.mp ha
      obtain rfl := Except.ok.inj ha
      have hsame := ih hb'
      rw [dimensions_of_isBase hbase, bind_addArrays_zero] at hsame
      refine (typeErasure_array hone b').trans ?_
      rw [hsame]
      show _ = _ >>= addArrays (_ + _)
      rw [dimensions_of_isBase hbase]
      rfl

end NamedType

end TypeTree

end ClassfileTypes
