import ClassfileTypes.Proofs.Construction

/-!
# The checked constructions, without a pool

A computation without a pool that succeeds is taken apart step by step. A construction
gives a well-formed tree back when it is handed the parts, and what it gives has the
parts that it was handed, with names in normal form.
-/

namespace ClassfileTypes

/-! ## Plain results, taken apart -/

theorem run_bind_eq_ok {ε α β : Type} {x : ExceptT ε Id α} {k : α → ExceptT ε Id β} {b : β} :
    (x >>= k).run = .ok b ↔ ∃ a, x.run = .ok a ∧ (k a).run = .ok b := by
  show (ExceptT.bindCont k x.run) = _ ↔ _
  cases x.run with
  | ok a =>
      constructor
      · intro h
        exact ⟨a, rfl, h⟩
      · rintro ⟨a', ha, h⟩
        rw [Except.ok.inj ha]
        exact h
  | error e =>
      constructor
      · exact fun h => nomatch h
      · rintro ⟨a', ha, -⟩
        exact nomatch ha

theorem run_map_eq_ok {ε α β : Type} {g : α → β} {x : ExceptT ε Id α} {b : β} :
    (g <$> x).run = .ok b ↔ ∃ a, x.run = .ok a ∧ g a = b := by
  rw [← bind_pure_comp, run_bind_eq_ok]
  constructor
  · rintro ⟨a, ha, h⟩
    exact ⟨a, ha, Except.ok.inj h⟩
  · rintro ⟨a, ha, rfl⟩
    exact ⟨a, ha, rfl⟩

theorem run_adapt_eq_ok {ε ε' α : Type} {g : ε → ε'} {x : ExceptT ε Id α} {a : α} :
    (ExceptT.adapt g x).run = .ok a ↔ x.run = .ok a := by
  change Except.mapError g x.run = _ ↔ _
  cases x.run with
  | ok b =>
      constructor
      · exact fun h => congrArg Except.ok (Except.ok.inj h)
      · exact fun h => congrArg Except.ok (Except.ok.inj h)
  | error e =>
      constructor
      · exact fun h => nomatch h
      · exact fun h => nomatch h

/-! ## Well-formed trees are made as they are -/

namespace TypeTree

theorem run_makeClassDescriptor {i : Unit} {n : String} (h : (classDescriptor i n).WellFormed) :
    (makeClassDescriptor n : ExceptT TypeError Id _).run = Except.ok (classDescriptor i n) := by
  unfold makeClassDescriptor
  rw [show Name.classNameOf n = .ok n from Name.IsClassName.classNameOf_eq h]
  rfl

theorem run_makeFreeVariable {i : Unit} {n : String} (h : (freeVariable i n).WellFormed) :
    (makeFreeVariable n : ExceptT TypeError Id _).run = Except.ok (freeVariable i n) := by
  unfold makeFreeVariable
  rw [Name.simpleNameOf_eq_ok_iff.mpr ⟨rfl, h⟩]
  rfl

theorem run_makeClassType {i : Unit} {o : TypeTree Unit .enclosing} {n : String}
    {as : TypeTree Unit (.list .typeArgument)} (h : (classType i o n as).WellFormed) :
    (makeClassType o n as : ExceptT TypeError Id _).run = Except.ok (classType i o n as) := by
  cases o with
  | topLevel =>
      unfold makeClassType
      rw [show Name.classNameOf n = .ok n from Name.IsClassName.classNameOf_eq h.1]
      rfl
  | nestedIn c =>
      unfold makeClassType
      rw [Name.simpleNameOf_eq_ok_iff.mpr ⟨rfl, h.1⟩]
      rfl

theorem checkDimension_of_allowed {d : Nat} (h : 1 ≤ d ∧ d ≤ maxDimension) :
    checkDimension d = .ok d :=
  if_pos h

/-- Over the base of a flat array there is nothing to flatten. -/
theorem flatDescriptor_of_isBase {d : Nat} {b : TypeTree Unit .typeDescriptor} (h : b.IsBase) :
    flatDescriptor d b = (·, b) <$> checkDimension d := by
  cases b with
  | descVoid => exact nomatch h.1
  | descArray a => exact nomatch h.2
  | _ => rfl

theorem run_makeArrayDescriptor {i : Unit} {d : Nat} {b : TypeTree Unit .typeDescriptor}
    (h : (arrayDescriptor i d b).WellFormed) :
    (makeArrayDescriptor d b : ExceptT TypeError Id _).run = Except.ok (arrayDescriptor i d b) := by
  unfold makeArrayDescriptor
  rw [flatDescriptor_of_isBase h.2.1, checkDimension_of_allowed h.1]
  rfl

/-- Over the base of a flat array there is nothing to flatten. -/
theorem flatType_of_isBase {d : Nat} {b : TypeTree Unit .typeSignature} (h : b.IsBase) :
    flatType d b = (·, b) <$> checkDimension d := by
  cases b with
  | sigVoid => exact nomatch h.1
  | sigPrimitive p => rfl
  | sigReference r =>
      cases r with
      | refArray a => exact nomatch h.2
      | _ => rfl

theorem run_makeArrayType {i : Unit} {d : Nat} {b : TypeTree Unit .typeSignature}
    (h : (arrayType i d b).WellFormed) :
    (makeArrayType d b : ExceptT TypeError Id _).run = Except.ok (arrayType i d b) := by
  unfold makeArrayType
  rw [flatType_of_isBase h.2.1, checkDimension_of_allowed h.1]
  rfl

/-- A type parameter with a bound. -/
theorem run_makeTypeParameter {n : String} {b : TypeTree Unit .classBound}
    {is : TypeTree Unit (.list .referenceType)} (hname : Name.IsSimpleName n)
    (hbounds : b.isUnbounded = true → is.isNil = false) :
    (makeTypeParameter n b is : ExceptT TypeError Id _).run =
      Except.ok (typeParameter () n b is) := by
  unfold makeTypeParameter
  rw [Name.simpleNameOf_eq_ok_iff.mpr ⟨rfl, hname⟩]
  cases b with
  | noClassBound =>
      cases is with
      | nil => exact nomatch hbounds rfl
      | cons x xs => rfl
  | boundedBy r => rfl

theorem checkParameters_of_no_void {f : Form} {ps : TypeTree Unit (.list f)}
    (h : ∀ p ∈ ps.entries, p.isVoid = false) : checkParameters ps = .ok () := by
  unfold checkParameters
  rw [if_neg (by simpa using h)]

theorem run_makeMethodDescriptor {i : Unit} {ps : TypeTree Unit (.list .typeDescriptor)}
    {t : TypeTree Unit .typeDescriptor} (h : (methodDescriptor i ps t).WellFormed) :
    (makeMethodDescriptor ps t : ExceptT TypeError Id _).run =
      Except.ok (methodDescriptor i ps t) := by
  unfold makeMethodDescriptor
  rw [checkParameters_of_no_void h.1]
  rfl

theorem run_makeMethodSignature {i : Unit} {ts : TypeTree Unit (.list .typeParameter)}
    {ps : TypeTree Unit (.list .typeSignature)} {t : TypeTree Unit .typeSignature}
    {es : TypeTree Unit (.list .throwsType)} (h : (methodSignature i ts ps t es).WellFormed) :
    (makeMethodSignature ts ps t es : ExceptT TypeError Id _).run =
      Except.ok (methodSignature i ts ps t es) := by
  unfold makeMethodSignature
  rw [checkParameters_of_no_void h.1]
  rfl

end TypeTree

/-! ## What is made is what was given -/

namespace Name

theorem toList_of_classNameOf {n m : String} (h : classNameOf n = .ok m) :
    m.toList = slashed n.toList := by
  dsimp only [classNameOf] at h
  split_ifs at h
  obtain rfl := Except.ok.inj h
  rw [String.toList_ofList]

end Name

namespace TypeTree

theorem run_checked_eq_ok {α : Type} {x : Except ConstructionError α} {a : α} :
    (checked x : ExceptT TypeError Id α).run = .ok a ↔ x = .ok a := by
  cases x with
  | ok b =>
      constructor
      · exact fun h => congrArg Except.ok (Except.ok.inj h)
      · exact fun h => congrArg Except.ok (Except.ok.inj h)
  | error e =>
      constructor
      · exact fun h => nomatch h
      · exact fun h => nomatch h

theorem eq_of_makeClassDescriptor {n : String} {c : TypeTree Unit .classDescriptor}
    (h : (makeClassDescriptor n : ExceptT TypeError Id _).run = .ok c) :
    ∃ m, Name.classNameOf n = .ok m ∧ c = .classDescriptor () m := by
  obtain ⟨m, hm, hc⟩ := run_bind_eq_ok.mp h
  exact ⟨m, run_checked_eq_ok.mp hm, (Except.ok.inj hc).symm⟩

theorem eq_of_makeFreeVariable {n : String} {v : TypeTree Unit .typeVariable}
    (h : (makeFreeVariable n : ExceptT TypeError Id _).run = .ok v) :
    Name.IsSimpleName n ∧ v = .freeVariable () n := by
  obtain ⟨m, hm, hv⟩ := run_bind_eq_ok.mp h
  obtain ⟨rfl, hname⟩ := Name.simpleNameOf_eq_ok_iff.mp (run_checked_eq_ok.mp hm)
  exact ⟨hname, (Except.ok.inj hv).symm⟩

/-- A name without dots is in normal form already. -/
theorem eq_of_makeClassType {o : TypeTree Unit .enclosing} {n : String}
    {as : TypeTree Unit (.list .typeArgument)} {c : TypeTree Unit .classType}
    (h : (makeClassType o n as : ExceptT TypeError Id _).run = .ok c)
    (hdot : ∀ c ∈ n.toList, c ≠ '.') : o.AcceptsName n ∧ c = .classType () o n as := by
  cases o with
  | topLevel =>
      obtain ⟨m, hm, hc⟩ := run_bind_eq_ok.mp h
      have hname := run_checked_eq_ok.mp hm
      have hsame : m.toList = n.toList := by
        rw [Name.toList_of_classNameOf hname, Name.slashed_of_no_dot hdot]
      obtain rfl := String.toList_inj.mp hsame
      exact ⟨Name.isClassName_of_classNameOf hname, (Except.ok.inj hc).symm⟩
  | nestedIn o =>
      obtain ⟨m, hm, hc⟩ := run_bind_eq_ok.mp h
      obtain ⟨rfl, hname⟩ := Name.simpleNameOf_eq_ok_iff.mp (run_checked_eq_ok.mp hm)
      exact ⟨hname, (Except.ok.inj hc).symm⟩

theorem eq_of_makeArrayDescriptor {d : Nat} {b : TypeTree Unit .typeDescriptor}
    {a : TypeTree Unit .arrayDescriptor}
    (h : (makeArrayDescriptor d b : ExceptT TypeError Id _).run = .ok a) (hb : b.IsBase) :
    (1 ≤ d ∧ d ≤ maxDimension) ∧ a = .arrayDescriptor () d b := by
  obtain ⟨x, hx, ha⟩ := run_bind_eq_ok.mp h
  have hflat := run_checked_eq_ok.mp hx
  rw [flatDescriptor_of_isBase hb] at hflat
  obtain ⟨d', hd, rfl⟩ := Pool.map_eq_ok.mp hflat
  obtain ⟨rfl, hallowed⟩ := Pool.checkDimension_eq_ok hd
  exact ⟨hallowed, (Except.ok.inj ha).symm⟩

theorem eq_of_makeArrayType {d : Nat} {b : TypeTree Unit .typeSignature}
    {a : TypeTree Unit .arrayType}
    (h : (makeArrayType d b : ExceptT TypeError Id _).run = .ok a) (hb : b.IsBase) :
    (1 ≤ d ∧ d ≤ maxDimension) ∧ a = .arrayType () d b := by
  obtain ⟨x, hx, ha⟩ := run_bind_eq_ok.mp h
  have hflat := run_checked_eq_ok.mp hx
  rw [flatType_of_isBase hb] at hflat
  obtain ⟨d', hd, rfl⟩ := Pool.map_eq_ok.mp hflat
  obtain ⟨rfl, hallowed⟩ := Pool.checkDimension_eq_ok hd
  exact ⟨hallowed, (Except.ok.inj ha).symm⟩

theorem eq_of_makeTypeParameter {n : String} {b : TypeTree Unit .classBound}
    {is : TypeTree Unit (.list .referenceType)} {p : TypeTree Unit .typeParameter}
    (h : (makeTypeParameter n b is : ExceptT TypeError Id _).run = .ok p) :
    Name.IsSimpleName n ∧ (b.isUnbounded = true → is.isNil = false) ∧
      p = .typeParameter () n b is := by
  obtain ⟨m, hm, hp⟩ := run_bind_eq_ok.mp h
  obtain ⟨rfl, hname⟩ := Name.simpleNameOf_eq_ok_iff.mp (run_checked_eq_ok.mp hm)
  cases b with
  | noClassBound =>
      cases is with
      | nil => exact nomatch hp
      | cons r rs => exact ⟨hname, fun _ => rfl, (Except.ok.inj hp).symm⟩
  | boundedBy r => exact ⟨hname, fun hb => (nomatch hb), (Except.ok.inj hp).symm⟩

theorem eq_of_makeMethodDescriptor {ps : TypeTree Unit (.list .typeDescriptor)}
    {t : TypeTree Unit .typeDescriptor} {d : TypeTree Unit .methodDescriptor}
    (h : (makeMethodDescriptor ps t : ExceptT TypeError Id _).run = .ok d) :
    (∀ p ∈ ps.entries, p.isVoid = false) ∧ d = .methodDescriptor () ps t := by
  obtain ⟨u, hu, hd⟩ := run_bind_eq_ok.mp h
  exact ⟨Pool.forall_of_checkParameters (run_checked_eq_ok.mp hu), (Except.ok.inj hd).symm⟩

theorem eq_of_makeMethodSignature {ts : TypeTree Unit (.list .typeParameter)}
    {ps : TypeTree Unit (.list .typeSignature)} {t : TypeTree Unit .typeSignature}
    {es : TypeTree Unit (.list .throwsType)} {d : TypeTree Unit .methodSignature}
    (h : (makeMethodSignature ts ps t es : ExceptT TypeError Id _).run = .ok d) :
    (∀ p ∈ ps.entries, p.isVoid = false) ∧ d = .methodSignature () ts ps t es := by
  obtain ⟨u, hu, hd⟩ := run_bind_eq_ok.mp h
  exact ⟨Pool.forall_of_checkParameters (run_checked_eq_ok.mp hu), (Except.ok.inj hd).symm⟩

end TypeTree

end ClassfileTypes
