import ClassfileTypes.Proofs.Conversion
import ClassfileTypes.Proofs.StrictOperations
import ClassfileTypes.Proofs.StrictReading

/-!
# A strict pool accepts what expressions ask for

As long as the registers hold well-formed trees, an expression has the same value in a
strict pool as without a pool. Expressions, their lists and scopes contain each other, so
the theorems are proved together.
-/

namespace ClassfileTypes

/-- The tree is well formed, whatever its form. -/
def AnyTree.WellFormed {ι : Type} (v : AnyTree ι) : Prop :=
  v.2.WellFormed

open TypeTree

variable {α : Type} {P : α → Prop} {f : Form} {v : AnyTree Unit}

/-! ## Parts -/

namespace AnyTree

theorem accepts_nth {xs : TypeTree Unit (.list f)} (hxs : xs.WellFormed) (index : Option Nat) :
    Accepts WellFormed (nth xs index) (nth xs index) := by
  unfold nth
  split
  · rename_i x hx
    obtain ⟨i, -, hi⟩ := Option.bind_eq_some_iff.mp hx
    exact .pure (hxs.entries x (List.mem_of_getElem? hi))
  · exact .throw

/-- Three parts are made, the others are there. -/
theorem accepts_part (hv : v.WellFormed) (part : Part) (index : Option Nat) :
    Accepts WellFormed (v.part part index) (v.part part index) := by
  obtain ⟨g, t⟩ := v
  cases t with
  | classType i o n as =>
      obtain ⟨-, ho, has⟩ := hv
      cases part with
      | outer =>
          cases o with
          | topLevel => exact .throw
          | nestedIn c => exact .pure ho
      | argument => cases o <;> exact accepts_nth has index
      | _ => cases o <;> exact .throw
  | arrayDescriptor i d b =>
      cases part with
      | base => exact .pure hv.2.2
      | component => exact (accepts_descriptorComponent hv).map fun _ h => h
      | _ => exact .throw
  | arrayType i d b =>
      cases part with
      | base => exact .pure hv.2.2
      | component => exact (accepts_typeComponent hv).map fun _ h => h
      | _ => exact .throw
  | methodDescriptor i ps r =>
      obtain ⟨-, hps, hr⟩ := hv
      cases part with
      | parameter => exact accepts_nth hps index
      | result => exact .pure hr
      | _ => exact .throw
  | methodSignature i ts ps r es =>
      obtain ⟨-, hts, hps, hr, hes⟩ := hv
      cases part with
      | typeParameter => exact accepts_nth hts index
      | parameter => exact accepts_nth hps index
      | result => exact .pure hr
      | throws => exact accepts_nth hes index
      | _ => exact .throw
  | classSignature i ts c is =>
      obtain ⟨hts, hc, his⟩ := hv
      cases part with
      | typeParameter => exact accepts_nth hts index
      | superclass => exact .pure hc
      | interface => exact accepts_nth his index
      | _ => exact .throw
  | boundVariable i d =>
      cases part with
      | declaration => exact .pure hv
      | _ => exact .throw
  | typeParameter i n c is =>
      obtain ⟨-, -, hc, his⟩ := id hv
      cases part with
      | classBound =>
          cases c with
          | noClassBound => exact .throw
          | boundedBy r => exact .pure hc
      | interfaceBound => cases c <;> exact accepts_nth his index
      | «variable» => cases c <;> exact Accepts.bind (.intern hv) fun _ h _ => .pure h
      | _ => cases c <;> exact .throw
  | boundedArgument i d r =>
      cases part with
      | bound => exact .pure hv
      | _ => exact .throw
  | _ => exact .throw

end AnyTree

/-! ## Values -/

namespace Evaluation

theorem accepts_construct (mode : Mode) {x : ExceptT TypeError StrictM (TypeTree Unit f)}
    {y : ExceptT TypeError Id (TypeTree Unit f)} (hx : Accepts TypeTree.WellFormed x y) :
    Accepts AnyTree.WellFormed (construct mode x) (construct mode y) := by
  apply Accepts.adapt
  exact hx.map fun _ h => h

/-- A conversion makes nothing. -/
theorem accepts_converted {convert : ∀ {ι : Type}, AnyTree ι → Converted ι f}
    (hconvert : AnyTree.IsConversion convert) (hv : v.WellFormed) :
    Accepts TypeTree.WellFormed (converted (convert v)) (converted (convert v)) := by
  cases hc : convert v with
  | error e => exact .throw
  | ok t => exact .pure ((hconvert.restates v t hc).wellFormed hv)

theorem accepts_convertTo (hv : v.WellFormed) (target : Target) :
    Accepts AnyTree.WellFormed (convertTo v target) (convertTo v target) := by
  cases target with
  | typeDescriptor =>
      exact (accepts_converted AnyTree.isConversion_toTypeDescriptor hv).map fun _ h => h
  | typeSignature =>
      exact (accepts_converted AnyTree.isConversion_toTypeSignature hv).map fun _ h => h
  | referenceType =>
      exact (accepts_converted AnyTree.isConversion_toReferenceType hv).map fun _ h => h
  | throwsType => exact (accepts_converted AnyTree.isConversion_toThrowsType hv).map fun _ h => h
  | typeArgument =>
      exact (accepts_converted AnyTree.isConversion_toTypeArgument hv).map fun _ h => h

theorem accepts_signatureOf (hv : v.WellFormed) :
    Accepts AnyTree.WellFormed (signatureOf v) (signatureOf v) := by
  unfold signatureOf
  split_ifs
  · exact Accepts.bind (accepts_raise hv) fun _ h _ => .pure h
  · exact .throw

theorem accepts_erasureOf (mode : Mode) (hv : v.WellFormed) :
    Accepts AnyTree.WellFormed (erasureOf mode v) (erasureOf mode v) := by
  unfold erasureOf
  split_ifs
  · exact accepts_construct mode (accepts_erase hv)
  · exact .throw

/-! ## Declarations and scopes -/

/-- All declarations are well formed. -/
def Declarations.WellFormed {ι : Type} (ds : Declarations ι) : Prop :=
  ∀ d ∈ ds, d.2.WellFormed

theorem wellFormed_ownNames {ι : Type} {ps : List (TypeTree ι .typeParameter)}
    (hps : ∀ p ∈ ps, p.WellFormed) : (ownNames ps).WellFormed :=
  List.forall_mem_map.mpr hps

variable {s : Scope Unit} {ds : Declarations Unit}

theorem accepts_inScope {x : Scope Unit → Evaluation StrictM α} {y : Scope Unit → Evaluation Id α}
    (hds : ds.WellFormed) (hx : ∀ s, s.WellFormed → Accepts P (x s) (y s)) :
    Accepts P (inScope ds x) (inScope ds y) :=
  (hx _ (.ofNamed hds)).holdingAll _

theorem accepts_bound (hv : v.WellFormed) (hs : s.WellFormed) :
    Accepts AnyTree.WellFormed (bound v s) (bound v s) := by
  unfold bound
  split_ifs
  · exact accepts_construct _ (accepts_bind hv hs)
  · exact .throw

theorem accepts_boundDeclared (hv : v.WellFormed) (hs : s.WellFormed) :
    Accepts AnyTree.WellFormed (boundDeclared v s) (boundDeclared v s) := by
  unfold boundDeclared
  split
  · exact accepts_construct _ (accepts_bindMethod hv hs)
  · exact accepts_construct _ (accepts_bindClass hv hs)
  · exact .throw

theorem accepts_membersOf (hv : v.WellFormed) :
    Accepts (fun ps => ∀ p ∈ ps, p.WellFormed) (membersOf v) (membersOf v) := by
  unfold membersOf
  split
  · exact ((accepts_memberScope hv).map fun _ h => h.entries).adapt
  · exact .throw

end Evaluation

/-! ## Expressions -/

section

open Evaluation

variable {regs : Registers Unit}

/-- All registers hold well-formed trees. -/
def Registers.WellFormed {ι : Type} (regs : Registers ι) : Prop :=
  ∀ e ∈ regs, e.2.WellFormed

mutual

theorem accepts_eval (hregs : regs.WellFormed) (e : Expr) :
    Accepts AnyTree.WellFormed (e.eval regs) (e.eval regs) := by
  match e with
  | .register name =>
      rw [Expr.eval, Expr.eval]
      cases h : regs.lookup name with
      | none => exact .throw
      | some v => exact .pure (hregs _ (mem_of_lookup_eq_some h))
  | .parse k text =>
      rw [Expr.eval, Expr.eval]
      exact (accepts_parse k text).adapt.map fun _ h => h
  | .parseAt k text start =>
      rw [Expr.eval, Expr.eval]
      exact (accepts_parseAt k text start).adapt.map fun _ h => h
  | .copy v =>
      rw [Expr.eval, Expr.eval]
      exact accepts_eval hregs v
  | .primitive _ | .voidDescriptor | .voidSignature | .wildcard =>
      rw [Expr.eval, Expr.eval]
      exact .pure trivial
  | .objectDescriptor =>
      rw [Expr.eval, Expr.eval]
      exact accepts_construct _ (accepts_makeClassDescriptor objectName)
  | .objectType =>
      rw [Expr.eval, Expr.eval]
      exact accepts_construct _ accepts_objectType
  | .wrapperDescriptor c =>
      rw [Expr.eval, Expr.eval]
      exact accepts_construct _ (accepts_makeClassDescriptor _)
  | .wrapperType c =>
      rw [Expr.eval, Expr.eval]
      exact accepts_construct _ (accepts_makeClassType _ trivial trivial)
  | .classDescriptor mode name =>
      rw [Expr.eval, Expr.eval]
      exact accepts_construct _ (accepts_makeClassDescriptor name)
  | .arrayDescriptor mode d base =>
      rw [Expr.eval, Expr.eval]
      apply (accepts_eval hregs base).bind
      intro v hv _
      apply (accepts_converted AnyTree.isConversion_toTypeDescriptor hv).bind
      intro b hb _
      exact accepts_construct _ (accepts_makeArrayDescriptor d hb)
  | .methodDescriptor mode parameters result =>
      rw [Expr.eval, Expr.eval]
      apply (accepts_evalList hregs AnyTree.isConversion_toTypeDescriptor parameters).bind
      intro ps hps _
      apply Accepts.bind (accepts_eval hregs result)
      intro v hv _
      apply (accepts_converted AnyTree.isConversion_toTypeDescriptor hv).bind
      intro t ht _
      exact accepts_construct _ (accepts_makeMethodDescriptor hps ht)
  | .classType mode outer name arguments =>
      rw [Expr.eval, Expr.eval]
      apply (accepts_evalOuter hregs outer).bind
      intro o ho _
      apply Accepts.bind (accepts_evalList hregs AnyTree.isConversion_toTypeArgument arguments)
      intro as has _
      exact accepts_construct _ (accepts_makeClassType name ho has)
  | .nestedType outer arguments name =>
      rw [Expr.eval, Expr.eval]
      apply (accepts_eval hregs outer).bind
      intro v hv _
      apply (accepts_converted AnyTree.isConversion_toClassType hv).bind
      intro c hc _
      apply Accepts.bind (accepts_evalList hregs AnyTree.isConversion_toTypeArgument arguments)
      intro as has _
      exact accepts_construct _ (accepts_makeClassType name hc has)
  | .arrayType mode d base =>
      rw [Expr.eval, Expr.eval]
      apply (accepts_eval hregs base).bind
      intro v hv _
      apply (accepts_converted AnyTree.isConversion_toTypeSignature hv).bind
      intro b hb _
      exact accepts_construct _ (accepts_makeArrayType d hb)
  | .freeVariable mode name =>
      rw [Expr.eval, Expr.eval]
      exact accepts_construct _ (accepts_makeFreeVariable name)
  | .typeParameter mode name classBound interfaceBounds =>
      rw [Expr.eval, Expr.eval]
      apply (accepts_evalClassBound hregs classBound).bind
      intro c hc _
      apply Accepts.bind
        (accepts_evalList hregs AnyTree.isConversion_toReferenceType interfaceBounds)
      intro is his _
      exact accepts_construct _ (accepts_makeTypeParameter name hc his)
  | .unconstrained name =>
      rw [Expr.eval, Expr.eval]
      exact accepts_construct _ (accepts_makeUnconstrained name)
  | .boundVariable declaration =>
      rw [Expr.eval, Expr.eval]
      apply (accepts_eval hregs declaration).bind
      intro v hv _
      apply (accepts_converted AnyTree.isConversion_toTypeParameter hv).bind
      intro d hd _
      exact Accepts.bind (.intern hd) fun _ h _ => .pure h
  | .wildcardOf direction bound | .boundedArgument direction bound =>
      rw [Expr.eval, Expr.eval]
      apply (accepts_eval hregs bound).bind
      intro v hv _
      apply (accepts_converted AnyTree.isConversion_toReferenceType hv).bind
      intro r hr _
      exact Accepts.bind (.intern hr) fun _ h _ => .pure h
  | .methodSignature mode typeParameters parameters result throws =>
      rw [Expr.eval, Expr.eval]
      apply (accepts_evalList hregs AnyTree.isConversion_toTypeParameter typeParameters).bind
      intro ts hts _
      apply Accepts.bind (accepts_evalList hregs AnyTree.isConversion_toTypeSignature parameters)
      intro ps hps _
      apply Accepts.bind (accepts_eval hregs result)
      intro v hv _
      apply (accepts_converted AnyTree.isConversion_toTypeSignature hv).bind
      intro r hr _
      apply Accepts.bind (accepts_evalList hregs AnyTree.isConversion_toThrowsType throws)
      intro es hes _
      exact accepts_construct _ (accepts_makeMethodSignature hts hps hr hes)
  | .classSignature typeParameters superclass interfaces =>
      rw [Expr.eval, Expr.eval]
      apply (accepts_evalList hregs AnyTree.isConversion_toTypeParameter typeParameters).bind
      intro ts hts _
      apply Accepts.bind (accepts_eval hregs superclass)
      intro v hv _
      apply (accepts_converted AnyTree.isConversion_toClassType hv).bind
      intro c hc _
      apply Accepts.bind (accepts_evalList hregs AnyTree.isConversion_toClassType interfaces)
      intro is his _
      exact Accepts.bind (.intern ⟨hts, hc, his⟩) fun _ h _ => .pure h
  | .convert v target =>
      rw [Expr.eval, Expr.eval]
      exact (accepts_eval hregs v).bind fun _ hv _ => accepts_convertTo hv target
  | .inner v =>
      rw [Expr.eval, Expr.eval]
      apply (accepts_eval hregs v).bind
      intro v hv _
      exact .pure ((AnyTree.restates_inner v).wellFormed hv)
  | .part v part index =>
      rw [Expr.eval, Expr.eval]
      apply (accepts_eval hregs v).bind
      intro v hv _
      have hinner := (AnyTree.restates_inner v).wellFormed hv
      dsimp only
      cases part with
      | none => exact .throw
      | some part => exact (AnyTree.accepts_part hinner part index).adapt
  | .signature v =>
      rw [Expr.eval, Expr.eval]
      exact (accepts_eval hregs v).bind fun _ hv _ => accepts_signatureOf hv
  | .erase mode v =>
      rw [Expr.eval, Expr.eval]
      exact (accepts_eval hregs v).bind fun _ hv _ => accepts_erasureOf mode hv
  | .bind v scope =>
      rw [Expr.eval, Expr.eval]
      apply (accepts_eval hregs v).bind
      intro v hv _
      apply Accepts.bind (accepts_evalScope hregs scope)
      intro ds hds _
      exact accepts_inScope hds fun s hs => accepts_bound hv hs
  | .bindDeclared v scope =>
      rw [Expr.eval, Expr.eval]
      apply (accepts_eval hregs v).bind
      intro v hv _
      apply Accepts.bind (accepts_evalScope hregs scope)
      intro ds hds _
      exact accepts_inScope hds fun s hs => accepts_boundDeclared hv hs

theorem accepts_evalList (hregs : regs.WellFormed) {f : Form}
    {convert : ∀ {ι : Type}, AnyTree ι → Converted ι f} (hconvert : AnyTree.IsConversion convert)
    (es : List Expr) :
    Accepts TypeTree.WellFormed (Expr.evalList regs convert es)
      (Expr.evalList regs convert es) := by
  match es with
  | [] =>
      rw [Expr.evalList, Expr.evalList]
      exact .pure trivial
  | e :: es =>
      rw [Expr.evalList, Expr.evalList]
      apply (accepts_eval hregs e).bind
      intro v hv _
      apply (accepts_converted hconvert hv).bind
      intro x hx _
      apply Accepts.bind (accepts_evalList hregs hconvert es)
      intro xs hxs _
      exact .pure ⟨hx, hxs⟩

theorem accepts_evalOuter (hregs : regs.WellFormed) (e : Option Expr) :
    Accepts TypeTree.WellFormed (Expr.evalOuter regs e) (Expr.evalOuter regs e) := by
  match e with
  | none =>
      rw [Expr.evalOuter, Expr.evalOuter]
      exact .pure trivial
  | some e =>
      rw [Expr.evalOuter, Expr.evalOuter]
      apply (accepts_eval hregs e).bind
      intro v hv _
      exact (accepts_converted AnyTree.isConversion_toClassType hv).bind fun _ h _ => .pure h

theorem accepts_evalClassBound (hregs : regs.WellFormed) (e : Option Expr) :
    Accepts TypeTree.WellFormed (Expr.evalClassBound regs e) (Expr.evalClassBound regs e) := by
  match e with
  | none =>
      rw [Expr.evalClassBound, Expr.evalClassBound]
      exact .pure trivial
  | some e =>
      rw [Expr.evalClassBound, Expr.evalClassBound]
      apply (accepts_eval hregs e).bind
      intro v hv _
      exact (accepts_converted AnyTree.isConversion_toReferenceType hv).bind fun _ h _ => .pure h

theorem accepts_evalScope (hregs : regs.WellFormed) (s : ScopeExpr) :
    Accepts Declarations.WellFormed (s.eval regs) (s.eval regs) := by
  match s with
  | .empty =>
      rw [ScopeExpr.eval, ScopeExpr.eval]
      exact .pure fun _ hd => absurd hd List.not_mem_nil
  | .parameters ps =>
      rw [ScopeExpr.eval, ScopeExpr.eval]
      apply (accepts_evalList hregs AnyTree.isConversion_toTypeParameter ps).bind
      intro ts hts _
      exact .pure (wellFormed_ownNames hts.entries)
  | .members c =>
      rw [ScopeExpr.eval, ScopeExpr.eval]
      apply (accepts_eval hregs c).bind
      intro v hv _
      exact (accepts_membersOf hv).bind fun _ hps _ => .pure (wellFormed_ownNames hps)
  | .within near far =>
      rw [ScopeExpr.eval, ScopeExpr.eval]
      apply (accepts_evalScope hregs near).bind
      intro ds hds _
      apply ((accepts_evalScope hregs far).holdingAll _).bind
      intro es hes _
      exact .pure (List.forall_mem_append.mpr ⟨hds, hes⟩)
  | .named ps =>
      rw [ScopeExpr.eval, ScopeExpr.eval]
      exact accepts_evalNamed hregs ps

theorem accepts_evalNamed (hregs : regs.WellFormed) (ps : List (String × Expr)) :
    Accepts Declarations.WellFormed (Expr.evalNamed regs ps) (Expr.evalNamed regs ps) := by
  match ps with
  | [] =>
      rw [Expr.evalNamed, Expr.evalNamed]
      exact .pure fun _ hd => absurd hd List.not_mem_nil
  | (name, e) :: es =>
      rw [Expr.evalNamed, Expr.evalNamed]
      apply (accepts_eval hregs e).bind
      intro v hv _
      apply (accepts_converted AnyTree.isConversion_toTypeParameter hv).bind
      intro d hd _
      apply Accepts.bind (accepts_evalNamed hregs es)
      intro ds hds _
      exact .pure (List.forall_mem_cons.mpr ⟨hd, hds⟩)

end

end

end ClassfileTypes
