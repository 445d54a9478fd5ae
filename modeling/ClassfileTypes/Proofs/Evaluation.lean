import ClassfileTypes.Proofs.Operations

/-!
# Evaluation refines its plain version

An expression has the same value with a pool and without, up to tags, as long as
the registers hold what they name; and it fails in the same way. Expressions,
their lists and scopes contain each other, so the theorems are proved together.
-/

namespace ClassfileTypes.Pool

open Evaluation TypeTree

variable {canonical : Prop} {p q : Pool} {f : Form}
  {regs : ClassfileTypes.Registers Nat} {regs' : ClassfileTypes.Registers Unit}

/-- Registers that hold trees of the pool, and what they hold without its tags. -/
structure HoldsRegisters (canonical : Prop) (p : Pool)
    (regs : ClassfileTypes.Registers Nat) (regs' : ClassfileTypes.Registers Unit) : Prop where
  held : ∀ e ∈ regs, p.Holds canonical e.2.2
  plain : regs' = regs.map fun e => (e.1, e.2.plain)

namespace HoldsRegisters

theorem mono (h : HoldsRegisters canonical p regs regs') (hext : p.Extends q) :
    HoldsRegisters canonical q regs regs' :=
  ⟨fun e he => hext.holds (h.held e he), h.plain⟩

theorem hold {t : TypeTree Nat f} (h : HoldsRegisters canonical p regs regs') :
    HoldsRegisters canonical (p.hold t) regs regs' :=
  ⟨fun e he => (h.held e he).hold, h.plain⟩

theorem holdAll (ts : List (TypeTree Nat f)) (h : HoldsRegisters canonical p regs regs') :
    HoldsRegisters canonical (p.holdAll ts) regs regs' :=
  ⟨fun e he => (h.held e he).holdAll ts, h.plain⟩

end HoldsRegisters

mutual

theorem refines_eval (p : Pool) (hregs : HoldsRegisters canonical p regs regs') (e : Expr) :
    Refines canonical (TaggedAny canonical) p (e.eval regs) (e.eval regs') := by
  match e with
  | .register name =>
      rw [Expr.eval, Expr.eval, hregs.plain, lookup_map_values (fun _ v => AnyTree.plain v)]
      cases h : regs.lookup name with
      | none => exact Refines.throw
      | some v => exact Refines.pure ⟨(hregs.held _ (mem_of_lookup_eq_some h)).good, rfl⟩
  | .parse k text =>
      rw [Expr.eval, Expr.eval]
      exact Refines.map (Refines.adapt _ (refines_parse k text)) fun _ _ _ h => h.any
  | .parseAt k text start =>
      rw [Expr.eval, Expr.eval]
      exact Refines.map (Refines.adapt _ (refines_parseAt k text start)) fun _ _ _ h => h.1.any
  | .copy v =>
      rw [Expr.eval, Expr.eval]
      exact refines_eval p hregs v
  | .primitive c =>
      have hleaf : Tagged canonical p (.primitive c) (.primitive c) := .leaf rfl rfl trivial rfl
      rw [Expr.eval, Expr.eval]
      exact Refines.pure hleaf.any
  | .voidDescriptor =>
      have hleaf : Tagged canonical p (.descVoid) (.descVoid) := .leaf rfl rfl trivial rfl
      rw [Expr.eval, Expr.eval]
      exact Refines.pure hleaf.any
  | .voidSignature =>
      have hleaf : Tagged canonical p (.sigVoid) (.sigVoid) := .leaf rfl rfl trivial rfl
      rw [Expr.eval, Expr.eval]
      exact Refines.pure hleaf.any
  | .wildcard =>
      have hleaf : Tagged canonical p (.wildcard) (.wildcard) := .leaf rfl rfl trivial rfl
      rw [Expr.eval, Expr.eval]
      exact Refines.pure hleaf.any
  | .objectDescriptor =>
      rw [Expr.eval, Expr.eval]
      exact refines_construct _ refines_objectDescriptor
  | .objectType =>
      rw [Expr.eval, Expr.eval]
      exact refines_construct _ refines_objectType
  | .wrapperDescriptor c =>
      rw [Expr.eval, Expr.eval]
      exact refines_construct _ (refines_makeClassDescriptor _)
  | .wrapperType c =>
      rw [Expr.eval, Expr.eval]
      exact refines_construct _ (refines_makeClassType _ (.leaf rfl rfl trivial rfl) .nil)
  | .classDescriptor mode name =>
      rw [Expr.eval, Expr.eval]
      exact refines_construct _ (refines_makeClassDescriptor name)
  | .arrayDescriptor mode d base =>
      rw [Expr.eval, Expr.eval]
      apply Refines.bind_converted AnyTree.isConversion_toTypeDescriptor (refines_eval p hregs base)
      intro q b b' _ hb
      exact refines_construct _ (refines_makeArrayDescriptor d hb)
  | .methodDescriptor mode parameters result =>
      rw [Expr.eval, Expr.eval]
      apply Refines.bind (refines_evalList p hregs AnyTree.isConversion_toTypeDescriptor parameters)
      intro q ps ps' hext hps _
      apply Refines.holding_bind hps (refines_eval _ (hregs.mono hext).hold result)
      intro q' v v' _ hps hv
      apply Refines.converted_bind AnyTree.isConversion_toTypeDescriptor hv
      intro t t' ht
      exact refines_construct _ (refines_makeMethodDescriptor hps ht)
  | .classType mode outer name arguments =>
      rw [Expr.eval, Expr.eval]
      apply Refines.bind (refines_evalOuter p hregs outer)
      intro q o o' hext ho _
      apply Refines.holding_bind ho
        (refines_evalList _ (hregs.mono hext).hold AnyTree.isConversion_toTypeArgument arguments)
      intro q' as as' _ ho has
      exact refines_construct _ (refines_makeClassType name ho has)
  | .nestedType outer arguments name =>
      rw [Expr.eval, Expr.eval]
      apply Refines.bind_converted AnyTree.isConversion_toClassType (refines_eval p hregs outer)
      intro q c c' hext hc
      apply Refines.holding_bind hc
        (refines_evalList _ (hregs.mono hext).hold AnyTree.isConversion_toTypeArgument arguments)
      intro q' as as' _ hc has
      exact refines_construct _ (refines_makeClassType name hc.nestedIn has)
  | .arrayType mode d base =>
      rw [Expr.eval, Expr.eval]
      apply Refines.bind_converted AnyTree.isConversion_toTypeSignature (refines_eval p hregs base)
      intro q b b' _ hb
      exact refines_construct _ (refines_makeArrayType d hb)
  | .freeVariable mode name =>
      rw [Expr.eval, Expr.eval]
      exact refines_construct _ (refines_makeFreeVariable name)
  | .typeParameter mode name classBound interfaceBounds =>
      rw [Expr.eval, Expr.eval]
      apply Refines.bind (refines_evalClassBound p hregs classBound)
      intro q c c' hext hc _
      apply Refines.holding_bind hc (refines_evalList _ (hregs.mono hext).hold
        AnyTree.isConversion_toReferenceType interfaceBounds)
      intro q' is is' _ hc his
      exact refines_construct _ (refines_makeTypeParameter name hc his)
  | .unconstrained name =>
      rw [Expr.eval, Expr.eval]
      exact refines_construct _ (refines_makeUnconstrained name)
  | .boundVariable declaration =>
      rw [Expr.eval, Expr.eval]
      apply Refines.bind_converted AnyTree.isConversion_toTypeParameter
        (refines_eval p hregs declaration)
      intro q d d' _ hd
      apply Refines.bind (Refines.lift (runs_boundVariable hd))
      intro q' t t' _ ht _
      exact Refines.pure ht.any
  | .wildcardOf direction bound =>
      rw [Expr.eval, Expr.eval]
      apply Refines.bind_converted AnyTree.isConversion_toReferenceType (refines_eval p hregs bound)
      intro q r r' _ hr
      apply Refines.bind (Refines.lift (runs_boundedArgument direction hr))
      intro q' t t' _ ht _
      exact Refines.pure ht.argBounded.any
  | .boundedArgument direction bound =>
      rw [Expr.eval, Expr.eval]
      apply Refines.bind_converted AnyTree.isConversion_toReferenceType (refines_eval p hregs bound)
      intro q r r' _ hr
      apply Refines.bind (Refines.lift (runs_boundedArgument direction hr))
      intro q' t t' _ ht _
      exact Refines.pure ht.any
  | .methodSignature mode typeParameters parameters result throws =>
      rw [Expr.eval, Expr.eval]
      apply Refines.bind (refines_evalList p hregs AnyTree.isConversion_toTypeParameter
        typeParameters)
      intro q₁ ts ts' hext₁ hts _
      have hregs₁ := (hregs.mono hext₁).hold (t := ts)
      apply Refines.held hts.good
      apply Refines.bind (refines_evalList _ hregs₁ AnyTree.isConversion_toTypeSignature
        parameters)
      intro q₂ ps ps' hext₂ hps _
      have hregs₂ := (hregs₁.mono hext₂).hold (t := ps)
      have hts₂ := (hext₂.holds hts.good.holds_hold).hold (u := ps)
      apply Refines.held hps.good
      apply Refines.bind (refines_eval _ hregs₂ result)
      intro q₃ v v' hext₃ hv _
      have hts₃ := hext₃.holds hts₂
      have hps₃ := hext₃.holds hps.good.holds_hold
      apply Refines.converted_bind AnyTree.isConversion_toTypeSignature hv
      intro r r' hr
      apply Refines.holding_bind hr (refines_evalList _ (hregs₂.mono hext₃).hold
        AnyTree.isConversion_toThrowsType throws)
      intro q₄ es es' hext₄ hr₄ hes
      have hts₄ := hext₄.holds hts₃
      have hps₄ := hext₄.holds hps₃
      exact refines_construct _ (refines_makeMethodSignature ⟨hts₄.good, hts.plain⟩
        ⟨hps₄.good, hps.plain⟩ hr₄ hes)
  | .classSignature typeParameters superclass interfaces =>
      rw [Expr.eval, Expr.eval]
      apply Refines.bind (refines_evalList p hregs AnyTree.isConversion_toTypeParameter
        typeParameters)
      intro q₁ ts ts' hext₁ hts _
      have hregs₁ := (hregs.mono hext₁).hold (t := ts)
      apply Refines.held hts.good
      apply Refines.bind (refines_eval _ hregs₁ superclass)
      intro q₂ v v' hext₂ hv _
      have hts₂ := hext₂.holds hts.good.holds_hold
      apply Refines.converted_bind AnyTree.isConversion_toClassType hv
      intro c c' hc
      apply Refines.holding_bind hc (refines_evalList _ (hregs₁.mono hext₂).hold
        AnyTree.isConversion_toClassType interfaces)
      intro q₃ is is' hext₃ hc₃ his
      have hts₃ := hext₃.holds hts₂
      apply Refines.bind
        (Refines.lift (runs_classSignature ⟨hts₃.good, hts.plain⟩ hc₃ his))
      intro q₄ t t' _ ht _
      exact Refines.pure ht.any
  | .convert v target =>
      rw [Expr.eval, Expr.eval]
      apply Refines.bind (refines_eval p hregs v)
      intro q t t' _ ht _
      exact refines_convertTo ht target
  | .inner v =>
      rw [Expr.eval, Expr.eval]
      apply Refines.bind (refines_eval p hregs v)
      intro q t t' _ ht _
      exact Refines.pure ht.inner
  | .part v part index =>
      rw [Expr.eval, Expr.eval]
      apply Refines.bind (refines_eval p hregs v)
      rintro q t t' - ht -
      obtain ⟨hgood, hplain⟩ := ht.inner
      dsimp only
      rw [← hplain]
      cases part with
      | none =>
          rw [AnyTree.title_plain]
          exact Refines.throw
      | some part =>
          exact Refines.held hgood (Refines.adapt _ (refines_part hgood.holds_hold part index))
  | .signature v =>
      rw [Expr.eval, Expr.eval]
      apply Refines.bind (refines_eval p hregs v)
      intro q t t' _ ht _
      exact refines_signatureOf ht
  | .erase mode v =>
      rw [Expr.eval, Expr.eval]
      apply Refines.bind (refines_eval p hregs v)
      intro q t t' _ ht _
      exact refines_erasureOf mode ht
  | .bind v scope =>
      rw [Expr.eval, Expr.eval]
      apply Refines.bind (refines_eval p hregs v)
      rintro q v v' hext ⟨hv, rfl⟩ -
      apply Refines.held hv
      apply Refines.bind (refines_evalScope _ (hregs.mono hext).hold scope)
      intro q' ds ds' hext' hds _
      apply Refines.inScope hds
      intro s s' hs
      exact refines_bound ((hext'.holds hv.holds_hold).holdAll _) hs
  | .bindDeclared v scope =>
      rw [Expr.eval, Expr.eval]
      apply Refines.bind (refines_eval p hregs v)
      rintro q v v' hext ⟨hv, rfl⟩ -
      apply Refines.held hv
      apply Refines.bind (refines_evalScope _ (hregs.mono hext).hold scope)
      intro q' ds ds' hext' hds _
      apply Refines.inScope hds
      intro s s' hs
      exact refines_boundDeclared ((hext'.holds hv.holds_hold).holdAll _) hs

theorem refines_evalList (p : Pool) (hregs : HoldsRegisters canonical p regs regs') {f : Form}
    {convert : ∀ {ι : Type}, AnyTree ι → Converted ι f} (hconvert : AnyTree.IsConversion convert)
    (es : List Expr) :
    Refines canonical (Tagged canonical) p (Expr.evalList regs convert es)
      (Expr.evalList regs' convert es) := by
  match es with
  | [] =>
      rw [Expr.evalList, Expr.evalList]
      exact Refines.pure .nil
  | e :: es =>
      rw [Expr.evalList, Expr.evalList]
      apply Refines.bind_converted hconvert (refines_eval p hregs e)
      intro q x x' hext hx
      apply Refines.holding_bind hx (refines_evalList _ (hregs.mono hext).hold hconvert es)
      intro q' xs xs' _ hx hxs
      exact Refines.pure (hx.cons hxs)

theorem refines_evalOuter (p : Pool) (hregs : HoldsRegisters canonical p regs regs')
    (e : Option Expr) :
    Refines canonical (Tagged canonical) p (Expr.evalOuter regs e) (Expr.evalOuter regs' e) := by
  match e with
  | none =>
      rw [Expr.evalOuter, Expr.evalOuter]
      exact Refines.pure (.leaf rfl rfl trivial rfl)
  | some e =>
      rw [Expr.evalOuter, Expr.evalOuter]
      apply Refines.bind_converted AnyTree.isConversion_toClassType (refines_eval p hregs e)
      intro q c c' _ hc
      exact Refines.pure hc.nestedIn

theorem refines_evalClassBound (p : Pool) (hregs : HoldsRegisters canonical p regs regs')
    (e : Option Expr) :
    Refines canonical (Tagged canonical) p (Expr.evalClassBound regs e)
      (Expr.evalClassBound regs' e) := by
  match e with
  | none =>
      rw [Expr.evalClassBound, Expr.evalClassBound]
      exact Refines.pure (.leaf rfl rfl trivial rfl)
  | some e =>
      rw [Expr.evalClassBound, Expr.evalClassBound]
      apply Refines.bind_converted AnyTree.isConversion_toReferenceType (refines_eval p hregs e)
      intro q r r' _ hr
      exact Refines.pure hr.boundedBy

theorem refines_evalScope (p : Pool) (hregs : HoldsRegisters canonical p regs regs')
    (s : ScopeExpr) :
    Refines canonical (TaggedDeclarations canonical) p (s.eval regs) (s.eval regs') := by
  match s with
  | .empty =>
      rw [ScopeExpr.eval, ScopeExpr.eval]
      exact Refines.pure .nil
  | .parameters ps =>
      rw [ScopeExpr.eval, ScopeExpr.eval]
      apply Refines.bind (refines_evalList p hregs AnyTree.isConversion_toTypeParameter ps)
      intro q ts ts' _ hts _
      exact Refines.pure hts.entries.ownNames
  | .members c =>
      rw [ScopeExpr.eval, ScopeExpr.eval]
      apply Refines.bind (refines_eval p hregs c)
      intro q v v' _ hv _
      apply Refines.bind (refines_membersOf hv)
      intro q' ps ps' _ hps _
      exact Refines.pure hps.ownNames
  | .within near far =>
      rw [ScopeExpr.eval, ScopeExpr.eval]
      apply Refines.bind (refines_evalScope p hregs near)
      intro q ds ds' hext hds _
      have hgood : ∀ d ∈ ds.map (·.2), q.Good canonical d := List.forall_mem_map.mpr hds.good
      apply Refines.bind (Refines.holdingAll hgood
        (refines_evalScope _ ((hregs.mono hext).holdAll _) far))
      rintro q' es es' - ⟨hes, hgood'⟩ -
      have hds' : TaggedDeclarations canonical q' ds ds' :=
        ⟨List.forall_mem_map.mp hgood', hds.plain⟩
      exact Refines.pure (hds'.append hes)
  | .named ps =>
      rw [ScopeExpr.eval, ScopeExpr.eval]
      exact refines_evalNamed p hregs ps

theorem refines_evalNamed (p : Pool) (hregs : HoldsRegisters canonical p regs regs')
    (ps : List (String × Expr)) :
    Refines canonical (TaggedDeclarations canonical) p (Expr.evalNamed regs ps)
      (Expr.evalNamed regs' ps) := by
  match ps with
  | [] =>
      rw [Expr.evalNamed, Expr.evalNamed]
      exact Refines.pure .nil
  | (name, e) :: es =>
      rw [Expr.evalNamed, Expr.evalNamed]
      apply Refines.bind_converted AnyTree.isConversion_toTypeParameter (refines_eval p hregs e)
      intro q d d' hext hd
      apply Refines.holding_bind hd (refines_evalNamed _ (hregs.mono hext).hold es)
      intro q' ds ds' _ hd hds
      exact Refines.pure (hds.cons name hd)

end

end ClassfileTypes.Pool
