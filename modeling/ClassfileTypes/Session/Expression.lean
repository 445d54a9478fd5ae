import ClassfileTypes.Grammar.Parse
import ClassfileTypes.Tree.Binding
import ClassfileTypes.Tree.Conversion
import ClassfileTypes.Tree.Part

/-!
# Expressions

An expression says how a tree is obtained: from a register, by reading a text or
from a place inside one, by construction from other trees, or by taking another
tree apart, erasing it or binding it. Scopes have expressions of their own.
Evaluation goes from left to right and stops at the first failure. A value is held
from when it is made until it is part of another one or is not looked at any more;
the declarations of a scope are held until what is evaluated in the scope has its
value.
-/

namespace ClassfileTypes

/-- How a refused construction is reported: as an error, or as a broken promise
of whoever asked. -/
inductive Mode
  | checked
  | asserted
deriving DecidableEq, Repr

/-- Why an expression has no value. -/
inductive EvalError
  | noRegister (name : String)
  | unreadable (e : ParseError)
  | refused (e : TypeError)
  /-- A construction was refused that was promised to succeed. -/
  | brokenPromise (e : TypeError)
  /-- A tree of this kind does not fit. -/
  | wrongKind (title : String)
  /-- A tree is of a form that may fit, but does not itself. -/
  | tooWide (title internal : String)
  /-- There is no such part. -/
  | absent
deriving DecidableEq, Repr

/-- The error in words. -/
def EvalError.message : EvalError → String
  | .noRegister name => name
  | .unreadable e => e.message
  | .refused e | .brokenPromise e => e.message
  | .wrongKind title => title
  | .tooWide title internal => title ++ " " ++ internal
  | .absent => ""

/-- A refused construction as the mode reports it. -/
def Mode.report : Mode → TypeError → EvalError
  | .checked => .refused
  | .asserted => .brokenPromise

/-- A conversion that failed, as an evaluation that did. -/
def ConversionError.toEvalError : ConversionError → EvalError
  | .wrongKind title => .wrongKind title
  | .tooWide title internal => .tooWide title internal

/-- A part that is not there, as an evaluation that failed. -/
def PartError.toEvalError : PartError → EvalError
  | .wrongKind title => .wrongKind title
  | .absent => .absent

/-- The forms that a tree can be converted to by name. -/
inductive Target
  | typeDescriptor
  | typeSignature
  | referenceType
  | throwsType
  | typeArgument
deriving DecidableEq, Repr

mutual

/-- An expression for a tree. -/
inductive Expr
  | register (name : String)
  | parse (k : Start) (text : String)
  /-- Reads from a byte offset as far as the form goes. -/
  | parseAt (k : Start) (text : String) (start : Nat)
  | copy (v : Expr)
  | primitive (p : Primitive)
  | voidDescriptor
  | voidSignature
  | wildcard
  | objectDescriptor
  | objectType
  | wrapperDescriptor (p : Primitive)
  | wrapperType (p : Primitive)
  | classDescriptor (mode : Mode) (name : String)
  | arrayDescriptor (mode : Mode) (dimension : Nat) (base : Expr)
  | methodDescriptor (mode : Mode) (parameters : List Expr) (result : Expr)
  | classType (mode : Mode) (outer : Option Expr) (name : String) (arguments : List Expr)
  | nestedType (outer : Expr) (arguments : List Expr) (name : String)
  | arrayType (mode : Mode) (dimension : Nat) (base : Expr)
  | freeVariable (mode : Mode) (name : String)
  | typeParameter (mode : Mode) (name : String) (classBound : Option Expr)
      (interfaceBounds : List Expr)
  | unconstrained (name : String)
  | boundVariable (declaration : Expr)
  | wildcardOf (direction : Direction) (bound : Expr)
  | boundedArgument (direction : Direction) (bound : Expr)
  | methodSignature (mode : Mode) (typeParameters parameters : List Expr) (result : Expr)
      (throws : List Expr)
  | classSignature (typeParameters : List Expr) (superclass : Expr) (interfaces : List Expr)
  | convert (v : Expr) (target : Target)
  | inner (v : Expr)
  | part (v : Expr) (p : Option Part) (index : Option Nat)
  | signature (v : Expr)
  | erase (mode : Mode) (v : Expr)
  | bind (v : Expr) (scope : ScopeExpr)
  | bindDeclared (v : Expr) (scope : ScopeExpr)

/-- An expression for a scope. -/
inductive ScopeExpr
  | empty
  | parameters (ps : List Expr)
  /-- The scope of the members of a class. -/
  | members (c : Expr)
  | within (inner outer : ScopeExpr)
  /-- Declarations that go by given names. -/
  | named (ps : List (String × Expr))

end

/-- What each register holds. -/
abbrev Registers (ι : Type) : Type :=
  List (String × AnyTree ι)

/-- An evaluation. -/
abbrev Evaluation (m : Type → Type) (α : Type) : Type :=
  ExceptT EvalError m α

namespace Evaluation

variable {ι : Type} {m : Type → Type} [Monad m] [MonadPool ι m]

/-- A construction whose refusal is reported in the given mode. -/
def construct {f : Form} (mode : Mode) (x : ExceptT TypeError m (TypeTree ι f)) :
    Evaluation m (AnyTree ι) :=
  ExceptT.adapt mode.report ((⟨f, ·⟩) <$> x)

/-- A conversion. -/
def converted {f : Form} : Converted ι f → Evaluation m (TypeTree ι f)
  | .ok t => pure t
  | .error e => throw e.toEvalError

/-- The conversion to a form by name. -/
def convertTo (v : AnyTree ι) : Target → Evaluation m (AnyTree ι)
  | .typeDescriptor => (⟨_, ·⟩) <$> converted v.toTypeDescriptor
  | .typeSignature => (⟨_, ·⟩) <$> converted v.toTypeSignature
  | .referenceType => (⟨_, ·⟩) <$> converted v.toReferenceType
  | .throwsType => (⟨_, ·⟩) <$> converted v.toThrowsType
  | .typeArgument => (⟨_, ·⟩) <$> converted v.toTypeArgument

/-- The signature of a descriptor. -/
def signatureOf (v : AnyTree ι) : Evaluation m (AnyTree ι) :=
  if v.1.isDescriptor then holding v.2 do return ⟨_, ← v.2.raise⟩
  else throw (.wrongKind v.title)

/-- The erasure of a tree that has one. -/
def erasureOf (mode : Mode) (v : AnyTree ι) : Evaluation m (AnyTree ι) :=
  if v.isErasable then holding v.2 (construct mode v.2.erase) else throw (.wrongKind v.title)

/-- Declarations by the names that they go by. -/
abbrev Declarations (ι : Type) : Type :=
  List (String × TypeTree ι .typeParameter)

/-- Declarations that go by their own names. -/
def ownNames (ps : List (TypeTree ι .typeParameter)) : Declarations ι :=
  ps.map fun p => (p.name, p)

/-- Computes in the scope of declarations, which are held meanwhile. -/
def inScope {α : Type} (ds : Declarations ι) (x : Scope ι → Evaluation m α) : Evaluation m α :=
  holdingAll (ds.map (·.2)) (x (Scope.ofNamed ds))

/-- The tree with its variables bound in a scope. -/
def bound (v : AnyTree ι) (s : Scope ι) : Evaluation m (AnyTree ι) :=
  if v.1.isBindable then construct .checked (v.2.bind s) else throw (.wrongKind v.title)

/-- The declaration with its variables bound in its own scope and an outer one. -/
def boundDeclared (v : AnyTree ι) (s : Scope ι) : Evaluation m (AnyTree ι) :=
  match v with
  | ⟨.methodSignature, t⟩ => construct .checked (t.bindMethod s)
  | ⟨.classSignature, t⟩ => construct .checked (t.bindClass s)
  | v => throw (.wrongKind v.title)

/-- The type parameters that the members of a class see. -/
def membersOf (v : AnyTree ι) : Evaluation m (List (TypeTree ι .typeParameter)) :=
  match v with
  | ⟨.classSignature, t⟩ =>
      holding t <| ExceptT.adapt .refused (TypeTree.entries <$> t.memberScope)
  | v => throw (.wrongKind v.title)

end Evaluation

section

open Evaluation

variable {ι : Type} {m : Type → Type} [Monad m] [MonadPool ι m]

mutual

/-- The tree that an expression stands for. -/
def Expr.eval (regs : Registers ι) : Expr → Evaluation m (AnyTree ι)
  | .register name =>
      match regs.lookup name with
      | some v => pure v
      | none => throw (.noRegister name)
  | .parse k text => (⟨k.form, ·⟩) <$> ExceptT.adapt .unreadable (ClassfileTypes.parse k text)
  | .parseAt k text start =>
      (fun r => ⟨k.form, r.1⟩) <$>
        ExceptT.adapt .unreadable (ClassfileTypes.parseAt k text start)
  | .copy v => v.eval regs
  | .primitive p => pure ⟨_, .primitive p⟩
  | .voidDescriptor => pure ⟨_, .descVoid⟩
  | .voidSignature => pure ⟨_, .sigVoid⟩
  | .wildcard => pure ⟨_, .wildcard⟩
  | .objectDescriptor => construct .asserted TypeTree.objectDescriptor
  | .objectType => construct .asserted TypeTree.objectType
  | .wrapperDescriptor p => construct .asserted (TypeTree.makeClassDescriptor p.wrapper)
  | .wrapperType p => construct .asserted (TypeTree.makeClassType .topLevel p.wrapper .nil)
  | .classDescriptor mode name => construct mode (TypeTree.makeClassDescriptor name)
  | .arrayDescriptor mode d base => do
      let base ← converted (← base.eval regs).toTypeDescriptor
      construct mode (TypeTree.makeArrayDescriptor d base)
  | .methodDescriptor mode parameters result => do
      let ps ← Expr.evalList regs AnyTree.toTypeDescriptor parameters
      let r ← converted (← holding ps (result.eval regs)).toTypeDescriptor
      construct mode (TypeTree.makeMethodDescriptor ps r)
  | .classType mode outer name arguments => do
      let o ← Expr.evalOuter regs outer
      let as ← holding o (Expr.evalList regs AnyTree.toTypeArgument arguments)
      construct mode (TypeTree.makeClassType o name as)
  | .nestedType outer arguments name => do
      let c ← converted (← outer.eval regs).toClassType
      let as ← holding c (Expr.evalList regs AnyTree.toTypeArgument arguments)
      construct .asserted (TypeTree.makeClassType (.nestedIn c) name as)
  | .arrayType mode d base => do
      let base ← converted (← base.eval regs).toTypeSignature
      construct mode (TypeTree.makeArrayType d base)
  | .freeVariable mode name => construct mode (TypeTree.makeFreeVariable name)
  | .typeParameter mode name classBound interfaceBounds => do
      let c ← Expr.evalClassBound regs classBound
      let is ← holding c (Expr.evalList regs AnyTree.toReferenceType interfaceBounds)
      construct mode (TypeTree.makeTypeParameter name c is)
  | .unconstrained name => construct .asserted (TypeTree.makeUnconstrained name)
  | .boundVariable declaration => do
      let d ← converted (← declaration.eval regs).toTypeParameter
      return ⟨_, ← intern (.boundVariable · d)⟩
  | .wildcardOf direction bound => do
      let r ← converted (← bound.eval regs).toReferenceType
      return ⟨_, .argBounded (← intern (.boundedArgument · direction r))⟩
  | .boundedArgument direction bound => do
      let r ← converted (← bound.eval regs).toReferenceType
      return ⟨_, ← intern (.boundedArgument · direction r)⟩
  | .methodSignature mode typeParameters parameters result throws => do
      let ts ← Expr.evalList regs AnyTree.toTypeParameter typeParameters
      holding ts do
        let ps ← Expr.evalList regs AnyTree.toTypeSignature parameters
        holding ps do
          let r ← converted (← result.eval regs).toTypeSignature
          let es ← holding r (Expr.evalList regs AnyTree.toThrowsType throws)
          construct mode (TypeTree.makeMethodSignature ts ps r es)
  | .classSignature typeParameters superclass interfaces => do
      let ts ← Expr.evalList regs AnyTree.toTypeParameter typeParameters
      holding ts do
        let c ← converted (← superclass.eval regs).toClassType
        let is ← holding c (Expr.evalList regs AnyTree.toClassType interfaces)
        return ⟨_, ← intern (.classSignature · ts c is)⟩
  | .convert v target => do convertTo (← v.eval regs) target
  | .inner v => do return (← v.eval regs).inner
  | .part v p index => do
      let v := (← v.eval regs).inner
      match p with
      | some p => holding v.2 (ExceptT.adapt PartError.toEvalError (v.part p index))
      | none => throw (.wrongKind v.title)
  | .signature v => do signatureOf (← v.eval regs)
  | .erase mode v => do erasureOf mode (← v.eval regs)
  | .bind v scope => do
      let v ← v.eval regs
      holding v.2 do inScope (← scope.eval regs) (bound v)
  | .bindDeclared v scope => do
      let v ← v.eval regs
      holding v.2 do inScope (← scope.eval regs) (boundDeclared v)

/-- The trees that expressions stand for, each converted to one form. -/
def Expr.evalList {f : Form} (regs : Registers ι) (convert : AnyTree ι → Converted ι f) :
    List Expr → Evaluation m (TypeTree ι (.list f))
  | [] => pure .nil
  | e :: es => do
      let x ← converted (convert (← e.eval regs))
      let xs ← holding x (Expr.evalList regs convert es)
      return .cons x xs

/-- What a class is nested in, if an expression says so. -/
def Expr.evalOuter (regs : Registers ι) : Option Expr → Evaluation m (TypeTree ι .enclosing)
  | none => pure .topLevel
  | some e => do return .nestedIn (← converted (← e.eval regs).toClassType)

/-- The class bound, if an expression gives one. -/
def Expr.evalClassBound (regs : Registers ι) : Option Expr → Evaluation m (TypeTree ι .classBound)
  | none => pure .noClassBound
  | some e => do return .boundedBy (← converted (← e.eval regs).toReferenceType)

/-- The declarations of the scope that an expression stands for; the first one
of a name wins. -/
def ScopeExpr.eval (regs : Registers ι) : ScopeExpr → Evaluation m (Declarations ι)
  | .empty => pure []
  | .parameters ps => do
      return ownNames (← Expr.evalList regs AnyTree.toTypeParameter ps).entries
  | .members c => do return ownNames (← membersOf (← c.eval regs))
  | .within inner outer => do
      let inner ← inner.eval regs
      let outer ← holdingAll (inner.map (·.2)) (outer.eval regs)
      return inner ++ outer
  | .named ps => Expr.evalNamed regs ps

/-- Declarations with the names that they go by. -/
def Expr.evalNamed (regs : Registers ι) : List (String × Expr) → Evaluation m (Declarations ι)
  | [] => pure []
  | (name, e) :: es => do
      let d ← converted (← e.eval regs).toTypeParameter
      let ds ← holding d (Expr.evalNamed regs es)
      return (name, d) :: ds

end

end

end ClassfileTypes
