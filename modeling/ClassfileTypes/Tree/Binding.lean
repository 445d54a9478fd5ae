import ClassfileTypes.Tree.Construct

/-!
# Binding

A signature that was read from text names its type variables without their
declarations. Binding gives every such variable the type parameter that a scope
has for its name, and fails at the first name that the scope does not have. A
variable that has a declaration keeps it.
-/

namespace ClassfileTypes

/-- A scope: the declaration of each name that it has. -/
abbrev Scope (ι : Type) : Type :=
  String → Option (TypeTree ι .typeParameter)

namespace Scope

variable {ι : Type}

/-- The scope without names. -/
def empty : Scope ι :=
  fun _ => none

/-- The scope of declarations that go by their own names; the first one wins. -/
def ofParameters (ps : List (TypeTree ι .typeParameter)) : Scope ι :=
  fun x => ps.find? (·.name = x)

/-- The scope of declarations that go by given names. -/
def ofNamed (ps : List (String × TypeTree ι .typeParameter)) : Scope ι :=
  fun x => ps.lookup x

/-- The names of `inner`, and those of `outer` that `inner` does not have. -/
def within (inner outer : Scope ι) : Scope ι :=
  fun x => inner x <|> outer x

end Scope

/-- The forms whose variables can be bound. -/
def Form.isBindable : Form → Bool
  | typeSignature | referenceType | throwsType | classType | arrayType | typeVariable
  | typeParameter | typeArgument | boundedArgument | methodSignature | classSignature => true
  | _ => false

namespace TypeTree

variable {ι : Type} {m : Type → Type} [Monad m] [MonadPool ι m]

/-- The names of the variables without a declaration, as often and in the order
in which they occur. -/
def freeNames : {f : Form} → TypeTree ι f → List String
  | _, .freeVariable _ n => [n]
  | _, .boundVariable _ _ => []
  | _, .sigReference r => r.freeNames
  | _, .refClass c => c.freeNames
  | _, .refArray a => a.freeNames
  | _, .refVariable v => v.freeNames
  | _, .throwsClass c => c.freeNames
  | _, .throwsVariable v => v.freeNames
  | _, .classType _ o _ as => o.freeNames ++ as.freeNames
  | _, .nestedIn c => c.freeNames
  | _, .arrayType _ _ b => b.freeNames
  | _, .typeParameter _ _ c is => c.freeNames ++ is.freeNames
  | _, .boundedBy r => r.freeNames
  | _, .argReference r => r.freeNames
  | _, .argBounded b => b.freeNames
  | _, .boundedArgument _ _ r => r.freeNames
  | _, .methodSignature _ ts ps r es =>
      ts.freeNames ++ ps.freeNames ++ r.freeNames ++ es.freeNames
  | _, .classSignature _ ts c is => ts.freeNames ++ c.freeNames ++ is.freeNames
  | _, .cons x xs => x.freeNames ++ xs.freeNames
  | _, _ => []

/-- Each name once, where it occurs first. -/
def unboundNames {f : Form} (t : TypeTree ι f) : List String :=
  t.freeNames.eraseDups

/-- Whether every variable has a declaration. -/
def isFullyBound {f : Form} (t : TypeTree ι f) : Bool :=
  t.freeNames.isEmpty

/-- Gives every variable its declaration in the scope. The tree and the
declarations are held by whoever asks. -/
def bind (s : Scope ι) : {f : Form} → TypeTree ι f → ExceptT TypeError m (TypeTree ι f)
  | _, .freeVariable _ n =>
      match s n with
      | some d => intern (.boundVariable · d)
      | none => throw (.unresolved n)
  | _, .sigReference r => .sigReference <$> r.bind s
  | _, .refClass c => .refClass <$> c.bind s
  | _, .refArray a => .refArray <$> a.bind s
  | _, .refVariable v => .refVariable <$> v.bind s
  | _, .throwsClass c => .throwsClass <$> c.bind s
  | _, .throwsVariable v => .throwsVariable <$> v.bind s
  | _, .classType _ o n as => do
      let o ← o.bind s
      let as ← holding o (as.bind s)
      intern (.classType · o n as)
  | _, .nestedIn c => .nestedIn <$> c.bind s
  | _, .arrayType _ d b => do
      let b ← b.bind s
      intern (.arrayType · d b)
  | _, .typeParameter _ n c is => do
      let c ← c.bind s
      let is ← holding c (is.bind s)
      makeTypeParameter n c is
  | _, .boundedBy r => .boundedBy <$> r.bind s
  | _, .argReference r => .argReference <$> r.bind s
  | _, .argBounded b => .argBounded <$> b.bind s
  | _, .boundedArgument _ d r => do
      let r ← r.bind s
      intern (.boundedArgument · d r)
  | _, .methodSignature _ ts ps r es => do
      let ts ← ts.bind s
      holding ts do
        let ps ← ps.bind s
        holding ps do
          let r ← r.bind s
          let es ← holding r (es.bind s)
          intern (.methodSignature · ts ps r es)
  | _, .classSignature _ ts c is => do
      let ts ← ts.bind s
      holding ts do
        let c ← c.bind s
        let is ← holding c (is.bind s)
        intern (.classSignature · ts c is)
  | _, .cons x xs => do
      let x ← x.bind s
      let xs ← holding x (xs.bind s)
      return .cons x xs
  -- What is left has a declaration or holds no variable.
  | _, t => pure t

/-! ## Declarations -/

/-- Binds declarations `rounds` times, each time against the outcome of the time
before and then `outer`. -/
def resolveRounds (declared : TypeTree ι (.list .typeParameter)) (outer : Scope ι) :
    Nat → TypeTree ι (.list .typeParameter) →
      ExceptT TypeError m (TypeTree ι (.list .typeParameter))
  | 0, resolved => pure resolved
  | rounds + 1, resolved => do
      let next ← holding resolved <|
        declared.bind ((Scope.ofParameters resolved.entries).within outer)
      resolveRounds declared outer rounds next

/-- Binds declarations against each other and `outer`. A bound may name any of
them, so there is a round for each: after it the bounds of every variable are
bound in turn. -/
def resolve (declared : TypeTree ι (.list .typeParameter)) (outer : Scope ι) :
    ExceptT TypeError m (TypeTree ι (.list .typeParameter)) :=
  resolveRounds declared outer declared.entries.length declared

/-- Binds a method signature against its own type parameters and `outer`. -/
def bindMethod (outer : Scope ι) :
    TypeTree ι .methodSignature → ExceptT TypeError m (TypeTree ι .methodSignature)
  | .methodSignature _ ts ps r es => do
      let ts ← resolve ts outer
      let s := (Scope.ofParameters ts.entries).within outer
      holding ts do
        let ps ← ps.bind s
        holding ps do
          let r ← r.bind s
          let es ← holding r (es.bind s)
          intern (.methodSignature · ts ps r es)

/-- Binds a class signature against its own type parameters and `outer`. -/
def bindClass (outer : Scope ι) :
    TypeTree ι .classSignature → ExceptT TypeError m (TypeTree ι .classSignature)
  | .classSignature _ ts c is => do
      let ts ← resolve ts outer
      let s := (Scope.ofParameters ts.entries).within outer
      holding ts do
        let c ← c.bind s
        let is ← holding c (is.bind s)
        intern (.classSignature · ts c is)

/-- The scope of the members of a class: its own type parameters. -/
def memberScope :
    TypeTree ι .classSignature → ExceptT TypeError m (TypeTree ι (.list .typeParameter))
  | .classSignature _ ts _ _ => resolve ts Scope.empty

end TypeTree

end ClassfileTypes
