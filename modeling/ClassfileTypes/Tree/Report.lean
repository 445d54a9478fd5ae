import ClassfileTypes.Tree.Binding
import ClassfileTypes.Tree.Encoding
import ClassfileTypes.Tree.Erasure
import ClassfileTypes.Tree.Outline
import ClassfileTypes.Tree.Readable

/-!
# Reports

What can be told about a tree, in the groups that a report may ask for. A group
that says nothing about a form of tree adds nothing to the report.
-/

namespace ClassfileTypes

/-- A group of facts. -/
inductive Aspect
  | internal
  | readable
  | outline
  | tree
  /-- The type variables that have no declaration. -/
  | unbound
  /-- The erasure of a signature, or the signature of a descriptor. -/
  | views
  | details
deriving DecidableEq, Repr

/-- The groups of a report that asks for none in particular. -/
def Aspect.usual : List Aspect :=
  [internal, readable, tree, unbound, views, details]

/-- A detail that only some forms have. -/
inductive Detail
  | isVoid (b : Bool)
  | isReference (b : Bool)
  | slots (n : Nat)
  | simpleName (s : String)
  | package (s : String)
  /-- The internal text of the elements of an array. -/
  | component (s : String)
  | erasedName (s : String)
  /-- The internal texts of the bounds of a type parameter. -/
  | bounds (ss : List String)
deriving DecidableEq, Repr

/-- A fact about a tree with tags in `ι`. -/
inductive Fact (ι : Type)
  | internal (s : String)
  | readable (s : String)
  | outline (s : String)
  | tree (t : AnyTree ι)
  | unboundNames (names : List String)
  | isFullyBound (b : Bool)
  /-- The internal text of the erasure. -/
  | erasure (r : Except TypeError String)
  /-- The internal text of the signature, and whether it erases to the tree. -/
  | signature (s : String) (erasesBack : Bool)
  | details (ds : List Detail)

namespace TypeTree

variable {ι : Type} {m : Type → Type} [Monad m] [MonadPool ι m]

/-- What every type descriptor has to tell. -/
def typeDetails (t : TypeTree ι .typeDescriptor) : List Detail :=
  [.isVoid t.isVoid, .isReference t.isReference, .slots t.slots]

/-- The details of a tree. -/
def details : {f : Form} → TypeTree ι f → m (List Detail)
  | _, .classDescriptor _ n =>
      pure [.simpleName (Name.lastSegment n), .package (Name.package n)]
  | _, .arrayDescriptor i d b => do
      let c ← descriptorComponent (.arrayDescriptor i d b)
      pure [.component c.internal]
  | _, .arrayType i d b => do
      let c ← typeComponent (.arrayType i d b)
      pure [.component c.internal]
  | _, .descClass c => return typeDetails (.descClass c) ++ (← c.details)
  | _, .descArray a => return typeDetails (.descArray a) ++ (← a.details)
  | _, .descPrimitive p => pure (typeDetails (.descPrimitive p : TypeTree ι _))
  | _, .descVoid => pure (typeDetails (.descVoid : TypeTree ι _))
  | _, .methodDescriptor i ps r => pure [.slots (parameterSlots (.methodDescriptor i ps r))]
  | _, .sigPrimitive _ | _, .sigReference _ => pure [.isVoid false]
  | _, .sigVoid => pure [.isVoid true]
  | _, .classType i o n as => pure [.erasedName (classType i o n as).binaryName]
  | _, .typeParameter i n c is =>
      pure [.bounds ((bounds (.typeParameter i n c is)).map internal)]
  | _, _ => pure []

end TypeTree

namespace AnyTree

variable {ι : Type} {m : Type → Type} [Monad m] [MonadPool ι m]

/-- The facts of one group. -/
def facts (v : AnyTree ι) : Aspect → m (List (Fact ι))
  | .internal => pure [.internal v.2.internal]
  | .readable => pure [.readable v.2.readable]
  | .outline => pure [.outline v.2.outline]
  | .tree => pure [.tree v]
  | .unbound =>
      pure <|
        if v.1.isBindable then
          [.unboundNames v.2.unboundNames, .isFullyBound v.2.isFullyBound]
        else []
  | .views =>
      if v.isErasable then do
        let r ← (v.2.erase : ExceptT TypeError m _).run
        pure [.erasure (r.map TypeTree.internal)]
      else if v.1.isDescriptor then do
        let s ← v.2.raise
        let r ← holding s (s.erase : ExceptT TypeError m _).run
        pure [.signature s.internal (r.toOption.any fun t => v.isEqual ⟨_, t⟩)]
      else pure []
  | .details => do
      let ds ← v.2.details
      pure (if ds.isEmpty then [] else [.details ds])

/-- The facts of the given groups. -/
def report (v : AnyTree ι) (aspects : List Aspect) : m (List (Fact ι)) :=
  return (← aspects.mapM v.facts).flatten

end AnyTree

end ClassfileTypes
