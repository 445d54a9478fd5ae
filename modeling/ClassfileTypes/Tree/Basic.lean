import ClassfileTypes.Form
import ClassfileTypes.Primitive

/-!
# Type trees

A type tree of form `f` is a piece of class-file type syntax. The composite
trees carry a tag of type `ι`: plain trees carry none (`ι` is `Unit`), and trees
in a pool carry the identity of the object that holds them. Two trees are equal
as types when they are equal without their tags.
-/

namespace ClassfileTypes

/-- The direction of a bounded wildcard. -/
inductive Direction
  /-- `? extends X` -/
  | upper
  /-- `? super X` -/
  | lower
deriving DecidableEq, Repr, Inhabited

namespace Direction

/-- The character that encodes the direction. -/
def code : Direction → Char
  | upper => '+'
  | lower => '-'

/-- The keyword. -/
def keyword : Direction → String
  | upper => "extends"
  | lower => "super"

/-- The direction that a character encodes. -/
def ofCode? : Char → Option Direction
  | '+' => some upper
  | '-' => some lower
  | _ => none

end Direction

/-- A tree of class-file type syntax whose composite trees are tagged. -/
inductive TypeTree (ι : Type) : Form → Type
  | primitive (p : Primitive) : TypeTree ι .primitive
  -- Descriptors
  | descPrimitive (p : Primitive) : TypeTree ι .typeDescriptor
  | descVoid : TypeTree ι .typeDescriptor
  | descClass (c : TypeTree ι .classDescriptor) : TypeTree ι .typeDescriptor
  | descArray (a : TypeTree ι .arrayDescriptor) : TypeTree ι .typeDescriptor
  | classDescriptor (tag : ι) (name : String) : TypeTree ι .classDescriptor
  | arrayDescriptor (tag : ι) (dimension : Nat) (base : TypeTree ι .typeDescriptor) :
      TypeTree ι .arrayDescriptor
  | methodDescriptor (tag : ι) (parameters : TypeTree ι (.list .typeDescriptor))
      (result : TypeTree ι .typeDescriptor) : TypeTree ι .methodDescriptor
  -- Signatures
  | sigPrimitive (p : Primitive) : TypeTree ι .typeSignature
  | sigVoid : TypeTree ι .typeSignature
  | sigReference (r : TypeTree ι .referenceType) : TypeTree ι .typeSignature
  | refClass (c : TypeTree ι .classType) : TypeTree ι .referenceType
  | refArray (a : TypeTree ι .arrayType) : TypeTree ι .referenceType
  | refVariable (v : TypeTree ι .typeVariable) : TypeTree ι .referenceType
  | throwsClass (c : TypeTree ι .classType) : TypeTree ι .throwsType
  | throwsVariable (v : TypeTree ι .typeVariable) : TypeTree ι .throwsType
  | classType (tag : ι) (outer : TypeTree ι .enclosing) (name : String)
      (arguments : TypeTree ι (.list .typeArgument)) : TypeTree ι .classType
  | topLevel : TypeTree ι .enclosing
  | nestedIn (c : TypeTree ι .classType) : TypeTree ι .enclosing
  | arrayType (tag : ι) (dimension : Nat) (base : TypeTree ι .typeSignature) :
      TypeTree ι .arrayType
  /-- A variable together with its declaration. -/
  | boundVariable (tag : ι) (declaration : TypeTree ι .typeParameter) :
      TypeTree ι .typeVariable
  /-- A variable of which only the name is known. -/
  | freeVariable (tag : ι) (name : String) : TypeTree ι .typeVariable
  | typeParameter (tag : ι) (name : String) (classBound : TypeTree ι .classBound)
      (interfaceBounds : TypeTree ι (.list .referenceType)) : TypeTree ι .typeParameter
  | noClassBound : TypeTree ι .classBound
  | boundedBy (r : TypeTree ι .referenceType) : TypeTree ι .classBound
  -- Arguments
  | wildcard : TypeTree ι .typeArgument
  | argReference (r : TypeTree ι .referenceType) : TypeTree ι .typeArgument
  | argBounded (b : TypeTree ι .boundedArgument) : TypeTree ι .typeArgument
  | boundedArgument (tag : ι) (direction : Direction) (r : TypeTree ι .referenceType) :
      TypeTree ι .boundedArgument
  -- Declarations
  | methodSignature (tag : ι) (typeParameters : TypeTree ι (.list .typeParameter))
      (parameters : TypeTree ι (.list .typeSignature)) (result : TypeTree ι .typeSignature)
      (throws : TypeTree ι (.list .throwsType)) : TypeTree ι .methodSignature
  | classSignature (tag : ι) (typeParameters : TypeTree ι (.list .typeParameter))
      (superclass : TypeTree ι .classType) (interfaces : TypeTree ι (.list .classType)) :
      TypeTree ι .classSignature
  -- Lists
  | nil {f : Form} : TypeTree ι (.list f)
  | cons {f : Form} (x : TypeTree ι f) (xs : TypeTree ι (.list f)) : TypeTree ι (.list f)
deriving DecidableEq, Repr

namespace TypeTree

variable {ι κ : Type}

/-- Changes the tags. -/
def mapTags (g : ι → κ) : {f : Form} → TypeTree ι f → TypeTree κ f
  | _, .primitive p => .primitive p
  | _, .descPrimitive p => .descPrimitive p
  | _, .descVoid => .descVoid
  | _, .descClass c => .descClass (c.mapTags g)
  | _, .descArray a => .descArray (a.mapTags g)
  | _, .classDescriptor i n => .classDescriptor (g i) n
  | _, .arrayDescriptor i d b => .arrayDescriptor (g i) d (b.mapTags g)
  | _, .methodDescriptor i ps r => .methodDescriptor (g i) (ps.mapTags g) (r.mapTags g)
  | _, .sigPrimitive p => .sigPrimitive p
  | _, .sigVoid => .sigVoid
  | _, .sigReference r => .sigReference (r.mapTags g)
  | _, .refClass c => .refClass (c.mapTags g)
  | _, .refArray a => .refArray (a.mapTags g)
  | _, .refVariable v => .refVariable (v.mapTags g)
  | _, .throwsClass c => .throwsClass (c.mapTags g)
  | _, .throwsVariable v => .throwsVariable (v.mapTags g)
  | _, .classType i o n as => .classType (g i) (o.mapTags g) n (as.mapTags g)
  | _, .topLevel => .topLevel
  | _, .nestedIn c => .nestedIn (c.mapTags g)
  | _, .arrayType i d b => .arrayType (g i) d (b.mapTags g)
  | _, .boundVariable i d => .boundVariable (g i) (d.mapTags g)
  | _, .freeVariable i n => .freeVariable (g i) n
  | _, .typeParameter i n c is => .typeParameter (g i) n (c.mapTags g) (is.mapTags g)
  | _, .noClassBound => .noClassBound
  | _, .boundedBy r => .boundedBy (r.mapTags g)
  | _, .wildcard => .wildcard
  | _, .argReference r => .argReference (r.mapTags g)
  | _, .argBounded b => .argBounded (b.mapTags g)
  | _, .boundedArgument i d r => .boundedArgument (g i) d (r.mapTags g)
  | _, .methodSignature i ts ps r es =>
      .methodSignature (g i) (ts.mapTags g) (ps.mapTags g) (r.mapTags g) (es.mapTags g)
  | _, .classSignature i ts s is =>
      .classSignature (g i) (ts.mapTags g) (s.mapTags g) (is.mapTags g)
  | _, .nil => .nil
  | _, .cons x xs => .cons (x.mapTags g) (xs.mapTags g)

/-- The tree without its tags. -/
def plain {f : Form} (t : TypeTree ι f) : TypeTree Unit f :=
  t.mapTags fun _ => ()

/-- The tags of the tree and of all trees in it. -/
def tags : {f : Form} → TypeTree ι f → List ι
  | _, .primitive _ | _, .descPrimitive _ | _, .descVoid => []
  | _, .descClass c => c.tags
  | _, .descArray a => a.tags
  | _, .classDescriptor i _ => [i]
  | _, .arrayDescriptor i _ b => i :: b.tags
  | _, .methodDescriptor i ps r => i :: (ps.tags ++ r.tags)
  | _, .sigPrimitive _ | _, .sigVoid => []
  | _, .sigReference r => r.tags
  | _, .refClass c => c.tags
  | _, .refArray a => a.tags
  | _, .refVariable v => v.tags
  | _, .throwsClass c => c.tags
  | _, .throwsVariable v => v.tags
  | _, .classType i o _ as => i :: (o.tags ++ as.tags)
  | _, .topLevel => []
  | _, .nestedIn c => c.tags
  | _, .arrayType i _ b => i :: b.tags
  | _, .boundVariable i d => i :: d.tags
  | _, .freeVariable i _ => [i]
  | _, .typeParameter i _ c is => i :: (c.tags ++ is.tags)
  | _, .noClassBound => []
  | _, .boundedBy r => r.tags
  | _, .wildcard => []
  | _, .argReference r => r.tags
  | _, .argBounded b => b.tags
  | _, .boundedArgument i _ r => i :: r.tags
  | _, .methodSignature i ts ps r es => i :: (ts.tags ++ ps.tags ++ r.tags ++ es.tags)
  | _, .classSignature i ts s is => i :: (ts.tags ++ s.tags ++ is.tags)
  | _, .nil => []
  | _, .cons x xs => x.tags ++ xs.tags

/-- Whether a tag is one of the tree or of a tree in it. -/
def hasTag [BEq ι] (i : ι) : {f : Form} → TypeTree ι f → Bool
  | _, .primitive _ | _, .descPrimitive _ | _, .descVoid => false
  | _, .descClass c => c.hasTag i
  | _, .descArray a => a.hasTag i
  | _, .classDescriptor j _ => i == j
  | _, .arrayDescriptor j _ b => i == j || b.hasTag i
  | _, .methodDescriptor j ps r => i == j || ps.hasTag i || r.hasTag i
  | _, .sigPrimitive _ | _, .sigVoid => false
  | _, .sigReference r => r.hasTag i
  | _, .refClass c => c.hasTag i
  | _, .refArray a => a.hasTag i
  | _, .refVariable v => v.hasTag i
  | _, .throwsClass c => c.hasTag i
  | _, .throwsVariable v => v.hasTag i
  | _, .classType j o _ as => i == j || o.hasTag i || as.hasTag i
  | _, .topLevel => false
  | _, .nestedIn c => c.hasTag i
  | _, .arrayType j _ b => i == j || b.hasTag i
  | _, .boundVariable j d => i == j || d.hasTag i
  | _, .freeVariable j _ => i == j
  | _, .typeParameter j _ c is => i == j || c.hasTag i || is.hasTag i
  | _, .noClassBound => false
  | _, .boundedBy r => r.hasTag i
  | _, .wildcard => false
  | _, .argReference r => r.hasTag i
  | _, .argBounded b => b.hasTag i
  | _, .boundedArgument j _ r => i == j || r.hasTag i
  | _, .methodSignature j ts ps r es =>
      i == j || ts.hasTag i || ps.hasTag i || r.hasTag i || es.hasTag i
  | _, .classSignature j ts s is => i == j || ts.hasTag i || s.hasTag i || is.hasTag i
  | _, .nil => false
  | _, .cons x xs => x.hasTag i || xs.hasTag i

theorem hasTag_eq_contains [BEq ι] (i : ι) {f : Form} (t : TypeTree ι f) :
    t.hasTag i = t.tags.contains i := by
  induction t <;> simp_all [hasTag, tags, Bool.or_assoc]

/-- The tag of the tree itself, if it is composite. -/
def tag? : {f : Form} → TypeTree ι f → Option ι
  | _, .classDescriptor i _ | _, .arrayDescriptor i _ _ | _, .methodDescriptor i _ _
  | _, .classType i _ _ _ | _, .arrayType i _ _ | _, .boundVariable i _ | _, .freeVariable i _
  | _, .typeParameter i _ _ _ | _, .boundedArgument i _ _ | _, .methodSignature i _ _ _ _
  | _, .classSignature i _ _ _ => some i
  | _, _ => none

/-- The entries of a list; no other tree has entries. -/
def entries : {f : Form} → TypeTree ι f → List (TypeTree ι f.entry)
  | _, .cons x xs => x :: xs.entries
  | _, _ => []

/-- Whether a list has no entries. -/
def isNil {f : Form} : TypeTree ι (.list f) → Bool
  | .nil => true
  | .cons _ _ => false

/-- The name that a class, a type variable or a type parameter goes by. -/
def name : {f : Form} → TypeTree ι f → String
  | _, .classDescriptor _ n | _, .classType _ _ n _ | _, .freeVariable _ n
  | _, .typeParameter _ n _ _ => n
  | _, .boundVariable _ d => d.name
  | _, _ => ""

/-- Whether the tree is `void`. -/
def isVoid {f : Form} : TypeTree ι f → Bool
  | .descVoid | .sigVoid => true
  | _ => false

end TypeTree

end ClassfileTypes
