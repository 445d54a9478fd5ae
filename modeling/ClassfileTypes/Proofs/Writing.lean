import ClassfileTypes.Proofs.WellFormed

/-!
# How texts begin, and how class types are written

Texts are read from the left, one character at a time, so most decisions are
made on the first character of a tree's text; `lead?` is that character. Class
types are the exception to reading from the left: the outermost class is the
innermost part of the tree. `spine` lists the classes in the order in which they
are written.
-/

namespace ClassfileTypes.TypeTree

variable {ι : Type}

/-! ## What follows -/

theorem angled_append {isNil : Bool} {w : List Char → List Char} {r' : List Char}
    (hw : ∀ r, w (r ++ r') = w r ++ r') (r : List Char) :
    angled isNil w (r ++ r') = angled isNil w r ++ r' := by
  cases isNil with
  | true => rfl
  | false => exact congrArg ('<' :: ·) (hw ('>' :: r))

/-- What follows a tree is written after it. -/
theorem write_append (s : Spelling) {f : Form} (t : TypeTree ι f) (r r' : List Char) :
    t.write s (r ++ r') = t.write s r ++ r' := by
  induction t generalizing r with
  | boundVariable i d ih => cases s <;> simp [write, ← ih]
  | descClass _ ih | descArray _ ih | arrayDescriptor _ _ _ ih | sigReference _ ih
  | refClass _ ih | refArray _ ih | refVariable _ ih | throwsClass _ ih | throwsVariable _ ih
  | nestedIn _ ih | arrayType _ _ _ ih | boundedBy _ ih | argReference _ ih | argBounded _ ih
  | boundedArgument _ _ _ ih => simp [write, ← ih]
  | methodDescriptor _ _ _ ih ih' | typeParameter _ _ _ _ ih ih' | cons _ _ ih ih' =>
      simp [write, ← ih, ← ih']
  | classType i o n as iho ihas => simp [write, ← iho, ← angled_append ihas]
  | methodSignature i ts ps t es ihts ihps iht ihes =>
      simp [write, ← angled_append ihts, ← ihps, ← iht, ← ihes]
  | classSignature i ts c is ihts ihc ihis =>
      simp [write, ← angled_append ihts, ← ihc, ← ihis]
  | _ => simp [write]

theorem text_append (s : Spelling) {f : Form} (t : TypeTree ι f) (r : List Char) :
    t.text s ++ r = t.write s (f.closing ++ r) :=
  (write_append s t _ r).symm

/-! ## Trees without bound variables -/

theorem not_mem_of_write {s : Spelling} {f : Form} {t : TypeTree ι f} {c : Char} {r : List Char}
    (h : c ∉ t.write s r) : c ∉ r := by
  rw [← List.nil_append r, write_append] at h
  exact fun hc => h (List.mem_append_right _ hc)

theorem not_mem_of_angled {f : Form} {ts : TypeTree ι (.list f)} {s : Spelling} {c : Char}
    {r : List Char} (h : c ∉ angled ts.isNil (ts.write s) r) :
    (∃ r', c ∉ ts.write s r') ∧ c ∉ r := by
  cases ts with
  | nil => exact ⟨⟨r, h⟩, h⟩
  | cons t ts =>
      have hwrite : c ∉ (TypeTree.cons t ts).write s ('>' :: r) := fun hc =>
        h (List.mem_cons_of_mem _ hc)
      exact ⟨⟨_, hwrite⟩, fun hc => not_mem_of_write hwrite (List.mem_cons_of_mem _ hc)⟩

/-- A key without `#` has no bound variable. -/
theorem unbound_of_not_mem {f : Form} {t : TypeTree ι f} {r : List Char}
    (h : '#' ∉ t.write .key r) : t.Unbound := by
  induction t generalizing r with
  | boundVariable i d _ => exact h (List.mem_cons_self ..)
  | descClass _ ih | descArray _ ih | sigReference _ ih | refClass _ ih | refArray _ ih
  | refVariable _ ih | throwsClass _ ih | throwsVariable _ ih | nestedIn _ ih | boundedBy _ ih
  | argReference _ ih | argBounded _ ih => exact ih h
  | arrayDescriptor i d b ih | arrayType i d b ih =>
      exact ih fun hc => h (List.mem_append_right _ hc)
  | boundedArgument i d t ih => exact ih fun hc => h (List.mem_cons_of_mem _ hc)
  | methodDescriptor i ps t ihps iht =>
      have hps := fun hc => h (List.mem_cons_of_mem _ hc)
      exact ⟨ihps hps, iht fun hc => not_mem_of_write hps (List.mem_cons_of_mem _ hc)⟩
  | classType i o n as iho ihas =>
      have hn : '#' ∉ n.toList ++ angled as.isNil (as.write .key) r := not_mem_of_write h
      obtain ⟨⟨r', has⟩, -⟩ := not_mem_of_angled fun hc => hn (List.mem_append_right _ hc)
      exact ⟨iho h, ihas has⟩
  | typeParameter i n b is ihb ihis =>
      have hb := fun hc => h (List.mem_append_right n.toList (List.mem_cons_of_mem ':' hc))
      exact ⟨ihb hb, ihis (not_mem_of_write hb)⟩
  | methodSignature i ts ps t es ihts ihps iht ihes =>
      obtain ⟨⟨r', hts⟩, hrest⟩ := not_mem_of_angled h
      have hps := fun hc => hrest (List.mem_cons_of_mem _ hc)
      have ht := fun hc => not_mem_of_write hps (List.mem_cons_of_mem _ hc)
      exact ⟨ihts hts, ihps hps, iht ht, ihes (not_mem_of_write ht)⟩
  | classSignature i ts c is ihts ihc ihis =>
      obtain ⟨⟨r', hts⟩, hc⟩ := not_mem_of_angled h
      exact ⟨ihts hts, ihc hc, ihis fun hmem => not_mem_of_write hc (List.mem_cons_of_mem _ hmem)⟩
  | cons x xs ihx ihxs =>
      have hx := fun hc => h (List.mem_append_right _ hc)
      exact ⟨ihx hx, ihxs fun hc => not_mem_of_write hx (List.mem_append_right _ hc)⟩
  | _ => trivial

/-- Without bound variables the two texts are the same. -/
theorem write_key_of_unbound {f : Form} {t : TypeTree ι f} (h : t.Unbound) :
    t.write .key = t.write .internal := by
  induction t with
  | boundVariable i d _ => exact h.elim
  | _ => funext r; simp_all [write, Unbound]

theorem key_of_unbound {f : Form} {t : TypeTree ι f} (h : t.Unbound) : t.key = t.internal := by
  rw [key, internal, text, text, write_key_of_unbound h]

/-! ## The first character -/

/-- The first character of the text of a tree, where the tree alone decides it. -/
def lead? (s : Spelling) : {f : Form} → TypeTree ι f → Option Char
  | _, .primitive p | _, .descPrimitive p | _, .sigPrimitive p => some p.code
  | _, .descVoid | _, .sigVoid => some 'V'
  | _, .descClass _ | _, .classDescriptor _ _ | _, .refClass _ | _, .throwsClass _
  | _, .classType _ _ _ _ | _, .topLevel | _, .nestedIn _ => some 'L'
  | _, .descArray _ | _, .arrayDescriptor _ _ _ | _, .refArray _ | _, .arrayType _ _ _ =>
      some '['
  | _, .methodDescriptor _ _ _ => some '('
  | _, .sigReference r => r.lead? s
  | _, .refVariable v => v.lead? s
  | _, .throwsVariable v => v.lead? s
  | _, .boundVariable _ _ =>
      match s with
      | .internal => some 'T'
      | .key => some '#'
  | _, .freeVariable _ _ => some 'T'
  | _, .typeParameter _ n _ _ => n.toList.head?
  | _, .boundedBy r => r.lead? s
  | _, .wildcard => some '*'
  | _, .argReference r => r.lead? s
  | _, .argBounded b => b.lead? s
  | _, .boundedArgument _ d _ => some d.code
  | _, .noClassBound | _, .methodSignature _ _ _ _ _ | _, .classSignature _ _ _ _ | _, .nil
  | _, .cons _ _ => none

/-- Whether a reference type or an argument that is one may begin with `c`. -/
def LeadsReference (s : Spelling) (c : Char) : Prop :=
  c = 'L' ∨ c = '[' ∨ c = 'T' ∨ s = .key ∧ c = '#'

theorem head?_replicate_append {α : Type} {d : Nat} (hd : 1 ≤ d) (a : α) (l : List α) :
    (List.replicate d a ++ l).head? = some a := by
  obtain ⟨d, rfl⟩ := Nat.exists_eq_add_of_le' hd
  rfl

/-- **The text begins with the lead of the tree.** -/
theorem head?_write {s : Spelling} {f : Form} {t : TypeTree ι f} {c : Char} (ht : t.WellFormed)
    (h : t.lead? s = some c) (r : List Char) : (t.write s r).head? = some c := by
  induction t generalizing r with
  | primitive p | descPrimitive p | sigPrimitive p => simpa [lead?, write] using h
  | descVoid | sigVoid | topLevel | wildcard => simpa [lead?, write] using h
  | classDescriptor i n | freeVariable i n => simpa [lead?, write] using h
  | methodDescriptor i ps t _ _ => simpa [lead?, write] using h
  | boundedArgument i d t _ => simpa [lead?, write] using h
  | descClass c ih =>
      cases c with
      | classDescriptor i n => simpa [lead?, write] using h
  | descArray a ih => cases a with | arrayDescriptor i d b => exact ih ht h r
  | refArray a ih => cases a with | arrayType i d b => exact ih ht h r
  | refClass c ih | throwsClass c ih | nestedIn c ih =>
      cases c with | classType i o n as => exact ih ht h _
  | arrayDescriptor i d b _ | arrayType i d b _ =>
      obtain rfl : '[' = c := by simpa [lead?] using h
      exact head?_replicate_append ht.1.1 _ _
  | sigReference r ih | refVariable r ih | throwsVariable r ih | boundedBy r ih
  | argReference r ih | argBounded r ih => exact ih ht h _
  | classType i o n as ih _ =>
      refine ih ht.2.1 ?_ _
      cases o <;> exact h
  | boundVariable i d _ => cases s <;> simpa [lead?, write] using h
  | typeParameter i n b is _ _ =>
      rw [lead?] at h
      rw [write, List.head?_append, h]
      rfl
  | noClassBound | methodSignature | classSignature | nil | cons => simp [lead?] at h

theorem leadsReference {s : Spelling} (r : TypeTree ι .referenceType) :
    ∃ c, r.lead? s = some c ∧ LeadsReference s c := by
  cases r with
  | refClass c => exact ⟨_, rfl, by simp [LeadsReference]⟩
  | refArray a => exact ⟨_, rfl, by simp [LeadsReference]⟩
  | refVariable v =>
      cases v with
      | boundVariable i d => cases s <;> exact ⟨_, rfl, by simp [LeadsReference]⟩
      | freeVariable i n => exact ⟨_, rfl, by simp [LeadsReference]⟩

/-- The text of a reference type begins like one. -/
theorem leads_write_reference {s : Spelling} {r : TypeTree ι .referenceType} (hr : r.WellFormed)
    (rest : List Char) : ∃ c, (r.write s rest).head? = some c ∧ LeadsReference s c := by
  obtain ⟨c, hc, hlead⟩ := leadsReference (s := s) r
  exact ⟨c, head?_write hr hc rest, hlead⟩

/-- The text of an interface bound list begins with a colon, if it has an entry. -/
theorem head?_write_interfaceBounds {s : Spelling} {is : TypeTree ι (.list .referenceType)}
    (h : is.isNil = false) (r : List Char) : (is.write s r).head? = some ':' := by
  cases is with
  | nil => simp [isNil] at h
  | cons x xs => rfl

/-! ## The first character of an entry

What ends a list is none of the characters that an entry begins with. -/

theorem lead_typeDescriptor (s : Spelling) (t : TypeTree ι .typeDescriptor) :
    ∃ c, t.lead? s = some c ∧ c ≠ ')' := by
  cases t with
  | descPrimitive p => exact ⟨_, rfl, by cases p <;> decide⟩
  | _ => exact ⟨_, rfl, by decide⟩

theorem lead_typeSignature (s : Spelling) (t : TypeTree ι .typeSignature) :
    ∃ c, t.lead? s = some c ∧ c ≠ ')' := by
  cases t with
  | sigPrimitive p => exact ⟨_, rfl, by cases p <;> decide⟩
  | sigVoid => exact ⟨_, rfl, by decide⟩
  | sigReference r =>
      obtain ⟨c, hc, hlead⟩ := leadsReference (s := s) r
      refine ⟨c, hc, ?_⟩
      rintro rfl
      simp [LeadsReference] at hlead

theorem lead_typeArgument (s : Spelling) (t : TypeTree ι .typeArgument) :
    ∃ c, t.lead? s = some c ∧ c ≠ '>' := by
  cases t with
  | wildcard => exact ⟨_, rfl, by decide⟩
  | argReference r =>
      obtain ⟨c, hc, hlead⟩ := leadsReference (s := s) r
      refine ⟨c, hc, ?_⟩
      rintro rfl
      simp [LeadsReference] at hlead
  | argBounded b =>
      cases b with
      | boundedArgument i d r => exact ⟨_, rfl, by cases d <;> decide⟩

theorem lead_typeParameter (s : Spelling) {t : TypeTree ι .typeParameter} (ht : t.WellFormed) :
    ∃ c, t.lead? s = some c ∧ c ≠ '>' ∧ c ≠ ':' := by
  cases t with
  | typeParameter i n b is =>
      obtain ⟨c, cs, hn⟩ := List.exists_cons_of_ne_nil ht.1.nonempty
      obtain ⟨hdelimiter, hseparator⟩ := ht.1.clean c (by rw [hn]; exact List.mem_cons_self ..)
      refine ⟨c, by rw [lead?, hn]; rfl, ?_, ?_⟩
      · rintro rfl
        exact absurd hdelimiter (by decide)
      · rintro rfl
        exact absurd hseparator (by decide)

/-- What a flat array is an array of does not begin like an array. -/
theorem head?_write_descriptorBase {s : Spelling} {b : TypeTree ι .typeDescriptor}
    (hb : b.WellFormed) (hbase : b.IsBase) (r : List Char) :
    ∃ c, (b.write s r).head? = some c ∧ c ≠ '[' := by
  cases b with
  | descPrimitive p => exact ⟨p.code, rfl, by cases p <;> decide⟩
  | descVoid => cases hbase.1
  | descClass c => exact ⟨'L', head?_write hb rfl r, by decide⟩
  | descArray a => cases hbase.2

/-- What a flat array is an array of does not begin like an array. -/
theorem head?_write_typeBase {s : Spelling} {b : TypeTree ι .typeSignature} (hb : b.WellFormed)
    (hbase : b.IsBase) (r : List Char) : ∃ c, (b.write s r).head? = some c ∧ c ≠ '[' := by
  cases b with
  | sigPrimitive p => exact ⟨p.code, rfl, by cases p <;> decide⟩
  | sigVoid => cases hbase.1
  | sigReference t =>
      cases t with
      | refClass c => exact ⟨'L', head?_write hb rfl r, by decide⟩
      | refArray a => cases hbase.2
      | refVariable v =>
          cases v with
          | boundVariable i d => cases s <;> exact ⟨_, head?_write hb rfl r, by decide⟩
          | freeVariable i n => exact ⟨'T', head?_write hb rfl r, by decide⟩

/-- A list begins like its first entry, where nothing stands before entries. -/
theorem head?_write_cons {s : Spelling} {f : Form} (hf : f.opening = []) {x : TypeTree ι f}
    {xs : TypeTree ι (.list f)} (hx : x.WellFormed) {c : Char} (hc : x.lead? s = some c)
    (r : List Char) : ((TypeTree.cons x xs).write s r).head? = some c := by
  rw [write, hf]
  exact head?_write hx hc _

/-! ## The spine of a class type -/

/-- A class in a class type: its name and its arguments. -/
abbrev Segment (ι : Type) : Type :=
  String × TypeTree ι (.list .typeArgument)

/-- The classes of a class type, the outermost first. -/
def spine : {f : Form} → TypeTree ι f → List (Segment ι)
  | .classType, .classType _ o n as => o.spine ++ [(n, as)]
  | .enclosing, .nestedIn c => c.spine
  | _, _ => []

/-- Writes classes in front of `rest`, each after a dot. -/
def dotted (s : Spelling) (segments : List (Segment ι)) (rest : List Char) : List Char :=
  segments.foldr (fun e r => '.' :: (e.1.toList ++ angled e.2.isNil (e.2.write s) r)) rest

@[simp] theorem dotted_nil (s : Spelling) (rest : List Char) :
    dotted s ([] : List (Segment ι)) rest = rest :=
  rfl

@[simp] theorem dotted_cons (s : Spelling) (e : Segment ι) (es : List (Segment ι))
    (rest : List Char) :
    dotted s (e :: es) rest =
      '.' :: (e.1.toList ++ angled e.2.isNil (e.2.write s) (dotted s es rest)) :=
  rfl

theorem dotted_append (s : Spelling) (es es' : List (Segment ι)) (rest : List Char) :
    dotted s (es ++ es') rest = dotted s es (dotted s es' rest) :=
  List.foldr_append

mutual

/-- A class type is written as its spine, with `L` in place of the first dot. -/
theorem dotted_spine (s : Spelling) (c : TypeTree ι .classType) (rest : List Char) :
    dotted s c.spine rest = '.' :: (c.write s rest).tail := by
  match c with
  | .classType _ o n as =>
      rw [spine, dotted_append, dotted_cons, dotted_nil]
      exact dotted_spine_enclosing s o _

/-- What is written before a class is the spine of what it is nested in. -/
theorem dotted_spine_enclosing (s : Spelling) (o : TypeTree ι .enclosing) (rest : List Char) :
    dotted s o.spine ('.' :: rest) = '.' :: (o.write s rest).tail := by
  match o with
  | .topLevel => rfl
  | .nestedIn c => exact dotted_spine s c ('.' :: rest)

end

/-- The names of a spine end where a stop character does. -/
theorem clean_of_mem_spine {f : Form} {t : TypeTree ι f} (ht : t.WellFormed)
    {e : Segment ι} (he : e ∈ t.spine) :
    (∀ c ∈ e.1.toList, Name.isDelimiter c = false ∧ c ≠ '.') ∧ e.2.WellFormed := by
  induction t with
  | classType i o n as iho _ =>
      rcases List.mem_append.mp he with he | he
      · exact iho ht.2.1 he
      · obtain rfl := List.mem_singleton.mp he
        refine ⟨fun c hc => ?_, ht.2.2⟩
        cases o with
        | topLevel => exact ht.1.clean c hc
        | nestedIn o =>
            have hclean := ht.1.clean c hc
            refine ⟨hclean.1, ?_⟩
            rintro rfl
            simp [Name.isSeparator] at hclean
  | nestedIn c ih => exact ih ht he
  | _ => simp [spine] at he

end ClassfileTypes.TypeTree
