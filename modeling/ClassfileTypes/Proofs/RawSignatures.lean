import ClassfileTypes.Proofs.SessionBinding
import ClassfileTypes.Proofs.Texts

/-!
# Raw signatures

A signature is raw if it says no more than a descriptor: it has no type arguments, no
type variables, no type parameters, and throws nothing. The signature of a descriptor is
raw, has the same text, and erases to the descriptor.

The two readers agree on that: a text without a dot encodes a descriptor exactly if it
encodes a raw signature, which is then the signature of the descriptor. A dot would tell
them apart, since in descriptors it stands for a slash and in signatures it nests a class.
-/

namespace ClassfileTypes

/-- What the signature of a tree that can be read is read as. -/
def Start.raised : Start → Start
  | typeDescriptor => typeSignature
  | classDescriptor => classType
  | methodDescriptor => methodSignature
  | k => k

theorem Start.form_raised (k : Start) : k.raised.form = k.form.raised := by
  cases k <;> rfl

theorem Form.opening_raised (f : Form) : f.raised.opening = f.opening := by
  cases f <;> rfl

namespace TypeTree

variable {ι : Type} {f : Form}

/-- No type arguments, type variables, type parameters and thrown types. -/
def isRaw : {f : Form} → TypeTree ι f → Bool
  | _, .boundVariable _ _ | _, .freeVariable _ _ | _, .typeParameter _ _ _ _
  | _, .wildcard | _, .argReference _ | _, .argBounded _ | _, .boundedArgument _ _ _ => false
  | _, .classType _ o _ as => o.isRaw && as.isNil
  | _, .methodSignature _ ts ps r es => ts.isNil && ps.isRaw && r.isRaw && es.isNil
  | _, .classSignature _ ts c is => ts.isNil && c.isRaw && is.isRaw
  | _, .descClass c => c.isRaw
  | _, .descArray a => a.isRaw
  | _, .arrayDescriptor _ _ b => b.isRaw
  | _, .methodDescriptor _ ps r => ps.isRaw && r.isRaw
  | _, .sigReference r => r.isRaw
  | _, .refClass c => c.isRaw
  | _, .refArray a => a.isRaw
  | _, .refVariable v => v.isRaw
  | _, .throwsClass c => c.isRaw
  | _, .throwsVariable v => v.isRaw
  | _, .nestedIn c => c.isRaw
  | _, .arrayType _ _ b => b.isRaw
  | _, .boundedBy r => r.isRaw
  | _, .cons x xs => x.isRaw && xs.isRaw
  | _, .primitive _ | _, .descPrimitive _ | _, .descVoid | _, .classDescriptor _ _
  | _, .sigPrimitive _ | _, .sigVoid | _, .topLevel | _, .noClassBound | _, .nil => true

theorem eq_nil_of_isNil {xs : TypeTree ι (.list f)} (h : xs.isNil = true) : xs = .nil := by
  cases xs with
  | nil => rfl
  | cons x xs => exact nomatch h

theorem unbound_of_isNil {xs : TypeTree ι (.list f)} (h : xs.isNil = true) : xs.Unbound := by
  obtain rfl := eq_nil_of_isNil h
  trivial

theorem unbound_of_isRaw {t : TypeTree ι f} (h : t.isRaw = true) : t.Unbound := by
  induction t with
  | boundVariable i d ih => exact nomatch h
  | classType i o n as iho ihas =>
      obtain ⟨ho, has⟩ := Bool.and_eq_true_iff.mp h
      exact ⟨iho ho, unbound_of_isNil has⟩
  | methodSignature i ts ps r es ihts ihps ihr ihes =>
      simp only [isRaw, Bool.and_eq_true] at h
      obtain ⟨⟨⟨hts, hps⟩, hr⟩, hes⟩ := h
      exact ⟨unbound_of_isNil hts, ihps hps, ihr hr, unbound_of_isNil hes⟩
  | classSignature i ts c is ihts ihc ihis =>
      simp only [isRaw, Bool.and_eq_true] at h
      obtain ⟨⟨hts, hc⟩, his⟩ := h
      exact ⟨unbound_of_isNil hts, ihc hc, ihis his⟩
  | _ => simp_all [isRaw, Unbound]

/-! ## The signature of a descriptor -/

/-- The signature of a plain descriptor. -/
def raised (t : TypeTree Unit f) : TypeTree Unit f.raised :=
  (t.raise : Id _)

/-- A descriptor and its signature are written alike. -/
theorem write_raised (s : Spelling) (t : TypeTree Unit f) (r : List Char) :
    t.raised.write s (f.raised.closing ++ r) = t.write s (f.closing ++ r) := by
  induction t generalizing r with
  | descClass c ih => exact ih r
  | descArray a ih => exact ih r
  | classDescriptor i n => rfl
  | arrayDescriptor i d b ih => exact congrArg (List.replicate d '[' ++ ·) (ih r)
  | methodDescriptor i ps t ihps iht =>
      show '(' :: ps.raised.write s (')' :: t.raised.write s r) =
        '(' :: ps.write s (')' :: t.write s r)
      rw [show t.raised.write s r = t.write s r from iht r]
      exact congrArg ('(' :: ·) (ihps (')' :: t.write s r))
  | cons x xs ihx ihxs =>
      rename_i g
      show g.raised.opening ++ x.raised.write s (g.raised.closing ++ xs.raised.write s r) =
        g.opening ++ x.write s (g.closing ++ xs.write s r)
      rw [Form.opening_raised, ihx, show xs.raised.write s r = xs.write s r from ihxs r]
  | _ => rfl

theorem internal_raised (t : TypeTree Unit f) : t.raised.internal = t.internal := by
  have hwrite := write_raised .internal t []
  rw [List.append_nil, List.append_nil] at hwrite
  exact congrArg String.ofList hwrite

theorem isBase_raised {t : TypeTree Unit .typeDescriptor} (h : t.IsBase) : t.raised.IsBase := by
  obtain ⟨hvoid, harray⟩ := shape_raise t
  exact ⟨hvoid.trans h.1, harray.trans h.2⟩

theorem wellFormed_raised {t : TypeTree Unit f} (h : t.WellFormed) : t.raised.WellFormed := by
  induction t with
  | descClass c ih => exact ih h
  | descArray a ih => exact ih h
  | classDescriptor i n => exact ⟨h, trivial, trivial⟩
  | arrayDescriptor i d b ih => exact ⟨h.1, isBase_raised h.2.1, ih h.2.2⟩
  | methodDescriptor i ps r ihps ihr =>
      exact ⟨notVoid_raise ps h.1, trivial, ihps h.2.1, ihr h.2.2, trivial⟩
  | cons x xs ihx ihxs => exact ⟨ihx h.1, ihxs h.2⟩
  | _ => exact h

theorem isRaw_raised (t : TypeTree Unit .typeDescriptor) : t.raised.isRaw = true := by
  match t with
  | .descPrimitive p => rfl
  | .descVoid => rfl
  | .descClass (.classDescriptor i n) => rfl
  | .descArray (.arrayDescriptor i d b) => exact isRaw_raised b

theorem isRaw_raised_list (ts : TypeTree Unit (.list .typeDescriptor)) :
    ts.raised.isRaw = true := by
  match ts with
  | .nil => rfl
  | .cons t ts => exact Bool.and_eq_true_iff.mpr ⟨isRaw_raised t, isRaw_raised_list ts⟩

/-- **The signature of a descriptor is raw.** -/
theorem isRaw_raised_of_isDescriptor (hf : f.isDescriptor = true) (t : TypeTree Unit f) :
    t.raised.isRaw = true := by
  cases t with
  | descPrimitive p => rfl
  | descVoid => rfl
  | descClass c => exact isRaw_raised (.descClass c)
  | descArray a => exact isRaw_raised (.descArray a)
  | classDescriptor i n => rfl
  | arrayDescriptor i d b => exact isRaw_raised b
  | methodDescriptor i ps r =>
      show (true && ps.raised.isRaw && r.raised.isRaw && true) = true
      rw [isRaw_raised_list, isRaw_raised]
      rfl
  | _ => exact nomatch hf

/-! ## The erasure of a raw signature -/

/-- Nothing is flattened and no bound is looked for. -/
theorem typeErasure_raised (d : TypeTree Unit .typeDescriptor) (hd : d.WellFormed) :
    d.raised.typeErasure = .ok d := by
  match d with
  | .descPrimitive p => rfl
  | .descVoid => rfl
  | .descClass (.classDescriptor i n) => rfl
  | .descArray (.arrayDescriptor i d b) =>
      have harray := run_makeArrayDescriptor hd
      refine (typeErasure_array hd.1.1 b.raised).trans ?_
      rw [typeErasure_raised b hd.2.2]
      show addArrays d b = _
      rw [addArrays, if_neg (Nat.one_le_iff_ne_zero.mp hd.1.1)]
      exact run_map_eq_ok.mpr ⟨_, harray, rfl⟩

theorem listErasure_raised (ds : TypeTree Unit (.list .typeDescriptor)) (hds : ds.WellFormed) :
    ds.raised.listErasure = .ok ds := by
  match ds with
  | .nil => rfl
  | .cons d ds =>
      refine (listErasure_cons d.raised ds.raised).trans ?_
      rw [typeErasure_raised d hds.1, listErasure_raised ds hds.2]
      rfl

theorem methodErasure_raised (d : TypeTree Unit .methodDescriptor) (hd : d.WellFormed) :
    d.raised.methodErasure = .ok d := by
  match d with
  | .methodDescriptor i ps r =>
      refine (methodErasure_eq () .nil ps.raised r.raised .nil).trans ?_
      rw [listErasure_raised ps hd.2.1, typeErasure_raised r hd.2.2]
      exact run_makeMethodDescriptor hd

/-- A class that nothing shows to be nested is at the top level. -/
theorem exists_raised_of_classType (c : TypeTree Unit .classType) (hc : c.WellFormed)
    (hraw : c.isRaw = true) {r : List Char} (hdot : '.' ∉ c.write .internal r) :
    ∃ d : TypeTree Unit .classDescriptor, d.WellFormed ∧ d.raised = c := by
  match c with
  | .classType i .topLevel n .nil => exact ⟨.classDescriptor () n, hc.1, rfl⟩
  | .classType i (.nestedIn o) n as =>
      exact absurd (List.mem_cons_self ..) (not_mem_of_write (t := o) hdot)

/-- **A raw signature that has no dot is the signature of a descriptor.** -/
theorem exists_raised (t : TypeTree Unit .typeSignature) (ht : t.WellFormed)
    (hraw : t.isRaw = true) {r : List Char} (hdot : '.' ∉ t.write .internal r) :
    ∃ d : TypeTree Unit .typeDescriptor, d.WellFormed ∧ d.raised = t := by
  match t with
  | .sigPrimitive p => exact ⟨.descPrimitive p, trivial, rfl⟩
  | .sigVoid => exact ⟨.descVoid, trivial, rfl⟩
  | .sigReference (.refClass c) =>
      obtain ⟨d, hd, rfl⟩ := exists_raised_of_classType c ht hraw hdot
      exact ⟨.descClass d, hd, rfl⟩
  | .sigReference (.refVariable (.boundVariable i p)) => exact nomatch hraw
  | .sigReference (.refVariable (.freeVariable i n)) => exact nomatch hraw
  | .sigReference (.refArray (.arrayType i n b)) =>
      have hbdot : '.' ∉ b.write .internal r := fun h => hdot (List.mem_append_right _ h)
      obtain ⟨d, hd, rfl⟩ := exists_raised b ht.2.2 hraw hbdot
      obtain ⟨hvoid, harray⟩ := shape_raise d
      have hbase : d.IsBase := ⟨hvoid.symm.trans ht.2.1.1, harray.symm.trans ht.2.1.2⟩
      exact ⟨.descArray (.arrayDescriptor () n d), ⟨ht.1, hbase, hd⟩, rfl⟩

theorem exists_raised_of_list (ts : TypeTree Unit (.list .typeSignature)) (hts : ts.WellFormed)
    (hraw : ts.isRaw = true) {r : List Char} (hdot : '.' ∉ ts.write .internal r) :
    ∃ ds : TypeTree Unit (.list .typeDescriptor), ds.WellFormed ∧ ds.raised = ts := by
  match ts with
  | .nil => exact ⟨.nil, trivial, rfl⟩
  | .cons t ts =>
      obtain ⟨htraw, htsraw⟩ := Bool.and_eq_true_iff.mp hraw
      obtain ⟨d, hd, rfl⟩ := exists_raised t hts.1 htraw hdot
      obtain ⟨ds, hds, rfl⟩ := exists_raised_of_list ts hts.2 htsraw (not_mem_of_write hdot)
      exact ⟨.cons d ds, ⟨hd, hds⟩, rfl⟩

theorem notVoid_of_raised (ds : TypeTree Unit (.list .typeDescriptor))
    (h : ∀ t ∈ ds.raised.entries, t.isVoid = false) : ∀ d ∈ ds.entries, d.isVoid = false := by
  match ds with
  | .nil => exact fun d hd => absurd hd List.not_mem_nil
  | .cons d ds =>
      obtain ⟨hvoid, hvoids⟩ := List.forall_mem_cons.mp h
      exact List.forall_mem_cons.mpr
        ⟨(shape_raise d).1.symm.trans hvoid, notVoid_of_raised ds hvoids⟩

theorem exists_raised_of_method (t : TypeTree Unit .methodSignature) (ht : t.WellFormed)
    (hraw : t.isRaw = true) {r : List Char} (hdot : '.' ∉ t.write .internal r) :
    ∃ d : TypeTree Unit .methodDescriptor, d.WellFormed ∧ d.raised = t := by
  cases t with
  | methodSignature i ts ps t es =>
      obtain ⟨hvoid, -, hps, ht, -⟩ := ht
      simp only [isRaw, Bool.and_eq_true] at hraw
      obtain ⟨⟨⟨hts, hpsraw⟩, htraw⟩, hes⟩ := hraw
      obtain rfl := eq_nil_of_isNil hts
      obtain rfl := eq_nil_of_isNil hes
      have hpsdot := List.not_mem_of_not_mem_cons hdot
      have htdot := List.not_mem_of_not_mem_cons (not_mem_of_write hpsdot)
      obtain ⟨ds, hds, rfl⟩ := exists_raised_of_list ps hps hpsraw hpsdot
      obtain ⟨d, hd, rfl⟩ := exists_raised t ht htraw htdot
      exact ⟨.methodDescriptor () ds d, ⟨notVoid_of_raised ds hvoid, hds, hd⟩, rfl⟩

theorem unbound_of_raised {t : TypeTree Unit f} (h : t.raised.Unbound) : t.Unbound := by
  induction t with
  | descClass c ih => exact ih h
  | descArray a ih => exact ih h
  | classDescriptor i n => trivial
  | arrayDescriptor i d b ih => exact ih h
  | methodDescriptor i ps t ihps iht => exact ⟨ihps h.2.1, iht h.2.2.1⟩
  | cons x xs ihx ihxs => exact ⟨ihx h.1, ihxs h.2⟩
  | _ => exact h

end TypeTree

/-! ## Trees of any form -/

namespace AnyTree

open TypeTree

variable {d : AnyTree Unit}

/-- The signature of a plain descriptor. -/
def raised (d : AnyTree Unit) : AnyTree Unit :=
  ⟨d.1.raised, d.2.raised⟩

theorem run_signatureOf (hd : d.1.isDescriptor = true) :
    (Evaluation.signatureOf d : Evaluation Id _).run = .ok d.raised := by
  unfold Evaluation.signatureOf
  rw [if_pos hd, Pool.raise_eq_lift]
  rfl

theorem isErasable_raised (hd : d.1.isDescriptor = true) : d.raised.isErasable = true := by
  obtain ⟨f, t⟩ := d
  cases t <;> first | rfl | exact nomatch hd

/-- **The signature of a descriptor erases to it.** -/
theorem run_erasureOf_raised (mode : Mode) (hd : d.1.isDescriptor = true) (hwf : d.2.WellFormed) :
    (Evaluation.erasureOf mode d.raised : Evaluation Id _).run = .ok d := by
  unfold Evaluation.erasureOf
  rw [if_pos (isErasable_raised hd)]
  obtain ⟨f, t⟩ := d
  cases f with
  | typeDescriptor =>
      exact run_adapt_eq_ok.mpr (run_map_eq_ok.mpr ⟨t, typeErasure_raised t hwf, rfl⟩)
  | classDescriptor =>
      cases t
      rfl
  | arrayDescriptor =>
      obtain ⟨a, ha, heq⟩ := run_map_eq_ok.mp (typeErasure_raised (.descArray t) hwf)
      obtain rfl := TypeTree.descArray.inj heq
      exact run_adapt_eq_ok.mpr (run_map_eq_ok.mpr ⟨a, ha, rfl⟩)
  | methodDescriptor =>
      exact run_adapt_eq_ok.mpr (run_map_eq_ok.mpr ⟨t, methodErasure_raised t hwf, rfl⟩)
  | _ => exact nomatch hd

end AnyTree

/-! ## Whole texts without dots -/

theorem parsePlain_internal (k : Start) {t : TypeTree Unit k.form} (ht : t.WellFormed)
    (hu : t.Unbound) : parsePlain k t.internal = .ok t := by
  have hread := readAt_internal k ht hu "" "" k.follows_nil
  rw [String.append_empty, String.empty_append] at hread
  refine run_bind_eq_ok.mpr ⟨(t, Text.byteSize t.internal.toList), ?_, ?_⟩
  · rw [parseAt_plain]
    exact hread.trans (congrArg (fun n => Except.ok (t, n)) (Nat.zero_add _))
  · exact congrArg ExceptT.run (if_pos rfl)

/-- What was read from the whole text is the text, if it has no dot. -/
theorem ReadFrom.internal_eq {k : Start} {t : TypeTree Unit k.form} {text : String} {stop : Nat}
    (h : ReadFrom k t text 0 stop) (hstop : stop = Text.byteSize text.toList)
    (hdot : '.' ∉ text.toList) : t.internal = text := by
  obtain ⟨before, read, after, htext, hbefore, hread, hinternal⟩ := h.cut
  have hbefore : before.toList = [] := by
    by_contra hne
    exact absurd hbefore (Text.byteSize_pos hne).ne'
  have hafter : after.toList = [] := by
    by_contra hne
    have hpos := Text.byteSize_pos hne
    have hsize : Text.byteSize text.toList =
        Text.byteSize (before ++ read).toList + Text.byteSize after.toList := by
      rw [htext, String.toList_append, Text.byteSize_append]
    omega
  have hlist : text.toList = read.toList := by
    rw [htext, String.toList_append, String.toList_append, hbefore, hafter, List.append_nil,
      List.nil_append]
  rw [← String.toList_inj, hinternal, ← hlist]
  have hclean : Name.slashed text.toList = text.toList :=
    Name.slashed_of_no_dot fun c hc heq => hdot (heq ▸ hc)
  cases k <;> first | exact hclean | rfl

/-- **A text without dots encodes exactly the tree whose internal text it is.** -/
theorem parsePlain_eq_ok_iff {k : Start} {text : String} (hdot : '.' ∉ text.toList)
    {t : TypeTree Unit k.form} :
    parsePlain k text = .ok t ↔ t.WellFormed ∧ t.Unbound ∧ t.internal = text := by
  constructor
  · intro h
    obtain ⟨⟨t', stop⟩, hparse, hstop⟩ := run_bind_eq_ok.mp h
    rw [parseAt_plain] at hparse
    have hread := readAt_eq_ok hparse
    dsimp only at hstop
    split_ifs at hstop with hend
    · obtain rfl := Except.ok.inj hstop
      exact ⟨hread.wellFormed, hread.unbound, hread.internal_eq hend hdot⟩
    · exact nomatch hstop
  · rintro ⟨hwf, hu, rfl⟩
    exact parsePlain_internal k hwf hu

namespace Session

open Pool TypeTree

variable {canonical : Prop} {s : Session}

/-! ## What expressions stand for -/

theorem Valid.valueOf_signature (h : s.Valid canonical) {e : Expr} {d : AnyTree Unit}
    (hd : s.valueOf e = .ok d) (hform : d.1.isDescriptor = true) :
    s.valueOf (.signature e) = .ok d.raised := by
  rw [h.valueOf_eq] at hd ⊢
  rw [Expr.eval]
  exact run_bind_eq_ok.mpr ⟨d, hd, AnyTree.run_signatureOf hform⟩

theorem Valid.valueOf_erase (h : s.Valid canonical) {e : Expr} {d : AnyTree Unit}
    (he : s.valueOf e = .ok d.raised) (mode : Mode) (hform : d.1.isDescriptor = true)
    (hd : d.2.WellFormed) : s.valueOf (.erase mode e) = .ok d := by
  rw [h.valueOf_eq] at he ⊢
  rw [Expr.eval]
  exact run_bind_eq_ok.mpr ⟨d.raised, he, AnyTree.run_erasureOf_raised mode hform hd⟩

/-- A text without dots stands for the tree of the form whose internal text it is. -/
theorem Valid.valueOf_parse_iff (h : s.Valid canonical) {k : Start} {text : String}
    (hdot : '.' ∉ text.toList) {v : AnyTree Unit} :
    s.valueOf (.parse k text) = .ok v ↔
      v.1 = k.form ∧ v.2.WellFormed ∧ v.2.Unbound ∧ v.2.internal = text := by
  rw [h.valueOf_eq, Expr.eval, run_map_eq_ok]
  simp only [run_adapt_eq_ok]
  constructor
  · rintro ⟨t, ht, rfl⟩
    exact ⟨rfl, (parsePlain_eq_ok_iff hdot).mp ht⟩
  · obtain ⟨f, t⟩ := v
    rintro ⟨rfl, ht⟩
    exact ⟨t, (parsePlain_eq_ok_iff hdot).mpr ht, rfl⟩

/-! ## Descriptors and raw signatures -/

/-- In the session two expressions stand for one type, seen as a descriptor and as a raw
signature: the second is the signature of the first and erases to it. -/
structure SeenTwice (s : Session) (e e' : Expr) (d t : AnyTree Unit) : Prop where
  descriptor : s.valueOf e = .ok d
  signature : s.valueOf e' = .ok t
  raw : t.2.isRaw = true
  raised : s.valueOf (.signature e) = .ok t
  erased : ∀ mode, s.valueOf (.erase mode e') = .ok d
  internal : t.2.internal = d.2.internal

theorem Valid.seenTwice (h : s.Valid canonical) {e e' : Expr} {d : AnyTree Unit}
    (hd : s.valueOf e = .ok d) (hform : d.1.isDescriptor = true)
    (he' : s.valueOf e' = .ok d.raised) : s.SeenTwice e e' d d.raised where
  descriptor := hd
  signature := he'
  raw := isRaw_raised_of_isDescriptor hform d.2
  raised := h.valueOf_signature hd hform
  erased mode := h.valueOf_erase he' mode hform (h.wellFormed_of_valueOf hd)
  internal := internal_raised d.2

/-- Without dots, what is read as a raw signature is the signature of what is read as a
descriptor. -/
theorem Valid.exists_seenTwice_of_raw (h : s.Valid canonical) {k : Start} {text : String}
    (hk : k.form.isDescriptor = true) (hdot : '.' ∉ text.toList) {t : AnyTree Unit}
    (ht : s.valueOf (.parse k.raised text) = .ok t) (hraw : t.2.isRaw = true) :
    ∃ d, s.SeenTwice (.parse k text) (.parse k.raised text) d t := by
  obtain ⟨hform, hwf, hu, rfl⟩ := (h.valueOf_parse_iff hdot).mp ht
  -- A raw signature of the form comes from a descriptor, which has the same text.
  have hexists : ∃ d : TypeTree Unit k.form, d.WellFormed ∧ AnyTree.raised ⟨k.form, d⟩ = t := by
    obtain ⟨f, t⟩ := t
    obtain rfl := hform
    have hwrite : '.' ∉ t.write .internal k.raised.form.closing := by
      rwa [TypeTree.internal, String.toList_ofList] at hdot
    cases k with
    | typeDescriptor =>
        obtain ⟨d, hd, rfl⟩ := exists_raised t hwf hraw hwrite
        exact ⟨d, hd, rfl⟩
    | classDescriptor =>
        obtain ⟨d, hd, rfl⟩ := exists_raised_of_classType t hwf hraw hwrite
        exact ⟨d, hd, rfl⟩
    | methodDescriptor =>
        obtain ⟨d, hd, rfl⟩ := exists_raised_of_method t hwf hraw hwrite
        exact ⟨d, hd, rfl⟩
    | _ => exact absurd hk Bool.false_ne_true
  obtain ⟨d, hd, rfl⟩ := hexists
  refine ⟨⟨k.form, d⟩, h.seenTwice ?_ hk ht⟩
  exact (h.valueOf_parse_iff hdot).mpr
    ⟨rfl, hd, unbound_of_raised hu, (internal_raised d).symm⟩

/-- **Descriptors and raw signatures are one type seen twice.** In every session the
signature of a descriptor has the same text and erases to the descriptor. And a text
without dots is read as a descriptor exactly if it is read as a raw signature, which is
then the signature of the descriptor. -/
theorem seenTwice_of_descriptor (c : Intern.Config) (steps : List Step) :
    let s := (start c).after steps
    (∀ (e : Expr) (d : AnyTree Unit), s.valueOf e = .ok d → d.1.isDescriptor = true →
      ∃ t, s.SeenTwice e (.signature e) d t) ∧
    ∀ (k : Start) (text : String), k.form.isDescriptor = true → '.' ∉ text.toList →
      (∀ d, s.valueOf (.parse k text) = .ok d →
        ∃ t, s.SeenTwice (.parse k text) (.parse k.raised text) d t) ∧
      ∀ t, s.valueOf (.parse k.raised text) = .ok t → t.2.isRaw = true →
        ∃ d, s.SeenTwice (.parse k text) (.parse k.raised text) d t := by
  intro s
  have hs : s.Valid False := valid_after_start c steps
  refine ⟨fun e d hd hform => ?_, fun k text hk hdot => ⟨fun d hd => ?_, fun t ht hraw => ?_⟩⟩
  · exact ⟨d.raised, hs.seenTwice hd hform (hs.valueOf_signature hd hform)⟩
  · obtain ⟨hform, hwf, -, hinternal⟩ := (hs.valueOf_parse_iff hdot).mp hd
    have hdescriptor : d.1.isDescriptor = true := by rw [hform]; exact hk
    refine ⟨d.raised, hs.seenTwice hd hdescriptor ((hs.valueOf_parse_iff hdot).mpr ?_)⟩
    refine ⟨?_, wellFormed_raised hwf, ?_, (internal_raised d.2).trans hinternal⟩
    · rw [k.form_raised, ← hform]
      rfl
    · exact unbound_of_isRaw (isRaw_raised_of_isDescriptor hdescriptor d.2)
  · exact hs.exists_seenTwice_of_raw hk hdot ht hraw

/-- An array and its class while the pool has both as signatures, and a method. -/
theorem seenTwice_of_descriptor_in_use :
    let steps : List Step :=
      [.value (.arrayType .checked 2 (.classType .checked none "a/b" [])) (some "x")]
    let s := (start {}).after steps
    (∃ t, s.SeenTwice (.classDescriptor .checked "a.b")
      (.signature (.classDescriptor .checked "a.b")) ⟨_, .classDescriptor () "a/b"⟩ t) ∧
    (∃ t, s.SeenTwice (.parse .typeDescriptor "[[La/b;") (.parse .typeSignature "[[La/b;")
      ⟨_, .descArray (.arrayDescriptor () 2 (.descClass (.classDescriptor () "a/b")))⟩ t) ∧
    ∃ d, s.SeenTwice (.parse .methodDescriptor "(I)V") (.parse .methodSignature "(I)V") d
      ⟨_, .methodSignature () .nil (.cons (.sigPrimitive .int) .nil) .sigVoid .nil⟩ := by
  intro steps s
  have hs : s.Valid False := valid_after_start {} steps
  obtain ⟨hvalue, hread⟩ := seenTwice_of_descriptor {} steps
  have harray := hread .typeDescriptor "[[La/b;" rfl (by decide)
  have hmethod := hread .methodDescriptor "(I)V" rfl (by decide)
  refine ⟨hvalue _ _ (by decide +kernel) rfl, harray.1 _ (by decide +kernel), hmethod.2 _ ?_ rfl⟩
  refine (hs.valueOf_parse_iff (by decide)).mpr ⟨rfl, ?_, ?_, rfl⟩
  · exact ⟨by decide, trivial, ⟨trivial, trivial⟩, trivial, trivial⟩
  · exact ⟨trivial, ⟨trivial, trivial⟩, trivial, trivial⟩

end Session

end ClassfileTypes
