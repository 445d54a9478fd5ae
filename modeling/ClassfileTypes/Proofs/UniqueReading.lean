import ClassfileTypes.Proofs.Writing
import ClassfileTypes.Tree.Composite

/-!
# Keys are read in one way only

A key is an undelimited concatenation, so two trees of one form could in
principle be written alike. They are not: from a key, followed by anything that
may follow it, the tree and the rest can be told. What may follow is `Ends`; it
is what keeps lists apart from what comes after them, and it holds wherever a
tree stands inside another.

There is one lemma for each constructor, and the induction puts them together.
Trees are plain here: tags do not show in keys.
-/

namespace ClassfileTypes.TypeTree

/-- What may follow a tree in a key. Where there is no class bound, what follows
says so. Lists of other forms, and what a class is nested in, are not read on
their own. -/
def Ends : {f : Form} → TypeTree Unit f → List Char → Prop
  | .classType, _, r => r.head? = some ';'
  | .classBound, c, r => c.isUnbounded = true → r.head? = some ':'
  | .typeParameter, _, r => r.head? ≠ some ':'
  | .methodSignature, _, r => r.head? ≠ some '^'
  | .classSignature, _, r => r.head? ≠ some 'L'
  | .list .typeDescriptor, _, r | .list .typeSignature, _, r => r.head? = some ')'
  | .list .typeArgument, _, r | .list .typeParameter, _, r => r.head? = some '>'
  | .list .referenceType, _, r => r.head? ≠ some ':'
  | .list .throwsType, _, r => r.head? ≠ some '^'
  | .list .classType, _, r => r.head? ≠ some 'L'
  | .list _, _, _ | .enclosing, _, _ => False
  | _, _, _ => True

/-- From the key of a tree and what follows, both can be told. -/
def Unique {f : Form} (t : TypeTree Unit f) : Prop :=
  ∀ (u : TypeTree Unit f) (r r' : List Char), t.WellFormed → u.WellFormed → t.Ends r → u.Ends r' →
    t.write .key r = u.write .key r' → t = u ∧ r = r'

/-! ## Texts that end at a stop -/

/-- Two texts without stops, each followed by a stop, are equal if they are
written alike. -/
theorem append_eq_append_of_stops {P : Char → Prop} {xs ys r r' : List Char}
    (hxs : ∀ c ∈ xs, ¬ P c) (hys : ∀ c ∈ ys, ¬ P c) (hr : ∃ c, r.head? = some c ∧ P c)
    (hr' : ∃ c, r'.head? = some c ∧ P c) (h : xs ++ r = ys ++ r') : xs = ys ∧ r = r' := by
  induction xs generalizing ys with
  | nil =>
      cases ys with
      | nil => exact ⟨rfl, h⟩
      | cons y ys =>
          obtain ⟨c, hc, hPc⟩ := hr
          have hy : y = c := by simpa [show r = y :: (ys ++ r') from h] using hc
          exact absurd hPc (hy ▸ hys y (List.mem_cons_self ..))
  | cons x xs ih =>
      cases ys with
      | nil =>
          obtain ⟨c, hc, hPc⟩ := hr'
          have hx : x = c := by simpa [show r' = x :: (xs ++ r) from h.symm] using hc
          exact absurd hPc (hx ▸ hxs x (List.mem_cons_self ..))
      | cons y ys =>
          obtain ⟨rfl, htail⟩ := List.cons.inj h
          obtain ⟨rfl, hrest⟩ := ih (fun c hc => hxs c (List.mem_cons_of_mem _ hc))
            (fun c hc => hys c (List.mem_cons_of_mem _ hc)) htail
          exact ⟨rfl, hrest⟩

/-- A name that ends at a stop can be told. -/
theorem name_eq_of_stops {P : Char → Prop} {n n' : String} {r r' : List Char}
    (hn : ∀ c ∈ n.toList, ¬ P c) (hn' : ∀ c ∈ n'.toList, ¬ P c)
    (hr : ∃ c, r.head? = some c ∧ P c) (hr' : ∃ c, r'.head? = some c ∧ P c)
    (h : n.toList ++ r = n'.toList ++ r') : n = n' ∧ r = r' := by
  obtain ⟨hname, hrest⟩ := append_eq_append_of_stops hn hn' hr hr' h
  exact ⟨String.toList_inj.mp hname, hrest⟩

theorem ne_of_not_delimiter {c d : Char} (hc : Name.isDelimiter c = false)
    (hd : Name.isDelimiter d = true) : c ≠ d := by
  rintro rfl
  simp [hc] at hd

/-- The dimension of an array over something that is not an array can be told. -/
theorem dimension_eq {d d' : Nat} {r r' : List Char} (hr : ∃ c, r.head? = some c ∧ c ≠ '[')
    (hr' : ∃ c, r'.head? = some c ∧ c ≠ '[')
    (h : List.replicate d '[' ++ r = List.replicate d' '[' ++ r') : d = d' ∧ r = r' := by
  have hdims : ∀ k, ∀ c ∈ List.replicate k '[', ¬ c ≠ '[' := by
    intro k c hc
    simpa using List.eq_of_mem_replicate hc
  obtain ⟨heq, hrest⟩ := append_eq_append_of_stops (hdims d) (hdims d') hr hr' h
  exact ⟨by simpa using congrArg List.length heq, hrest⟩

/-- A list between angle brackets, or none, can be told. -/
theorem Unique.angled {f : Form} {ts us : TypeTree Unit (.list f)} {r r' : List Char}
    (hts : Unique ts) (hends : ∀ (vs : TypeTree Unit (.list f)) s, vs.Ends ('>' :: s))
    (ht : ts.WellFormed) (hu : us.WellFormed) (hr : r.head? ≠ some '<')
    (hr' : r'.head? ≠ some '<')
    (h : TypeTree.angled ts.isNil (ts.write .key) r = TypeTree.angled us.isNil (us.write .key) r') :
    ts = us ∧ r = r' := by
  cases ts with
  | nil =>
      cases us with
      | nil => exact ⟨rfl, h⟩
      | cons u us => exact absurd (by rw [show r = '<' :: _ from h]; rfl) hr
  | cons t ts =>
      cases us with
      | nil => exact absurd (by rw [show r' = '<' :: _ from h.symm]; rfl) hr'
      | cons u us =>
          obtain ⟨heq, hrest⟩ :=
            hts _ _ _ ht hu (hends _ r) (hends _ r') (List.cons.inj h).2
          exact ⟨heq, (List.cons.inj hrest).2⟩

/-! ## Telling alternatives apart -/

/-- Trees that are written alike begin alike. -/
theorem lead_eq_lead {f : Form} {t u : TypeTree Unit f} (ht : t.WellFormed) (hu : u.WellFormed)
    {c d : Char} (hc : t.lead? .key = some c) (hd : u.lead? .key = some d) {r r' : List Char}
    (h : t.write .key r = u.write .key r') : c = d := by
  have hhead := head?_write ht hc r
  rw [h, head?_write hu hd r'] at hhead
  exact (Option.some.inj hhead).symm

theorem code_injective {p q : Primitive} (h : p.code = q.code) : p = q := by
  cases p <;> cases q <;> first | rfl | exact absurd h (by decide)

theorem not_leadsReference_code (s : Spelling) (p : Primitive) : ¬ LeadsReference s p.code := by
  cases p <;> simp [LeadsReference, Primitive.code]

/-! ## Descriptors -/

theorem Unique.primitive (p : Primitive) : Unique (.primitive p) := by
  intro u r r' _ _ _ _ h
  cases u with
  | primitive q =>
      obtain ⟨hcode, hrest⟩ := List.cons.inj h
      exact ⟨congrArg _ (code_injective hcode), hrest⟩

theorem Unique.descPrimitive (p : Primitive) : Unique (.descPrimitive p) := by
  intro u r r' ht hu _ _ h
  cases u with
  | descPrimitive q =>
      obtain ⟨hcode, hrest⟩ := List.cons.inj h
      exact ⟨congrArg _ (code_injective hcode), hrest⟩
  | _ => exact absurd (lead_eq_lead ht hu rfl rfl h) (by cases p <;> decide)

theorem Unique.descVoid : Unique .descVoid := by
  intro u r r' ht hu _ _ h
  cases u with
  | descVoid => exact ⟨rfl, (List.cons.inj h).2⟩
  | descPrimitive q => exact absurd (lead_eq_lead ht hu rfl rfl h) (by cases q <;> decide)
  | _ => exact absurd (lead_eq_lead ht hu rfl rfl h) (by decide)

theorem Unique.descClass {c : TypeTree Unit .classDescriptor} (hc : Unique c) :
    Unique (.descClass c) := by
  intro u r r' ht hu _ _ h
  cases u with
  | descClass c' =>
      obtain ⟨rfl, hrest⟩ := hc c' r r' ht hu trivial trivial h
      exact ⟨rfl, hrest⟩
  | descPrimitive q => exact absurd (lead_eq_lead ht hu rfl rfl h) (by cases q <;> decide)
  | _ => exact absurd (lead_eq_lead ht hu rfl rfl h) (by decide)

theorem Unique.descArray {a : TypeTree Unit .arrayDescriptor} (ha : Unique a) :
    Unique (.descArray a) := by
  intro u r r' ht hu _ _ h
  cases u with
  | descArray a' =>
      obtain ⟨rfl, hrest⟩ := ha a' r r' ht hu trivial trivial h
      exact ⟨rfl, hrest⟩
  | descPrimitive q => exact absurd (lead_eq_lead ht hu rfl rfl h) (by cases q <;> decide)
  | _ => exact absurd (lead_eq_lead ht hu rfl rfl h) (by decide)

theorem Unique.classDescriptor (n : String) : Unique (.classDescriptor () n) := by
  intro u r r' ht hu _ _ h
  cases u with
  | classDescriptor i n' =>
      have hstop : ∀ {m : String}, Name.IsClassName m → ∀ c ∈ m.toList, ¬ c = ';' :=
        fun hm c hc => ne_of_not_delimiter (hm.clean c hc).1 rfl
      obtain ⟨rfl, hrest⟩ := name_eq_of_stops (hstop ht) (hstop hu) ⟨_, rfl, rfl⟩ ⟨_, rfl, rfl⟩
        (List.cons.inj h).2
      exact ⟨rfl, (List.cons.inj hrest).2⟩

theorem Unique.arrayDescriptor {d : Nat} {b : TypeTree Unit .typeDescriptor} (hb : Unique b) :
    Unique (.arrayDescriptor () d b) := by
  intro u r r' ht hu _ _ h
  cases u with
  | arrayDescriptor i d' b' =>
      obtain ⟨rfl, htail⟩ := dimension_eq (head?_write_descriptorBase ht.2.2 ht.2.1 r)
        (head?_write_descriptorBase hu.2.2 hu.2.1 r') h
      obtain ⟨rfl, hrest⟩ := hb b' r r' ht.2.2 hu.2.2 trivial trivial htail
      exact ⟨rfl, hrest⟩

theorem Unique.methodDescriptor {ps : TypeTree Unit (.list .typeDescriptor)}
    {t : TypeTree Unit .typeDescriptor} (hps : Unique ps) (ht : Unique t) :
    Unique (.methodDescriptor () ps t) := by
  intro u r r' hm hu _ _ h
  cases u with
  | methodDescriptor i ps' t' =>
      obtain ⟨rfl, htail⟩ := hps ps' (')' :: _) (')' :: _) hm.2.1 hu.2.1 rfl rfl
        (List.cons.inj h).2
      obtain ⟨rfl, hrest⟩ := ht t' r r' hm.2.2 hu.2.2 trivial trivial (List.cons.inj htail).2
      exact ⟨rfl, hrest⟩

/-! ## Signatures -/

theorem Unique.sigPrimitive (p : Primitive) : Unique (.sigPrimitive p) := by
  intro u r r' ht hu _ _ h
  cases u with
  | sigPrimitive q =>
      obtain ⟨hcode, hrest⟩ := List.cons.inj h
      exact ⟨congrArg _ (code_injective hcode), hrest⟩
  | sigVoid => exact absurd (lead_eq_lead ht hu rfl rfl h) (by cases p <;> decide)
  | sigReference t =>
      obtain ⟨c, hc, hlead⟩ := leadsReference (s := .key) t
      exact absurd (lead_eq_lead ht hu rfl hc h ▸ hlead) (not_leadsReference_code _ p)

theorem Unique.sigVoid : Unique .sigVoid := by
  intro u r r' ht hu _ _ h
  cases u with
  | sigVoid => exact ⟨rfl, (List.cons.inj h).2⟩
  | sigPrimitive q => exact absurd (lead_eq_lead ht hu rfl rfl h) (by cases q <;> decide)
  | sigReference t =>
      obtain ⟨c, hc, hlead⟩ := leadsReference (s := .key) t
      obtain rfl := lead_eq_lead ht hu rfl hc h
      simp [LeadsReference] at hlead

theorem Unique.sigReference {t : TypeTree Unit .referenceType} (ht : Unique t) :
    Unique (.sigReference t) := by
  intro u r r' hs hu _ _ h
  obtain ⟨c, hc, hlead⟩ := leadsReference (s := .key) t
  cases u with
  | sigReference t' =>
      obtain ⟨rfl, hrest⟩ := ht t' r r' hs hu trivial trivial h
      exact ⟨rfl, hrest⟩
  | sigPrimitive q =>
      exact absurd (lead_eq_lead hs hu hc rfl h ▸ hlead) (not_leadsReference_code _ q)
  | sigVoid =>
      obtain rfl := lead_eq_lead hs hu hc rfl h
      simp [LeadsReference] at hlead

theorem Unique.refClass {c : TypeTree Unit .classType} (hc : Unique c) : Unique (.refClass c) := by
  intro u r r' ht hu _ _ h
  cases u with
  | refClass c' =>
      obtain ⟨rfl, hrest⟩ := hc c' (';' :: r) (';' :: r') ht hu rfl rfl h
      exact ⟨rfl, (List.cons.inj hrest).2⟩
  | refArray a => exact absurd (lead_eq_lead ht hu rfl rfl h) (by decide)
  | refVariable v => cases v <;> exact absurd (lead_eq_lead ht hu rfl rfl h) (by decide)

theorem Unique.refArray {a : TypeTree Unit .arrayType} (ha : Unique a) : Unique (.refArray a) := by
  intro u r r' ht hu _ _ h
  cases u with
  | refArray a' =>
      obtain ⟨rfl, hrest⟩ := ha a' r r' ht hu trivial trivial h
      exact ⟨rfl, hrest⟩
  | refClass c => exact absurd (lead_eq_lead ht hu rfl rfl h) (by decide)
  | refVariable v => cases v <;> exact absurd (lead_eq_lead ht hu rfl rfl h) (by decide)

theorem Unique.refVariable {v : TypeTree Unit .typeVariable} (hv : Unique v) :
    Unique (.refVariable v) := by
  intro u r r' ht hu _ _ h
  cases u with
  | refVariable v' =>
      obtain ⟨rfl, hrest⟩ := hv v' r r' ht hu trivial trivial h
      exact ⟨rfl, hrest⟩
  | _ => cases v <;> exact absurd (lead_eq_lead ht hu rfl rfl h) (by decide)

theorem Unique.throwsClass {c : TypeTree Unit .classType} (hc : Unique c) :
    Unique (.throwsClass c) := by
  intro u r r' ht hu _ _ h
  cases u with
  | throwsClass c' =>
      obtain ⟨rfl, hrest⟩ := hc c' (';' :: r) (';' :: r') ht hu rfl rfl h
      exact ⟨rfl, (List.cons.inj hrest).2⟩
  | throwsVariable v => cases v <;> exact absurd (lead_eq_lead ht hu rfl rfl h) (by decide)

theorem Unique.throwsVariable {v : TypeTree Unit .typeVariable} (hv : Unique v) :
    Unique (.throwsVariable v) := by
  intro u r r' ht hu _ _ h
  cases u with
  | throwsVariable v' =>
      obtain ⟨rfl, hrest⟩ := hv v' r r' ht hu trivial trivial h
      exact ⟨rfl, hrest⟩
  | throwsClass c => cases v <;> exact absurd (lead_eq_lead ht hu rfl rfl h) (by decide)

theorem Unique.arrayType {d : Nat} {b : TypeTree Unit .typeSignature} (hb : Unique b) :
    Unique (.arrayType () d b) := by
  intro u r r' ht hu _ _ h
  cases u with
  | arrayType i d' b' =>
      obtain ⟨rfl, htail⟩ := dimension_eq (head?_write_typeBase ht.2.2 ht.2.1 r)
        (head?_write_typeBase hu.2.2 hu.2.1 r') h
      obtain ⟨rfl, hrest⟩ := hb b' r r' ht.2.2 hu.2.2 trivial trivial htail
      exact ⟨rfl, hrest⟩

theorem Unique.boundVariable {d : TypeTree Unit .typeParameter} (hd : Unique d) :
    Unique (.boundVariable () d) := by
  intro u r r' ht hu _ _ h
  cases u with
  | boundVariable i d' =>
      obtain ⟨rfl, hrest⟩ := hd d' (';' :: r) (';' :: r') ht hu (by simp [Ends]) (by simp [Ends])
        (List.cons.inj h).2
      exact ⟨rfl, (List.cons.inj hrest).2⟩
  | freeVariable i n => exact absurd (lead_eq_lead ht hu rfl rfl h) (by decide)

theorem Unique.freeVariable (n : String) : Unique (.freeVariable () n) := by
  intro u r r' ht hu _ _ h
  cases u with
  | freeVariable i n' =>
      have hstop : ∀ {m : String}, Name.IsSimpleName m → ∀ c ∈ m.toList, ¬ c = ';' :=
        fun hm c hc => ne_of_not_delimiter (hm.clean c hc).1 rfl
      obtain ⟨rfl, hrest⟩ := name_eq_of_stops (hstop ht) (hstop hu) ⟨_, rfl, rfl⟩ ⟨_, rfl, rfl⟩
        (List.cons.inj h).2
      exact ⟨rfl, (List.cons.inj hrest).2⟩
  | boundVariable i d => exact absurd (lead_eq_lead ht hu rfl rfl h) (by decide)

/-! ## Classes, by their spines -/

/-- What follows the name of a class in a class type. -/
def EndsSegmentName (c : Char) : Prop :=
  c = '<' ∨ c = '.' ∨ c = ';'

/-- A segment that may stand in a well-formed class type. -/
def CleanSegment (e : Segment Unit) : Prop :=
  (∀ c ∈ e.1.toList, Name.isDelimiter c = false ∧ c ≠ '.') ∧ e.2.WellFormed

theorem CleanSegment.name_stops {e : Segment Unit} (he : CleanSegment e) :
    ∀ c ∈ e.1.toList, ¬ EndsSegmentName c := by
  rintro c hc (rfl | rfl | rfl)
  · exact absurd (he.1 _ hc).1 (by decide)
  · exact (he.1 _ hc).2 rfl
  · exact absurd (he.1 _ hc).1 (by decide)

/-- After the arguments of a class another class follows, or the end. -/
theorem head?_dotted (es : List (Segment Unit)) {r : List Char} (hr : r.head? = some ';') :
    (dotted .key es r).head? = some '.' ∨ (dotted .key es r).head? = some ';' := by
  cases es with
  | nil => exact Or.inr hr
  | cons e es => exact Or.inl rfl

theorem head?_angled (as : TypeTree Unit (.list .typeArgument)) {r : List Char}
    (hr : r.head? = some '.' ∨ r.head? = some ';') :
    ∃ c, (TypeTree.angled as.isNil (as.write .key) r).head? = some c ∧ EndsSegmentName c := by
  cases as with
  | nil =>
      rcases hr with hr | hr
      · exact ⟨'.', hr, Or.inr (Or.inl rfl)⟩
      · exact ⟨';', hr, Or.inr (Or.inr rfl)⟩
  | cons a as => exact ⟨'<', rfl, Or.inl rfl⟩

/-- A spine can be told from the way in which it is written. -/
theorem spine_eq_of_dotted {es fs : List (Segment Unit)} {r r' : List Char}
    (hunique : ∀ e ∈ es, Unique e.2) (hes : ∀ e ∈ es, CleanSegment e)
    (hfs : ∀ e ∈ fs, CleanSegment e) (hr : r.head? = some ';') (hr' : r'.head? = some ';')
    (h : dotted .key es r = dotted .key fs r') : es = fs ∧ r = r' := by
  induction es generalizing fs with
  | nil =>
      cases fs with
      | nil => exact ⟨rfl, h⟩
      | cons f fs => simp [show r = '.' :: _ from h] at hr
  | cons e es ih =>
      cases fs with
      | nil => simp [show r' = '.' :: _ from h.symm] at hr'
      | cons f fs =>
          rw [List.forall_mem_cons] at hunique hes hfs
          have hopen : ∀ (es : List (Segment Unit)) {r : List Char}, r.head? = some ';' →
              (dotted .key es r).head? ≠ some '<' := by
            intro es r hr
            rcases head?_dotted es hr with hhead | hhead <;> simp [hhead]
          obtain ⟨hname, htail⟩ := name_eq_of_stops hes.1.name_stops hfs.1.name_stops
            (head?_angled e.2 (head?_dotted es hr)) (head?_angled f.2 (head?_dotted fs hr'))
            (List.cons.inj h).2
          obtain ⟨harguments, hdots⟩ := hunique.1.angled (fun _ _ => rfl) hes.1.2 hfs.1.2
            (hopen es hr) (hopen fs hr') htail
          obtain ⟨rfl, hend⟩ := ih hunique.2 hes.2 hfs.2 hdots
          exact ⟨congrArg (· :: es) (Prod.ext hname harguments), hend⟩

mutual

theorem eq_of_spine_eq (c c' : TypeTree Unit .classType) (h : c.spine = c'.spine) : c = c' := by
  match c, c' with
  | .classType _ o n as, .classType _ o' n' as' =>
      obtain ⟨ho, hlast⟩ := List.append_inj' h rfl
      obtain ⟨rfl, rfl⟩ := Prod.mk.inj (List.singleton_inj.mp hlast)
      rw [eq_of_spine_eq_enclosing o o' ho]

theorem eq_of_spine_eq_enclosing (o o' : TypeTree Unit .enclosing) (h : o.spine = o'.spine) :
    o = o' := by
  match o, o' with
  | .topLevel, .topLevel => rfl
  | .nestedIn c, .nestedIn c' => rw [eq_of_spine_eq c c' h]
  | .topLevel, .nestedIn (.classType _ o' n as) => simp [spine] at h
  | .nestedIn (.classType _ o n as), .topLevel => simp [spine] at h

end

/-- A class type can be told if its arguments can. -/
theorem Unique.classType {c : TypeTree Unit .classType} (hc : ∀ e ∈ c.spine, Unique e.2) :
    Unique c := by
  intro u r r' ht hu hr hr' h
  have hdots : dotted .key c.spine r = dotted .key u.spine r' := by
    rw [dotted_spine, dotted_spine, h]
  obtain ⟨hspine, hrest⟩ := spine_eq_of_dotted hc (fun _ he => clean_of_mem_spine ht he)
    (fun _ he => clean_of_mem_spine hu he) hr hr' hdots
  exact ⟨eq_of_spine_eq c u hspine, hrest⟩

/-! ## Type parameters and arguments -/

theorem Unique.noClassBound : Unique .noClassBound := by
  intro u r r' ht hu hr _ h
  cases u with
  | noClassBound => exact ⟨rfl, h⟩
  | boundedBy t =>
      obtain ⟨c, hc, hlead⟩ := leads_write_reference (s := .key) (r := t) hu r'
      have hhead : r.head? = some ':' := hr rfl
      rw [show r = t.write .key r' from h, hc] at hhead
      obtain rfl := Option.some.inj hhead
      simp [LeadsReference] at hlead

theorem Unique.boundedBy {t : TypeTree Unit .referenceType} (ht : Unique t) :
    Unique (.boundedBy t) := by
  intro u r r' hs hu _ hr' h
  cases u with
  | boundedBy t' =>
      obtain ⟨rfl, hrest⟩ := ht t' r r' hs hu trivial trivial h
      exact ⟨rfl, hrest⟩
  | noClassBound =>
      obtain ⟨c, hc, hlead⟩ := leads_write_reference (s := .key) (r := t) hs r
      have hhead : r'.head? = some ':' := hr' rfl
      rw [show r' = t.write .key r from h.symm, hc] at hhead
      obtain rfl := Option.some.inj hhead
      simp [LeadsReference] at hlead

theorem Unique.typeParameter {n : String} {c : TypeTree Unit .classBound}
    {is : TypeTree Unit (.list .referenceType)} (hc : Unique c) (his : Unique is) :
    Unique (.typeParameter () n c is) := by
  intro u r r' ht hu hr hr' h
  cases u with
  | typeParameter i n' c' is' =>
      have hstop : ∀ {m : String}, Name.IsSimpleName m → ∀ c ∈ m.toList, ¬ c = ':' := by
        rintro m hm _ hc rfl
        exact absurd (hm.clean _ hc).2 (by decide)
      obtain ⟨rfl, hbounds⟩ := name_eq_of_stops (hstop ht.1) (hstop hu.1) ⟨_, rfl, rfl⟩
        ⟨_, rfl, rfl⟩ h
      -- Without a class bound an interface bound follows, and that begins with a colon.
      obtain ⟨rfl, htail⟩ := hc c' _ _ ht.2.2.1 hu.2.2.1
        (fun hnone => head?_write_interfaceBounds (ht.2.1 hnone) r)
        (fun hnone => head?_write_interfaceBounds (hu.2.1 hnone) r') (List.cons.inj hbounds).2
      obtain ⟨rfl, hrest⟩ := his is' r r' ht.2.2.2 hu.2.2.2 hr hr' htail
      exact ⟨rfl, hrest⟩

theorem code_ne_of_leadsReference {d : Direction} {c : Char} (h : LeadsReference .key c) :
    d.code ≠ c := by
  rintro rfl
  cases d <;> simp [LeadsReference, Direction.code] at h

theorem Unique.wildcard : Unique .wildcard := by
  intro u r r' ht hu _ _ h
  cases u with
  | wildcard => exact ⟨rfl, (List.cons.inj h).2⟩
  | argReference t =>
      obtain ⟨c, hc, hlead⟩ := leadsReference (s := .key) t
      obtain rfl := lead_eq_lead ht hu rfl hc h
      simp [LeadsReference] at hlead
  | argBounded b =>
      cases b with
      | boundedArgument i d t =>
          exact absurd (lead_eq_lead ht hu rfl rfl h) (by cases d <;> decide)

theorem Unique.argReference {t : TypeTree Unit .referenceType} (ht : Unique t) :
    Unique (.argReference t) := by
  intro u r r' hs hu _ _ h
  obtain ⟨c, hc, hlead⟩ := leadsReference (s := .key) t
  cases u with
  | argReference t' =>
      obtain ⟨rfl, hrest⟩ := ht t' r r' hs hu trivial trivial h
      exact ⟨rfl, hrest⟩
  | wildcard =>
      obtain rfl := lead_eq_lead hs hu hc rfl h
      simp [LeadsReference] at hlead
  | argBounded b =>
      cases b with
      | boundedArgument i d t' =>
          exact absurd (lead_eq_lead hs hu hc rfl h).symm (code_ne_of_leadsReference hlead)

theorem Unique.argBounded {b : TypeTree Unit .boundedArgument} (hb : Unique b) :
    Unique (.argBounded b) := by
  intro u r r' ht hu _ _ h
  cases b with
  | boundedArgument i d t =>
      cases u with
      | argBounded b' =>
          obtain ⟨rfl, hrest⟩ := hb b' r r' ht hu trivial trivial h
          exact ⟨rfl, hrest⟩
      | wildcard => exact absurd (lead_eq_lead ht hu rfl rfl h) (by cases d <;> decide)
      | argReference t' =>
          obtain ⟨c, hc, hlead⟩ := leadsReference (s := .key) t'
          exact absurd (lead_eq_lead ht hu rfl hc h) (code_ne_of_leadsReference hlead)

theorem Unique.boundedArgument {d : Direction} {t : TypeTree Unit .referenceType}
    (ht : Unique t) : Unique (.boundedArgument () d t) := by
  intro u r r' hs hu _ _ h
  cases u with
  | boundedArgument i d' t' =>
      obtain ⟨hcode, htail⟩ := List.cons.inj h
      obtain rfl : d = d' := by
        cases d <;> cases d' <;> first | rfl | exact absurd hcode (by decide)
      obtain ⟨rfl, hrest⟩ := ht t' r r' hs hu trivial trivial htail
      exact ⟨rfl, hrest⟩

/-! ## Declarations -/

theorem Unique.methodSignature {ts : TypeTree Unit (.list .typeParameter)}
    {ps : TypeTree Unit (.list .typeSignature)} {t : TypeTree Unit .typeSignature}
    {es : TypeTree Unit (.list .throwsType)} (hts : Unique ts) (hps : Unique ps) (ht : Unique t)
    (hes : Unique es) : Unique (.methodSignature () ts ps t es) := by
  intro u r r' hm hu hr hr' h
  cases u with
  | methodSignature i ts' ps' t' es' =>
      obtain ⟨-, hwts, hwps, hwt, hwes⟩ := hm
      obtain ⟨-, hwts', hwps', hwt', hwes'⟩ := hu
      obtain ⟨rfl, hparameters⟩ :=
        hts.angled (fun _ _ => rfl) hwts hwts' (by simp) (by simp) h
      obtain ⟨rfl, hresult⟩ := hps ps' (')' :: _) (')' :: _) hwps hwps' rfl rfl
        (List.cons.inj hparameters).2
      obtain ⟨rfl, hthrows⟩ := ht t' _ _ hwt hwt' trivial trivial (List.cons.inj hresult).2
      obtain ⟨rfl, hrest⟩ := hes es' r r' hwes hwes' hr hr' hthrows
      exact ⟨rfl, hrest⟩

theorem Unique.classSignature {ts : TypeTree Unit (.list .typeParameter)}
    {c : TypeTree Unit .classType} {is : TypeTree Unit (.list .classType)} (hts : Unique ts)
    (hc : Unique c) (his : Unique is) : Unique (.classSignature () ts c is) := by
  intro u r r' hs hu hr hr' h
  cases u with
  | classSignature i ts' c' is' =>
      -- A class type cannot be taken for type parameters.
      have hopen : ∀ {c : TypeTree Unit .classType} (s : List Char), c.WellFormed →
          (c.write .key s).head? ≠ some '<' := by
        intro c s hc
        cases c with
        | classType i o n as => simp [head?_write hc rfl s]
      obtain ⟨rfl, hclass⟩ :=
        hts.angled (fun _ _ => rfl) hs.1 hu.1 (hopen _ hs.2.1) (hopen _ hu.2.1) h
      obtain ⟨rfl, hinterfaces⟩ := hc c' (';' :: _) (';' :: _) hs.2.1 hu.2.1 rfl rfl hclass
      obtain ⟨rfl, hrest⟩ := his is' r r' hs.2.2 hu.2.2 hr hr' (List.cons.inj hinterfaces).2
      exact ⟨rfl, hrest⟩

/-! ## Lists -/

/-- A list that is not empty does not begin like what may follow a list. -/
theorem head?_write_cons_ne {f : Form} {x : TypeTree Unit f} {xs vs : TypeTree Unit (.list f)}
    (h : (TypeTree.cons x xs).WellFormed) {r : List Char} (hr : vs.Ends r) (s : List Char) :
    ((TypeTree.cons x xs).write .key s).head? ≠ r.head? := by
  cases f with
  | typeDescriptor =>
      obtain ⟨c, hc, hne⟩ := lead_typeDescriptor .key x
      rw [show r.head? = some ')' from hr, head?_write_cons rfl h.1 hc]
      exact fun heq => hne (Option.some.inj heq)
  | typeSignature =>
      obtain ⟨c, hc, hne⟩ := lead_typeSignature .key x
      rw [show r.head? = some ')' from hr, head?_write_cons rfl h.1 hc]
      exact fun heq => hne (Option.some.inj heq)
  | typeArgument =>
      obtain ⟨c, hc, hne⟩ := lead_typeArgument .key x
      rw [show r.head? = some '>' from hr, head?_write_cons rfl h.1 hc]
      exact fun heq => hne (Option.some.inj heq)
  | typeParameter =>
      obtain ⟨c, hc, hne, -⟩ := lead_typeParameter .key h.1
      rw [show r.head? = some '>' from hr, head?_write_cons rfl h.1 hc]
      exact fun heq => hne (Option.some.inj heq)
  | classType =>
      cases x with
      | classType i o n as =>
          rw [head?_write_cons rfl h.1 rfl]
          exact fun heq => hr heq.symm
  | referenceType => exact fun heq => hr heq.symm
  | throwsType => exact fun heq => hr heq.symm
  | _ => exact hr.elim

/-- What follows an entry of a list may follow it. -/
theorem ends_entry {f : Form} {x : TypeTree Unit f} {xs vs : TypeTree Unit (.list f)}
    (hxs : xs.WellFormed) {r : List Char} (hr : vs.Ends r) :
    x.Ends (f.closing ++ xs.write .key r) := by
  cases f with
  | classType => rfl
  | typeParameter =>
      cases xs with
      | nil =>
          intro hhead
          have hclose : r.head? = some '>' := hr
          exact absurd (hclose.symm.trans hhead) (by decide)
      | cons y ys =>
          obtain ⟨c, hc, -, hne⟩ := lead_typeParameter .key hxs.1
          intro hhead
          rw [show Form.typeParameter.closing = [] from rfl, List.nil_append,
            head?_write_cons rfl hxs.1 hc] at hhead
          exact hne (Option.some.inj hhead)
  | typeDescriptor | typeSignature | referenceType | throwsType | typeArgument => exact trivial
  | _ => exact hr.elim

theorem Unique.nil {f : Form} : Unique (.nil : TypeTree Unit (.list f)) := by
  intro u r r' _ hu hr _ h
  cases u with
  | nil => exact ⟨rfl, h⟩
  | cons x xs => exact absurd (congrArg List.head? h).symm (head?_write_cons_ne hu hr r')

theorem Unique.cons {f : Form} {x : TypeTree Unit f} {xs : TypeTree Unit (.list f)}
    (hx : Unique x) (hxs : Unique xs) : Unique (.cons x xs) := by
  intro u r r' ht hu hr hr' h
  cases u with
  | nil => exact absurd (congrArg List.head? h) (head?_write_cons_ne ht hr' r)
  | cons x' xs' =>
      have hends : xs.Ends r ∧ xs'.Ends r' := by
        cases f with
        | list f => exact ⟨hr, hr'⟩
        | _ => exact ⟨hr, hr'⟩
      obtain ⟨rfl, hlist⟩ := hx x' _ _ ht.1 hu.1 (ends_entry ht.2 hr) (ends_entry hu.2 hr')
        (List.append_cancel_left h)
      obtain ⟨rfl, hrest⟩ := hxs xs' r r' ht.2 hu.2 hends.1 hends.2
        (List.append_cancel_left hlist)
      exact ⟨rfl, hrest⟩

/-! ## Every tree -/

/-- What the induction carries: that a tree can be told, or, for what is read by
its spine, that the arguments in the spine can. -/
def Determined : {f : Form} → TypeTree Unit f → Prop
  | .classType, c => ∀ e ∈ c.spine, Unique e.2
  | .enclosing, o => ∀ e ∈ o.spine, Unique e.2
  | _, t => Unique t

theorem Determined.unique {f : Form} {t : TypeTree Unit f} (h : t.Determined) : Unique t := by
  cases f with
  | classType => exact .classType h
  | enclosing => exact fun _ _ _ _ _ hends => hends.elim
  | _ => exact h

/-- **Unique readability.** -/
theorem determined {f : Form} (t : TypeTree Unit f) : t.Determined := by
  induction t with
  | primitive p => exact .primitive p
  | descPrimitive p => exact .descPrimitive p
  | descVoid => exact .descVoid
  | descClass c hc => exact .descClass hc
  | descArray a ha => exact .descArray ha
  | classDescriptor i n => exact .classDescriptor n
  | arrayDescriptor i d b hb => exact .arrayDescriptor hb
  | methodDescriptor i ps r hps hr => exact .methodDescriptor hps hr
  | sigPrimitive p => exact .sigPrimitive p
  | sigVoid => exact .sigVoid
  | sigReference r hr => exact .sigReference hr
  | refClass c hc => exact .refClass (.classType hc)
  | refArray a ha => exact .refArray ha
  | refVariable v hv => exact .refVariable hv
  | throwsClass c hc => exact .throwsClass (.classType hc)
  | throwsVariable v hv => exact .throwsVariable hv
  | classType i o n as ho has =>
      intro e he
      rcases List.mem_append.mp he with he | he
      · exact ho e he
      · obtain rfl := List.mem_singleton.mp he
        exact has
  | topLevel => exact fun e he => nomatch he
  | nestedIn c hc => exact hc
  | arrayType i d b hb => exact .arrayType hb
  | boundVariable i d hd => exact .boundVariable hd
  | freeVariable i n => exact .freeVariable n
  | typeParameter i n c is hc his => exact .typeParameter hc his
  | noClassBound => exact .noClassBound
  | boundedBy r hr => exact .boundedBy hr
  | wildcard => exact .wildcard
  | argReference r hr => exact .argReference hr
  | argBounded b hb => exact .argBounded hb
  | boundedArgument i d r hr => exact .boundedArgument hr
  | methodSignature i ts ps r es hts hps hr hes => exact .methodSignature hts hps hr hes
  | classSignature i ts c is hts hc his => exact .classSignature hts (.classType hc) his
  | nil => exact .nil
  | cons x xs hx hxs => exact .cons hx.unique hxs

/-- What ends a key may follow it. -/
theorem ends_closing {k : Composite} (t : TypeTree Unit k.form) : t.Ends k.form.closing := by
  cases k with
  | classType => rfl
  | typeParameter | methodSignature | classSignature => exact nofun
  | _ => exact trivial

/-- **Keys are injective over structure.** Two well-formed trees of one kind have the
same key exactly if they are equal as types. -/
theorem key_eq_iff {ι κ : Type} {k : Composite} {a : TypeTree ι k.form} {b : TypeTree κ k.form}
    (ha : a.WellFormed) (hb : b.WellFormed) : a.key = b.key ↔ a.plain = b.plain := by
  rw [← key_plain a, ← key_plain b]
  constructor
  · intro h
    have hwrite : a.plain.write .key k.form.closing = b.plain.write .key k.form.closing :=
      String.ofList_injective h
    exact ((determined a.plain).unique b.plain _ _ ((wellFormed_plain a).mpr ha)
      ((wellFormed_plain b).mpr hb) (ends_closing _) (ends_closing _) hwrite).1
  · exact congrArg key

end ClassfileTypes.TypeTree
