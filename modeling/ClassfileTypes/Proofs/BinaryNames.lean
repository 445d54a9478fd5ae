import ClassfileTypes.Proofs.FirstBounds

/-!
# Binary names and texts

The erasure of a class type can be read off its text. The angle brackets of every encoding are
balanced, whatever is between them, and no name holds one. So without the outermost groups only
the names of the classes are left, with the dots between them, and dollars in place of the dots
make them the binary name. A binary name is a class name, which is why the descriptor need not
be checked.
-/

namespace ClassfileTypes

/-! ## Balanced brackets -/

namespace Text

/-- Every bracket that is opened is closed, and no other one is. -/
inductive Balanced : List Char → Prop
  | nil : Balanced []
  | cons {c : Char} {s : List Char} (hopen : c ≠ '<') (hclose : c ≠ '>') (hs : Balanced s) :
      Balanced (c :: s)
  | group {g s : List Char} (hg : Balanced g) (hs : Balanced s) :
      Balanced ('<' :: (g ++ '>' :: s))

/-- The second text is the first one without its outermost groups. -/
inductive Ungroups : List Char → List Char → Prop
  | nil : Ungroups [] []
  | cons {c : Char} {s u : List Char} (hopen : c ≠ '<') (hclose : c ≠ '>') (hs : Ungroups s u) :
      Ungroups (c :: s) (c :: u)
  | group {g s u : List Char} (hg : Balanced g) (hs : Ungroups s u) :
      Ungroups ('<' :: (g ++ '>' :: s)) u

/-- The characters that no bracket is open at, where `depth` are open in front of the text. -/
def outside (depth : Nat) : List Char → List Char
  | [] => []
  | c :: s =>
      if c = '<' then outside (depth + 1) s
      else if c = '>' then outside (depth - 1) s
      else if depth = 0 then c :: outside 0 s
      else outside depth s

/-- Dots become dollars. -/
def dollared (s : List Char) : List Char :=
  s.map fun c => if c = '.' then '$' else c

section

variable {c : Char} {g s u : List Char} {depth : Nat}

@[simp] theorem outside_open : outside depth ('<' :: s) = outside (depth + 1) s := by
  simp [outside]

@[simp] theorem outside_close : outside (depth + 1) ('>' :: s) = outside depth s := by
  simp [outside]

theorem outside_zero_cons (hopen : c ≠ '<') (hclose : c ≠ '>') :
    outside 0 (c :: s) = c :: outside 0 s := by
  simp [outside, hopen, hclose]

theorem outside_succ_cons (hopen : c ≠ '<') (hclose : c ≠ '>') :
    outside (depth + 1) (c :: s) = outside (depth + 1) s := by
  simp [outside, hopen, hclose]

/-- Where a bracket is open, what is balanced is passed over. -/
theorem Balanced.outside_succ (hg : Balanced g) (depth : Nat) (s : List Char) :
    outside (depth + 1) (g ++ s) = outside (depth + 1) s := by
  induction hg generalizing depth s with
  | nil => rfl
  | cons hopen hclose _ ih => rw [List.cons_append, outside_succ_cons hopen hclose, ih]
  | @group g s' _ _ ihg ihs =>
      calc outside (depth + 1) ('<' :: (g ++ '>' :: s') ++ s)
          = outside (depth + 2) (g ++ '>' :: (s' ++ s)) := by simp
        _ = outside (depth + 2) ('>' :: (s' ++ s)) := ihg (depth + 1) _
        _ = outside (depth + 1) (s' ++ s) := outside_close
        _ = outside (depth + 1) s := ihs depth s

theorem Balanced.outside_group (hg : Balanced g) (s : List Char) :
    outside 0 ('<' :: (g ++ '>' :: s)) = outside 0 s := by
  rw [outside_open, hg.outside_succ, outside_close]

/-- **Counting brackets takes away the outermost groups**, and there is no other way to do so. -/
theorem ungroups_iff (hs : Balanced s) : Ungroups s u ↔ outside 0 s = u := by
  constructor
  · intro h
    clear hs
    induction h with
    | nil => rfl
    | cons hopen hclose _ ih => rw [outside_zero_cons hopen hclose, ih]
    | group hg _ ih => rw [hg.outside_group, ih]
  · rintro rfl
    induction hs with
    | nil => exact .nil
    | cons hopen hclose _ ih =>
        rw [outside_zero_cons hopen hclose]
        exact .cons hopen hclose ih
    | group hg _ _ ih =>
        rw [hg.outside_group]
        exact .group hg ih

/-! ## Characters that are no brackets -/

/-- No bracket stands in the text. -/
def Flat (g : List Char) : Prop :=
  ∀ c ∈ g, c ≠ '<' ∧ c ≠ '>'

instance (g : List Char) : Decidable (Flat g) :=
  List.decidableBAll (fun c => c ≠ '<' ∧ c ≠ '>') g

theorem flat_of_no_delimiter (h : ∀ c ∈ g, Name.isDelimiter c = false) : Flat g := by
  intro c hc
  have hdelimiter := h c hc
  constructor
  · rintro rfl
    exact nomatch hdelimiter
  · rintro rfl
    exact nomatch hdelimiter

theorem flat_replicate (h : c ≠ '<' ∧ c ≠ '>') (n : Nat) : Flat (List.replicate n c) := by
  intro d hd
  rwa [List.eq_of_mem_replicate hd]

theorem Balanced.append_flat (hg : Flat g) (hs : Balanced s) : Balanced (g ++ s) := by
  induction g with
  | nil => exact hs
  | cons c g ih =>
      obtain ⟨⟨hopen, hclose⟩, hg⟩ := List.forall_mem_cons.mp hg
      exact .cons hopen hclose (ih hg)

theorem outside_append_flat (hg : Flat g) (s : List Char) :
    outside 0 (g ++ s) = g ++ outside 0 s := by
  induction g with
  | nil => rfl
  | cons c g ih =>
      obtain ⟨⟨hopen, hclose⟩, hg⟩ := List.forall_mem_cons.mp hg
      rw [List.cons_append, outside_zero_cons hopen hclose, ih hg, List.cons_append]

theorem dollared_append (h : ∀ c ∈ g, c ≠ '.') (s : List Char) :
    dollared (g ++ s) = g ++ dollared s := by
  unfold dollared
  rw [List.map_append, List.map_congr_left fun c hc => if_neg (h c hc), List.map_id']

end

end Text

/-! ## Texts of trees -/

namespace TypeTree

open Text

variable {ι : Type} {sp : Spelling} {f : Form} {r : List Char}

theorem balanced_angled (isNil : Bool) {write : List Char → List Char}
    (happend : ∀ r, write r = write [] ++ r) (hwrite : Balanced (write []))
    (hr : Balanced r) : Balanced (angled isNil write r) := by
  cases isNil with
  | true => exact hr
  | false =>
      show Balanced ('<' :: write ('>' :: r))
      rw [happend]
      exact .group hwrite hr

theorem write_eq_append (sp : Spelling) (t : TypeTree ι f) (r : List Char) :
    t.write sp r = t.write sp [] ++ r :=
  write_append sp t [] r

theorem flat_of_isSimpleName {n : String} (h : Name.IsSimpleName n) : Flat n.toList :=
  flat_of_no_delimiter fun c hc => (h.clean c hc).1

theorem flat_of_isClassName {n : String} (h : Name.IsClassName n) : Flat n.toList :=
  flat_of_no_delimiter fun c hc => (h.clean c hc).1

/-- The name of a class has no bracket and no dot, wherever the class stands. -/
theorem AcceptsName.clean {o : TypeTree ι .enclosing} {n : String} (h : o.AcceptsName n) :
    Flat n.toList ∧ ∀ c ∈ n.toList, c ≠ '.' := by
  cases o with
  | topLevel =>
      have hname : Name.IsClassName n := h
      exact ⟨flat_of_isClassName hname, fun c hc => (hname.clean c hc).2⟩
  | nestedIn c =>
      have hname : Name.IsSimpleName n := h
      refine ⟨flat_of_isSimpleName hname, ?_⟩
      rintro c hc rfl
      exact nomatch (hname.clean '.' hc).2

theorem flat_opening (f : Form) : Flat f.opening := by
  cases f with
  | throwsType | referenceType => decide
  | _ => exact fun c hc => absurd hc List.not_mem_nil

theorem flat_closing (f : Form) : Flat f.closing := by
  cases f with
  | classType => decide
  | _ => exact fun c hc => absurd hc List.not_mem_nil

/-- **In every encoding the brackets are balanced.** -/
theorem balanced_write {t : TypeTree ι f} (ht : t.WellFormed) (hr : Balanced r) :
    Balanced (t.write sp r) := by
  induction t generalizing r with
  | primitive p | descPrimitive p | sigPrimitive p =>
      exact .append_flat (g := [p.code]) (by cases p <;> decide) hr
  | descVoid | sigVoid => exact .append_flat (g := ['V']) (by decide) hr
  | wildcard => exact .append_flat (g := ['*']) (by decide) hr
  | topLevel => exact .append_flat (g := ['L']) (by decide) hr
  | noClassBound | nil => exact hr
  | descClass t ih | descArray t ih | sigReference t ih | refArray t ih | refVariable t ih
  | throwsVariable t ih | boundedBy t ih | argReference t ih | argBounded t ih => exact ih ht hr
  | refClass c ih | throwsClass c ih => exact ih ht (.append_flat (g := [';']) (by decide) hr)
  | nestedIn c ih => exact ih ht (.append_flat (g := ['.']) (by decide) hr)
  | classDescriptor i n =>
      have hname := Balanced.append_flat (flat_of_isClassName ht)
        (.append_flat (g := [';']) (by decide) hr)
      exact .append_flat (g := ['L']) (by decide) hname
  | freeVariable i n =>
      have hname := Balanced.append_flat (flat_of_isSimpleName ht)
        (.append_flat (g := [';']) (by decide) hr)
      exact .append_flat (g := ['T']) (by decide) hname
  | arrayDescriptor i d b ih | arrayType i d b ih =>
      exact .append_flat (flat_replicate (by decide) d) (ih ht.2.2 hr)
  | methodDescriptor i ps t ihps iht =>
      have hps := ihps ht.2.1 (.append_flat (g := [')']) (by decide) (iht ht.2.2 hr))
      exact .append_flat (g := ['(']) (by decide) hps
  | classType i o n as iho ihas =>
      have has := balanced_angled as.isNil (write_eq_append sp as) (ihas ht.2.2 .nil) hr
      exact iho ht.2.1 (.append_flat ht.1.clean.1 has)
  | boundVariable i d ih =>
      cases sp with
      | internal =>
          -- The text has the name of the declaration only.
          cases d with
          | typeParameter j n c is =>
              have hname := Balanced.append_flat (flat_of_isSimpleName ht.1)
                (.append_flat (g := [';']) (by decide) hr)
              exact .append_flat (g := ['T']) (by decide) hname
      | key =>
          exact .append_flat (g := ['#']) (by decide)
            (ih ht (.append_flat (g := [';']) (by decide) hr))
  | typeParameter i n c is ihc ihis =>
      have hbounds := ihc ht.2.2.1 (ihis ht.2.2.2 hr)
      exact .append_flat (flat_of_isSimpleName ht.1) (.append_flat (g := [':']) (by decide) hbounds)
  | boundedArgument i d t ih =>
      exact .append_flat (g := [d.code]) (by cases d <;> decide) (ih ht hr)
  | methodSignature i ts ps t es ihts ihps iht ihes =>
      obtain ⟨-, hts, hps, ht, hes⟩ := ht
      have hrest := ihps hps (.append_flat (g := [')']) (by decide) (iht ht (ihes hes hr)))
      exact balanced_angled ts.isNil (write_eq_append sp ts) (ihts hts .nil)
        (.append_flat (g := ['(']) (by decide) hrest)
  | classSignature i ts c is ihts ihc ihis =>
      obtain ⟨hts, hc, his⟩ := ht
      have hrest := ihc hc (.append_flat (g := [';']) (by decide) (ihis his hr))
      exact balanced_angled ts.isNil (write_eq_append sp ts) (ihts hts .nil) hrest
  | @cons f x xs ihx ihxs =>
      have hxs := Balanced.append_flat (flat_closing f) (ihxs ht.2 hr)
      exact .append_flat (flat_opening f) (ihx ht.1 hxs)

/-- Arguments are in brackets, so nothing of them is outside. -/
theorem outside_angled {as : TypeTree ι (.list f)} (has : as.WellFormed) (r : List Char) :
    outside 0 (angled as.isNil (as.write sp) r) = outside 0 r := by
  cases as with
  | nil => rfl
  | cons x xs =>
      show outside 0 ('<' :: (TypeTree.cons x xs).write sp ('>' :: r)) = _
      rw [write_eq_append]
      exact (balanced_write has .nil).outside_group r

mutual

/-- **Outside of all brackets stand the names of the classes**, with dots between them. -/
theorem dollared_outside_write (c : TypeTree ι .classType) (hc : c.WellFormed) (r : List Char) :
    dollared (outside 0 (c.write sp r)) =
      'L' :: (c.binaryName.toList ++ dollared (outside 0 r)) := by
  match c with
  | .classType _ o n as =>
      obtain ⟨hname, ho, has⟩ := hc
      have htail : dollared (outside 0 (n.toList ++ angled as.isNil (as.write sp) r)) =
          n.toList ++ dollared (outside 0 r) := by
        rw [outside_append_flat hname.clean.1, outside_angled has,
          dollared_append hname.clean.2]
      rw [write, dollared_outside_write_enclosing o ho, htail]
      cases o with
      | topLevel => rfl
      | nestedIn o => simp [binaryName]

/-- Behind an outer class stands a dollar. -/
theorem dollared_outside_write_enclosing (o : TypeTree ι .enclosing) (ho : o.WellFormed)
    (r : List Char) :
    dollared (outside 0 (o.write sp r)) =
      match o with
      | .topLevel => 'L' :: dollared (outside 0 r)
      | .nestedIn c => 'L' :: (c.binaryName.toList ++ '$' :: dollared (outside 0 r)) := by
  match o with
  | .topLevel => rfl
  | .nestedIn c => exact dollared_outside_write c ho ('.' :: r)

end

/-- The text of the descriptor is the text of the class type, without what is in brackets. -/
theorem internal_binaryName {c : TypeTree ι .classType} (hc : c.WellFormed) :
    (classDescriptor () c.binaryName).internal =
      String.ofList (dollared (outside 0 c.internal.toList)) := by
  unfold internal text
  rw [String.toList_ofList, dollared_outside_write c hc]
  rfl

end TypeTree

/-! ## In sessions -/

namespace Pool

open TypeTree

variable {canonical : Prop} {p : Pool} {c : TypeTree Nat .classType}

/-- The erasure of a class type is its binary name. -/
theorem run_erase_classType (hs : Sound canonical p) (hc : c.WellFormed) :
    ((c.erase : ExceptT TypeError PoolM _).run p).1.map plain =
      .ok (.classDescriptor () c.binaryName) := by
  cases c with
  | classType i o n as =>
      have h : Refines canonical (Tagged canonical) p
          (ε := TypeError) (ExceptT.lift (MonadPool.intern (TypeTree.classDescriptor · _))) _ :=
        Refines.lift (runs_classDescriptor (isClassName_binaryName _ hc))
      exact h.map_plain hs

/-- A descriptor can be made of the binary name. -/
theorem run_makeClassDescriptor_binaryName (hs : Sound canonical p) (hc : c.WellFormed) :
    ((makeClassDescriptor c.binaryName : ExceptT TypeError PoolM _).run p).1.map plain =
      .ok (.classDescriptor () c.binaryName) := by
  rw [(refines_makeClassDescriptor c.binaryName).map_plain hs]
  exact run_makeClassDescriptor (i := ()) (isClassName_binaryName c hc)

end Pool

namespace Session

open TypeTree

/-- **The erasure of a class agrees with its text.** If the outermost bracket groups are taken
out of the text of a class type, and dots are replaced by dollars in what is left, this is the
text of a descriptor. In every session the class type erases to this descriptor, and it is what
the checked construction makes of the binary name. -/
theorem erases_to_ungrouped {c : TypeTree Nat .classType} (hc : c.WellFormed) :
    let text := c.internal.toList
    let ungrouped := Text.outside 0 text
    Text.Ungroups text ungrouped ∧
      ∃ d : TypeTree Unit .classDescriptor, d.internal = String.ofList (Text.dollared ungrouped) ∧
        ∀ (config : Intern.Config) (steps : List Step),
          let s := (start config).after steps
          (s.erasureOf c).map plain = .ok d ∧
            ((makeClassDescriptor c.binaryName : ExceptT TypeError PoolM _).run
              s.pool).1.map plain = .ok d := by
  intro text ungrouped
  have hbalanced : Text.Balanced text := by
    show Text.Balanced (String.ofList (c.text .internal)).toList
    rw [String.toList_ofList]
    exact balanced_write hc (.append_flat (g := [';']) (by decide) .nil)
  refine ⟨(Text.ungroups_iff hbalanced).mpr rfl, .classDescriptor () c.binaryName,
    internal_binaryName hc, ?_⟩
  intro config steps s
  have hs : s.Valid False := valid_after_start config steps
  exact ⟨Pool.run_erase_classType hs.sound hc,
    Pool.run_makeClassDescriptor_binaryName hs.sound hc⟩

/-- The arguments hold a variable with its declaration, a nested class and brackets of their
own. -/
theorem erases_to_ungrouped_of_nested :
    let v : TypeTree Nat .typeVariable := .boundVariable 2
      (.typeParameter 1 "T" (.boundedBy (.refClass (.classType 0 .topLevel "x" .nil))) .nil)
    let nested : TypeTree Nat .classType := .classType 4
      (.nestedIn (.classType 3 .topLevel "c" (.cons .wildcard .nil))) "d" .nil
    let c : TypeTree Nat .classType := .classType 6
      (.nestedIn (.classType 5 .topLevel "a/b"
        (.cons (.argReference (.refVariable v)) (.cons (.argReference (.refClass nested)) .nil))))
      "e" .nil
    c.internal = "La/b<TT;Lc<*>.d;>.e;" ∧
      ((start {}).erasureOf c).map plain = .ok (.classDescriptor () "a/b$e") ∧
      ((makeClassDescriptor "a/b$e" : ExceptT TypeError PoolM _).run (start {}).pool).1.map plain =
        .ok (.classDescriptor () "a/b$e") := by
  intro v nested c
  have htop : Name.IsClassName "a/b" := Name.isClassName_of_classNameOf (n := "a.b") rfl
  have hx : Name.IsClassName "x" := Name.isClassName_of_classNameOf (n := "x") rfl
  have hc : Name.IsClassName "c" := Name.isClassName_of_classNameOf (n := "c") rfl
  have hsimple : ∀ n ∈ ["T", "d", "e"], Name.IsSimpleName n := by
    intro n hn
    simp only [List.mem_cons, List.not_mem_nil, or_false] at hn
    rcases hn with rfl | rfl | rfl <;> exact (Name.simpleNameOf_eq_ok_iff.mp rfl).2
  have hwf : c.WellFormed :=
    ⟨hsimple "e" (by simp), ⟨htop, trivial,
      ⟨hsimple "T" (by simp), by decide, ⟨hx, trivial, trivial⟩, trivial⟩,
      ⟨hsimple "d" (by simp), ⟨hc, trivial, trivial, trivial⟩, trivial⟩, trivial⟩, trivial⟩
  obtain ⟨-, d, hinternal, hsession⟩ := erases_to_ungrouped hwf
  obtain ⟨herased, hmade⟩ := hsession {} []
  have hd : d = .classDescriptor () "a/b$e" := Except.ok.inj (herased.symm.trans rfl)
  exact ⟨rfl, herased.trans (congrArg _ hd), hmade.trans (congrArg _ hd)⟩

end Session

end ClassfileTypes
