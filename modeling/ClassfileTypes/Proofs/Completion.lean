import ClassfileTypes.Proofs.RawSignatures
import ClassfileTypes.Proofs.SessionBinding
import ClassfileTypes.Proofs.Substitution

/-!
# Binding completes a tree

A tree that is bound has no names left to resolve, so binding it again gives it back,
whatever the scope. If the declarations go by the names that were asked for, it has the
texts of the tree before, and these are read as the tree before: a text does not say what
a name stands for.
-/

namespace ClassfileTypes

/-- Declarations go by the names that they are given for. -/
def Scope.NamesAgree {ι : Type} (s : Scope ι) : Prop :=
  ∀ x d, s x = some d → d.name = x

namespace TypeTree

variable {s outer : Scope Unit} {f : Form}

/-- Nothing is left to resolve in the second tree, and it has the texts of the first one if
names agree. -/
structure Completes (s : Scope Unit) (t t' : TypeTree Unit f) : Prop where
  closed : t'.freeNames = []
  internal : s.NamesAgree → t'.internal = t.internal
  readable : s.NamesAgree → t'.readable = t.readable

theorem completes_of_bind {t t' : TypeTree Unit f}
    (h : (t.bind s : ExceptT TypeError Id _).run = .ok t') : Completes s t t' := by
  obtain ⟨rfl, -⟩ := substitute_of_bind h
  exact ⟨freeNames_of_bind h, fun hs => internal_substitute hs t,
    fun hs => readable_substitute hs t⟩

/-! ## Declarations -/

/-- Declarations go by their own names. -/
theorem namesAgree_roundScope (houter : outer.NamesAgree)
    (resolved : TypeTree Unit (.list .typeParameter)) :
    (roundScope outer resolved).NamesAgree := by
  intro x d hd
  unfold roundScope Scope.within at hd
  cases hfind : Scope.ofParameters resolved.entries x with
  | some d' =>
      rw [hfind] at hd
      obtain rfl := Option.some.inj hd
      simpa using List.find?_some hfind
  | none =>
      rw [hfind] at hd
      exact houter x d hd

section

variable {declared resolved : TypeTree Unit (.list .typeParameter)}

/-- Declarations that are resolved have no free variables. -/
theorem freeNames_of_resolve (h : (resolve declared outer : ExceptT TypeError Id _).run =
    .ok resolved) : resolved.freeNames = [] := by
  have hround := Round.of_resolve h
  generalize hk : declared.entries.length = k at hround
  cases hround with
  | start =>
      cases declared with
      | nil => rfl
      | cons d ds => exact nomatch hk
  | next _ hnext => exact freeNames_of_bind hnext

/-- They have the texts that they had, and there are as many. -/
theorem texts_of_resolve (houter : outer.NamesAgree)
    (h : (resolve declared outer : ExceptT TypeError Id _).run = .ok resolved) :
    resolved.isNil = declared.isNil ∧
      (∀ rest, resolved.write .internal rest = declared.write .internal rest) ∧
        resolved.readable = declared.readable := by
  have hround := Round.of_resolve h
  generalize declared.entries.length = k at hround
  cases hround with
  | start => exact ⟨rfl, fun _ => rfl, rfl⟩
  | @next k before next _ hnext =>
      obtain ⟨rfl, -⟩ := substitute_of_bind hnext
      have hs := namesAgree_roundScope houter before
      exact ⟨isNil_substitute declared, write_substitute hs declared,
        readable_substitute hs declared⟩

/-- Declarations without free variables are resolved. -/
theorem run_resolve (hwf : declared.WellFormed) (hclosed : declared.freeNames = []) :
    (resolve declared outer : ExceptT TypeError Id _).run = .ok declared := by
  have hrounds : ∀ rounds, (resolveRounds declared outer rounds declared :
      ExceptT TypeError Id _).run = .ok declared := by
    intro rounds
    induction rounds with
    | zero => rfl
    | succ rounds ih =>
        exact run_bind_eq_ok.mpr ⟨declared, run_bind_of_freeNames hwf hclosed, ih⟩
  exact hrounds _

end

/-! ## Methods and classes -/

/-- A method that is bound, part by part. -/
theorem exists_of_bindMethod {i : Unit} {ts : TypeTree Unit (.list .typeParameter)}
    {ps : TypeTree Unit (.list .typeSignature)} {r : TypeTree Unit .typeSignature}
    {es : TypeTree Unit (.list .throwsType)} {t' : TypeTree Unit .methodSignature}
    (h : ((methodSignature i ts ps r es).bindMethod outer : ExceptT TypeError Id _).run =
      .ok t') :
    ∃ ts' ps' r' es', (resolve ts outer : ExceptT TypeError Id _).run = .ok ts' ∧
      (ps.bind (roundScope outer ts') : ExceptT TypeError Id _).run = .ok ps' ∧
      (r.bind (roundScope outer ts') : ExceptT TypeError Id _).run = .ok r' ∧
      (es.bind (roundScope outer ts') : ExceptT TypeError Id _).run = .ok es' ∧
      t' = methodSignature () ts' ps' r' es' := by
  obtain ⟨ts', hts, h⟩ := run_bind_eq_ok.mp h
  obtain ⟨ps', hps, h⟩ := run_bind_eq_ok.mp h
  obtain ⟨r', hr, h⟩ := run_bind_eq_ok.mp h
  obtain ⟨es', hes, h⟩ := run_bind_eq_ok.mp h
  exact ⟨ts', ps', r', es', hts, hps, hr, hes, (Except.ok.inj h).symm⟩

theorem completes_of_bindMethod {t t' : TypeTree Unit .methodSignature}
    (h : (t.bindMethod outer : ExceptT TypeError Id _).run = .ok t') : Completes outer t t' := by
  cases t with
  | methodSignature i ts ps r es =>
      obtain ⟨ts', ps', r', es', hts, hps, hr, hes, rfl⟩ := exists_of_bindMethod h
      obtain ⟨rfl, -⟩ := substitute_of_bind hps
      obtain ⟨rfl, -⟩ := substitute_of_bind hr
      obtain ⟨rfl, -⟩ := substitute_of_bind hes
      refine ⟨?_, fun houter => ?_, fun houter => ?_⟩
      · simp [freeNames, freeNames_of_resolve hts, freeNames_of_bind hps, freeNames_of_bind hr,
          freeNames_of_bind hes]
      · obtain ⟨hnil, hwrite, -⟩ := texts_of_resolve houter hts
        have hs := namesAgree_roundScope houter ts'
        simp [internal, text, write, angled, hnil, hwrite, write_substitute hs]
      · obtain ⟨hnil, -, hreadable⟩ := texts_of_resolve houter hts
        have hs := namesAgree_roundScope houter ts'
        simp [readable, hnil, hreadable, readable_substitute hs]

/-- A class that is bound, part by part. -/
theorem exists_of_bindClass {i : Unit} {ts : TypeTree Unit (.list .typeParameter)}
    {c : TypeTree Unit .classType} {is : TypeTree Unit (.list .classType)}
    {t' : TypeTree Unit .classSignature}
    (h : ((classSignature i ts c is).bindClass outer : ExceptT TypeError Id _).run = .ok t') :
    ∃ ts' c' is', (resolve ts outer : ExceptT TypeError Id _).run = .ok ts' ∧
      (c.bind (roundScope outer ts') : ExceptT TypeError Id _).run = .ok c' ∧
      (is.bind (roundScope outer ts') : ExceptT TypeError Id _).run = .ok is' ∧
      t' = classSignature () ts' c' is' := by
  obtain ⟨ts', hts, h⟩ := run_bind_eq_ok.mp h
  obtain ⟨c', hc, h⟩ := run_bind_eq_ok.mp h
  obtain ⟨is', his, h⟩ := run_bind_eq_ok.mp h
  exact ⟨ts', c', is', hts, hc, his, (Except.ok.inj h).symm⟩

theorem completes_of_bindClass {t t' : TypeTree Unit .classSignature}
    (h : (t.bindClass outer : ExceptT TypeError Id _).run = .ok t') : Completes outer t t' := by
  cases t with
  | classSignature i ts c is =>
      obtain ⟨ts', c', is', hts, hc, his, rfl⟩ := exists_of_bindClass h
      obtain ⟨rfl, -⟩ := substitute_of_bind hc
      obtain ⟨rfl, -⟩ := substitute_of_bind his
      refine ⟨?_, fun houter => ?_, fun houter => ?_⟩
      · simp [freeNames, freeNames_of_resolve hts, freeNames_of_bind hc, freeNames_of_bind his]
      · obtain ⟨hnil, hwrite, -⟩ := texts_of_resolve houter hts
        have hs := namesAgree_roundScope houter ts'
        simp [internal, text, write, angled, hnil, hwrite, write_substitute hs]
      · obtain ⟨hnil, -, hreadable⟩ := texts_of_resolve houter hts
        have hs := namesAgree_roundScope houter ts'
        simp [readable, hnil, hreadable, readable_substitute hs]

/-- In its own scope a method without free variables stays as it is, too. -/
theorem run_bindMethod_of_freeNames {t : TypeTree Unit .methodSignature} (ht : t.WellFormed)
    (h : t.freeNames = []) : (t.bindMethod outer : ExceptT TypeError Id _).run = .ok t := by
  cases t with
  | methodSignature i ts ps r es =>
      obtain ⟨-, hts, hps, hr, hes⟩ := ht
      simp only [freeNames, List.append_eq_nil_iff] at h
      obtain ⟨⟨⟨nts, nps⟩, nr⟩, nes⟩ := h
      exact run_bind_eq_ok.mpr ⟨ts, run_resolve hts nts,
        run_bind_eq_ok.mpr ⟨ps, run_bind_of_freeNames hps nps,
          run_bind_eq_ok.mpr ⟨r, run_bind_of_freeNames hr nr,
            run_bind_eq_ok.mpr ⟨es, run_bind_of_freeNames hes nes, rfl⟩⟩⟩⟩

/-- So does a class. -/
theorem run_bindClass_of_freeNames {t : TypeTree Unit .classSignature} (ht : t.WellFormed)
    (h : t.freeNames = []) : (t.bindClass outer : ExceptT TypeError Id _).run = .ok t := by
  cases t with
  | classSignature i ts c is =>
      obtain ⟨hts, hc, his⟩ := ht
      simp only [freeNames, List.append_eq_nil_iff] at h
      obtain ⟨⟨nts, nc⟩, nis⟩ := h
      exact run_bind_eq_ok.mpr ⟨ts, run_resolve hts nts,
        run_bind_eq_ok.mpr ⟨c, run_bind_of_freeNames hc nc,
          run_bind_eq_ok.mpr ⟨is, run_bind_of_freeNames his nis, rfl⟩⟩⟩

end TypeTree

/-! ## In sessions -/

namespace Session

open Pool TypeTree

variable {canonical : Prop} {p q : Pool} {f : Form} {b : Scope Nat}

/-- The names in a tree are given declarations that go by them. -/
def NamesAgreeIn {ι : Type} (b : Scope ι) (t : TypeTree ι f) : Prop :=
  ∀ x ∈ t.unboundNames, ∀ d, b x = some d → d.name = x

/-- What there is to say of a tree that is bound, and of the tree before: no name is left,
binding it again gives it back, and if names agree it has the texts of the tree before, and is
read as the tree before if that had no bound variables. -/
structure CompletedPlain (b : Scope Unit) (t t' : TypeTree Unit f) : Prop where
  closed : t'.unboundNames = []
  again : ∀ b' : Scope Unit, (t'.bind b' : ExceptT TypeError Id _).run = .ok t'
  texts : NamesAgreeIn b t → t'.internal = t.internal ∧ t'.readable = t.readable
  read : NamesAgreeIn b t → t.Unbound → ∀ k : Start, k.form = f →
    (parsePlain k t'.internal).map (fun u => (⟨k.form, u⟩ : AnyTree Unit)) = .ok ⟨f, t⟩

/-- The same in a pool. -/
structure Completed (b : Scope Nat) (p : Pool) (t t' : TypeTree Nat f) : Prop where
  closed : t'.unboundNames = []
  again : ∀ b' : Scope Nat,
    ((t'.bind b' : ExceptT TypeError PoolM _).run p).1.map plain = .ok t'.plain
  texts : NamesAgreeIn b t → t'.internal = t.internal ∧ t'.readable = t.readable
  read : NamesAgreeIn b t → t.Unbound → ∀ k : Start, k.form = f →
    ((parse k t'.internal : ExceptT ParseError PoolM _).run p).1.map
      (fun u => AnyTree.plain ⟨k.form, u⟩) = .ok (AnyTree.plain ⟨f, t⟩)

/-- In a pool that has made a tree, while it is held, and in every session that holds it. -/
def Everywhere (q : Pool) (t : TypeTree Nat f) (P : Pool → TypeTree Nat f → Prop) : Prop :=
  P (q.hold t) t ∧ ∀ (c : Intern.Config) (steps : List Step) (u : TypeTree Nat f),
    ((start c).after steps).Holds u → u.plain = t.plain → P ((start c).after steps).pool u

theorem Everywhere.of_holds {t : TypeTree Nat f} {P : Pool → TypeTree Nat f → Prop}
    (hs : Sound False q) (ht : q.Good False t)
    (h : ∀ p u, Sound False p → p.Holds False u → u.plain = t.plain → P p u) :
    Everywhere q t P := by
  constructor
  · exact h _ t (ht.sound_hold hs) ht.holds_hold rfl
  · intro c steps u hu heq
    have hs' : ((start c).after steps).Valid False := valid_after_start c steps
    exact h _ u hs'.sound (hs'.holds_tree hu) heq

/-! ### Without a pool -/

section

variable {b : Scope Unit} {t t' : TypeTree Unit f}

theorem NamesAgreeIn.only (h : NamesAgreeIn b t) : (b.only t.unboundNames).NamesAgree := by
  intro x d hd
  unfold Scope.only at hd
  split_ifs at hd with hx
  exact h x hx d hd

theorem freeNames_of_unboundNames {ι : Type} {t : TypeTree ι f} (h : t.unboundNames = []) :
    t.freeNames = [] := by
  refine List.eq_nil_iff_forall_not_mem.mpr fun x hx => ?_
  have hmem : x ∈ t.unboundNames := List.mem_eraseDups.mpr hx
  rw [h] at hmem
  exact absurd hmem List.not_mem_nil

theorem CompletedPlain.of_completes (hwf : t.WellFormed) (hwf' : t'.WellFormed)
    (h : Completes (b.only t.unboundNames) t t') : CompletedPlain b t t' := by
  refine ⟨?_, fun b' => run_bind_of_freeNames hwf' h.closed,
    fun hnames => ⟨h.internal hnames.only, h.readable hnames.only⟩, ?_⟩
  · rw [unboundNames, h.closed]
    rfl
  · rintro hnames hunbound k rfl
    rw [h.internal hnames.only, parsePlain_internal k hwf hunbound]
    rfl

theorem completedPlain_of_bind (hwf : t.WellFormed) (hb : b.WellFormed)
    (h : (t.bind b : ExceptT TypeError Id _).run = .ok t') : CompletedPlain b t t' := by
  have hwf' := (accepts_bind hwf hb).gives t' h
  rw [TypeTree.bind_congr (Scope.eq_only b t)] at h
  exact .of_completes hwf hwf' (completes_of_bind h)

end

/-- A method that is bound in its own scope is completed, and bound to itself again. -/
theorem completedPlain_of_bindMethod {b : Scope Unit} {t t' : TypeTree Unit .methodSignature}
    (hwf : t.WellFormed) (hb : b.WellFormed)
    (h : (t.bindMethod b : ExceptT TypeError Id _).run = .ok t') :
    CompletedPlain b t t' ∧
      ∀ b' : Scope Unit, (t'.bindMethod b' : ExceptT TypeError Id _).run = .ok t' := by
  have hwf' := (accepts_bindMethod hwf hb).gives t' h
  rw [bindMethod_congr (Scope.eq_only b t)] at h
  have hcompletes := completes_of_bindMethod h
  exact ⟨.of_completes hwf hwf' hcompletes,
    fun b' => run_bindMethod_of_freeNames hwf' hcompletes.closed⟩

/-- So is a class. -/
theorem completedPlain_of_bindClass {b : Scope Unit} {t t' : TypeTree Unit .classSignature}
    (hwf : t.WellFormed) (hb : b.WellFormed)
    (h : (t.bindClass b : ExceptT TypeError Id _).run = .ok t') :
    CompletedPlain b t t' ∧
      ∀ b' : Scope Unit, (t'.bindClass b' : ExceptT TypeError Id _).run = .ok t' := by
  have hwf' := (accepts_bindClass hwf hb).gives t' h
  rw [bindClass_congr (Scope.eq_only b t)] at h
  have hcompletes := completes_of_bindClass h
  exact ⟨.of_completes hwf hwf' hcompletes,
    fun b' => run_bindClass_of_freeNames hwf' hcompletes.closed⟩

/-! ### In a pool -/

theorem NamesAgreeIn.plain {t : TypeTree Nat f} (h : NamesAgreeIn b t) :
    NamesAgreeIn (b.only t.unboundNames).plain t.plain := by
  intro x _ d hd
  obtain ⟨d', hd', rfl⟩ := Option.map_eq_some_iff.mp hd
  unfold Scope.only at hd'
  split_ifs at hd' with hx
  rw [TypeTree.plain, name_mapTags]
  exact h x hx d' hd'

/-- A tree without names asks for none. -/
theorem asks_for_none {t : TypeTree Nat f} (hclosed : t.freeNames = []) (b : Scope Nat) :
    ∀ x ∈ t.freeNames, b x = Scope.empty x := by
  intro x hx
  rw [hclosed] at hx
  exact absurd hx List.not_mem_nil

/-- What is completed without a pool is so in a pool. -/
theorem Completed.of_plain (hs : Sound canonical p) {t u : TypeTree Nat f}
    (hu : p.Holds canonical u)
    (h : CompletedPlain (b.only t.unboundNames).plain t.plain u.plain) : Completed b p t u := by
  have hclosed : u.freeNames = [] := by
    rw [← freeNames_plain]
    exact freeNames_of_unboundNames h.closed
  refine ⟨?_, fun b' => ?_, fun hnames => ?_, ?_⟩
  · rw [unboundNames, hclosed]
    rfl
  · rw [TypeTree.bind_congr (asks_for_none hclosed b'), (refines_bind hu .empty).map_plain hs]
    exact h.again _
  · obtain ⟨hinternal, hreadable⟩ := h.texts hnames.plain
    rw [internal_plain, internal_plain] at hinternal
    rw [readable_plain, readable_plain] at hreadable
    exact ⟨hinternal, hreadable⟩
  · intro hnames hunbound k hk
    have hread := h.read hnames.plain ((unbound_plain t).mpr hunbound) k hk
    obtain ⟨-, -, hR⟩ := refines_parse k u.internal hs
    rw [internal_plain] at hread
    exact (hR.map_eq_map fun _ _ hab => congrArg _ hab.plain).trans hread

theorem bindMethod_again {u : TypeTree Nat .methodSignature} (hs : Sound canonical p)
    (hu : p.Holds canonical u) (hclosed : u.unboundNames = [])
    (h : ∀ b' : Scope Unit, (u.plain.bindMethod b' : ExceptT TypeError Id _).run = .ok u.plain)
    (b' : Scope Nat) :
    ((u.bindMethod b' : ExceptT TypeError PoolM _).run p).1.map plain = .ok u.plain := by
  rw [bindMethod_congr (asks_for_none (freeNames_of_unboundNames hclosed) b'),
    (refines_bindMethod hu .empty).map_plain hs]
  exact h _

theorem bindClass_again {u : TypeTree Nat .classSignature} (hs : Sound canonical p)
    (hu : p.Holds canonical u) (hclosed : u.unboundNames = [])
    (h : ∀ b' : Scope Unit, (u.plain.bindClass b' : ExceptT TypeError Id _).run = .ok u.plain)
    (b' : Scope Nat) :
    ((u.bindClass b' : ExceptT TypeError PoolM _).run p).1.map plain = .ok u.plain := by
  rw [bindClass_congr (asks_for_none (freeNames_of_unboundNames hclosed) b'),
    (refines_bindClass hu .empty).map_plain hs]
  exact h _

/-- **Binding keeps the text and finishes the job.** In every session, if a tree is bound,
then no name is left in what it is bound to, which is bound again to itself in any scope. If
the declarations go by the names that they were asked for, it has the texts of the tree, and
these are read as the tree, if that has no bound variables. The same holds of a method and of
a class that is bound in its own scope and an outer one. Without a pool the scope may make its
declarations when it is asked for them. -/
theorem completed_of_bind (c : Intern.Config) (steps : List Step) (b : Scope Nat) :
    let s := (start c).after steps
    (∀ {f : Form} (t t' : TypeTree Nat f) (q : Pool), s.HoldsFor t b →
      (t.bind b : ExceptT TypeError PoolM _).run s.pool = (.ok t', q) →
      Everywhere q t' fun p u => Completed b p t u) ∧
    (∀ (t t' : TypeTree Nat .methodSignature) (q : Pool), s.HoldsFor t b →
      (t.bindMethod b : ExceptT TypeError PoolM _).run s.pool = (.ok t', q) →
      Everywhere q t' fun p u => Completed b p t u ∧ ∀ b' : Scope Nat,
        ((u.bindMethod b' : ExceptT TypeError PoolM _).run p).1.map plain = .ok u.plain) ∧
    (∀ (t t' : TypeTree Nat .classSignature) (q : Pool), s.HoldsFor t b →
      (t.bindClass b : ExceptT TypeError PoolM _).run s.pool = (.ok t', q) →
      Everywhere q t' fun p u => Completed b p t u ∧ ∀ b' : Scope Nat,
        ((u.bindClass b' : ExceptT TypeError PoolM _).run p).1.map plain = .ok u.plain) ∧
    ∀ o : Scope Unit, o.WellFormed →
      (∀ {f : Form} (t t' : TypeTree Unit f), t.WellFormed →
        (t.bind o : ExceptT TypeError Id _).run = .ok t' → CompletedPlain o t t') ∧
      (∀ t t' : TypeTree Unit .methodSignature, t.WellFormed →
        (t.bindMethod o : ExceptT TypeError Id _).run = .ok t' →
        CompletedPlain o t t' ∧
          ∀ b' : Scope Unit, (t'.bindMethod b' : ExceptT TypeError Id _).run = .ok t') ∧
      ∀ t t' : TypeTree Unit .classSignature, t.WellFormed →
        (t.bindClass o : ExceptT TypeError Id _).run = .ok t' →
        CompletedPlain o t t' ∧
          ∀ b' : Scope Unit, (t'.bindClass b' : ExceptT TypeError Id _).run = .ok t' := by
  intro s
  have hs : s.Valid False := valid_after_start c steps
  refine ⟨fun t t' q ht hbind => ?_, fun t t' q ht hbind => ?_, fun t t' q ht hbind => ?_,
    fun o ho => ⟨fun t t' hwf => completedPlain_of_bind hwf ho,
      fun t t' hwf => completedPlain_of_bindMethod hwf ho,
      fun t t' hwf => completedPlain_of_bindClass hwf ho⟩⟩
  · have hwf := ht.wellFormed_plain hs
    obtain ⟨hsound, -, hgood, hplain⟩ := (ht.refines_bind hs).of_ok hs.sound hbind
    have hdone := completedPlain_of_bind hwf (ht.holdsScope hs).wellFormed_plain hplain
    exact .of_holds hsound hgood fun p u hp hu heq => .of_plain hp hu (heq ▸ hdone)
  · have hwf := ht.wellFormed_plain hs
    obtain ⟨hsound, -, hgood, hplain⟩ := (ht.refines_bindMethod hs).of_ok hs.sound hbind
    have hdone := completedPlain_of_bindMethod hwf (ht.holdsScope hs).wellFormed_plain hplain
    refine .of_holds hsound hgood fun p u hp hu heq => ?_
    rw [← heq] at hdone
    have hu' : Completed b p t u := .of_plain hp hu hdone.1
    exact ⟨hu', bindMethod_again hp hu hu'.closed hdone.2⟩
  · have hwf := ht.wellFormed_plain hs
    obtain ⟨hsound, -, hgood, hplain⟩ := (ht.refines_bindClass hs).of_ok hs.sound hbind
    have hdone := completedPlain_of_bindClass hwf (ht.holdsScope hs).wellFormed_plain hplain
    refine .of_holds hsound hgood fun p u hp hu heq => ?_
    rw [← heq] at hdone
    have hu' : Completed b p t u := .of_plain hp hu hdone.1
    exact ⟨hu', bindClass_again hp hu hu'.closed hdone.2⟩

/-- The bound of the parameter comes from outside, and the method and the class have the
parameter. The variables of both are alive when their text is read again. The method is also
bound in the scope that makes its declarations. -/
theorem completed_of_bind_parameter :
    let steps : List Step := [.value (.unconstrained "T") (some "t"),
      .value (.typeParameter .checked "U" (some (.freeVariable .checked "T")) []) (some "u"),
      .value (.methodSignature .checked [.register "u"] [.freeVariable .checked "U"] .voidSignature
        []) (some "m"),
      .value (.classSignature [.register "u"] (.classType .checked none "a" []) []) (some "c")]
    let p := ((start {}).after steps).pool
    let b : Scope Nat := Scope.ofParameters
      [.typeParameter 1 "T" (.boundedBy (.refClass (.classType 0 .topLevel objectName .nil))) .nil]
    let u : TypeTree Nat .typeParameter :=
      .typeParameter 3 "U" (.boundedBy (.refVariable (.freeVariable 2 "T"))) .nil
    let m : TypeTree Nat .methodSignature := .methodSignature 5 (.cons u .nil)
      (.cons (.sigReference (.refVariable (.freeVariable 4 "U"))) .nil) .sigVoid .nil
    let d : TypeTree Nat .classSignature :=
      .classSignature 7 (.cons u .nil) (.classType 6 .topLevel "a" .nil) .nil
    (∃ u' q, (u.bind b : ExceptT TypeError PoolM _).run p = (.ok u', q) ∧
      u'.internal = u.internal) ∧
    (∃ m' q, (m.bindMethod b : ExceptT TypeError PoolM _).run p = (.ok m', q) ∧
      ((parse .methodSignature m'.internal : ExceptT ParseError PoolM _).run (q.hold m')).1.map
        (fun v => AnyTree.plain ⟨_, v⟩) = .ok (AnyTree.plain ⟨_, m⟩)) ∧
    (∃ d' q, (d.bindClass b : ExceptT TypeError PoolM _).run p = (.ok d', q) ∧
      d'.unboundNames = []) ∧
    ∃ m', (m.plain.bindMethod .onDemand : ExceptT TypeError Id _).run = .ok m' ∧
      m'.internal = m.internal := by
  intro steps p b u m d
  obtain ⟨hparameter, hmethod, hclass, hplain⟩ := completed_of_bind {} steps b
  have hnames : ∀ {f : Form} {t : TypeTree Nat f}, NamesAgreeIn b t := by
    intro f t x _ d hd
    simpa using List.find?_some hd
  refine ⟨?_, ?_, ?_, ?_⟩
  · obtain ⟨u', q, hbind⟩ := exists_of_isOk
      (show ((u.bind b : ExceptT TypeError PoolM _).run p).1.isOk = true by decide +kernel)
    have hdone := (hparameter u u' q (by decide +kernel) hbind).1
    exact ⟨u', q, hbind, (hdone.texts hnames).1⟩
  · obtain ⟨m', q, hbind⟩ := exists_of_isOk
      (show ((m.bindMethod b : ExceptT TypeError PoolM _).run p).1.isOk = true by decide +kernel)
    obtain ⟨hdone, -⟩ := (hmethod m m' q (by decide +kernel) hbind).1
    have hu : m.Unbound := ⟨⟨⟨trivial, trivial⟩, trivial⟩, ⟨trivial, trivial⟩, trivial, trivial⟩
    exact ⟨m', q, hbind, hdone.read hnames hu .methodSignature rfl⟩
  · obtain ⟨d', q, hbind⟩ := exists_of_isOk
      (show ((d.bindClass b : ExceptT TypeError PoolM _).run p).1.isOk = true by decide +kernel)
    obtain ⟨hdone, -⟩ := (hclass d d' q (by decide +kernel) hbind).1
    exact ⟨d', q, hbind, hdone.closed⟩
  · have hm : ((start {}).after steps).HoldsFor m b := by decide +kernel
    have hwf : m.plain.WellFormed := hm.wellFormed_plain (valid_after_start {} steps)
    obtain ⟨m', hbind⟩ : ∃ m', (m.plain.bindMethod .onDemand : ExceptT TypeError Id _).run =
        .ok m' := ⟨_, rfl⟩
    obtain ⟨hdone, -⟩ := (hplain .onDemand Scope.wellFormed_onDemand).2.1 m.plain m' hwf hbind
    have hmade : NamesAgreeIn .onDemand m.plain := by
      intro x _ d hd
      rw [(Scope.eq_of_onDemand hd).2]
      rfl
    exact ⟨m', hbind, (hdone.texts hmade).1.trans (internal_plain m)⟩

end Session

end ClassfileTypes
