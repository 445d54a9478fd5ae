import ClassfileTypes.Proofs.Binding
import Mathlib.Data.List.Find

/-!
# Binding succeeds if every name can be resolved

Binding asks the scope for the names of the free variables, in the order in which they
occur. It succeeds if the scope has them all, and otherwise fails at the first one that
the scope does not have; nothing else can go wrong, as what is put together again is what
was taken apart but for variables. For declarations the scope is asked once for each
round, but after the first round for the same names again.
-/

namespace ClassfileTypes

/-! ## Names that can be resolved -/

section

variable {α β : Type} {can can' : String → Bool} {xs ys : List String}

/-- The outcome of a computation that asks for names in turn: it succeeds exactly if all
of them can be resolved, and it fails exactly at the first that cannot. -/
structure Resolves (can : String → Bool) (names : List String) (r : Except TypeError α) :
    Prop where
  ok_iff : (∃ a, r = .ok a) ↔ ∀ x ∈ names, can x = true
  error_iff : ∀ e, r = .error e ↔ ∃ x, names.find? (!can ·) = some x ∧ e = .unresolved x

theorem find?_eq_none_iff : xs.find? (!can ·) = none ↔ ∀ x ∈ xs, can x = true := by
  simp

theorem find?_eraseDups (p : String → Bool) (xs : List String) :
    xs.eraseDups.find? p = xs.find? p := by
  match xs with
  | [] => rfl
  | x :: xs =>
      rw [List.eraseDups_cons, List.find?_cons, List.find?_cons]
      cases hx : p x with
      | true => rfl
      | false =>
          -- What is left out is `x`, for which `p` does not hold.
          have hsame : (fun y => decide ((!y == x) = true ∧ p y = true)) = p := by
            funext y
            rcases eq_or_ne y x with rfl | hy
            · simp [hx]
            · simp [hy]
          show List.find? p (List.filter _ xs).eraseDups = xs.find? p
          rw [find?_eraseDups p (xs.filter _), List.find?_filter, hsame]
termination_by xs.length
decreasing_by exact Nat.lt_succ_of_le (List.length_filter_le _ _)

namespace Resolves

variable {r : Except TypeError α}

theorem of_ok {a : α} (h : xs.find? (!can ·) = none) : Resolves can xs (.ok a) where
  ok_iff := ⟨fun _ => find?_eq_none_iff.mp h, fun _ => ⟨a, rfl⟩⟩
  error_iff e := by
    constructor
    · exact fun he => nomatch he
    · rintro ⟨x, hx, -⟩
      exact nomatch h.symm.trans hx

theorem of_error {x : String} (h : xs.find? (!can ·) = some x) :
    Resolves can xs (.error (.unresolved x) : Except TypeError α) where
  ok_iff := by
    constructor
    · rintro ⟨a, ha⟩
      exact nomatch ha
    · intro hall
      exact nomatch h.symm.trans (find?_eq_none_iff.mpr hall)
  error_iff e := by
    constructor
    · intro he
      exact ⟨x, h, (Except.error.inj he).symm⟩
    · rintro ⟨y, hy, rfl⟩
      rw [Option.some.inj (h.symm.trans hy)]

/-- It succeeds and there is no name that cannot be resolved, or it fails at the first. -/
theorem cases (h : Resolves can xs r) :
    (∃ a, r = .ok a ∧ xs.find? (!can ·) = none) ∨
      ∃ x, r = .error (.unresolved x) ∧ xs.find? (!can ·) = some x := by
  cases hr : r with
  | ok a => exact Or.inl ⟨a, rfl, find?_eq_none_iff.mpr (h.ok_iff.mp ⟨a, hr⟩)⟩
  | error e =>
      obtain ⟨x, hx, rfl⟩ := (h.error_iff e).mp hr
      exact Or.inr ⟨x, rfl, hx⟩

/-- Only the first name that cannot be resolved matters. -/
theorem of_find?_eq (h : Resolves can xs r)
    (heq : ys.find? (!can' ·) = xs.find? (!can ·)) : Resolves can' ys r := by
  rcases h.cases with ⟨a, rfl, hnone⟩ | ⟨x, rfl, hsome⟩
  · exact of_ok (heq.trans hnone)
  · exact of_error (heq.trans hsome)

/-- Only what can be resolved of these names matters. -/
theorem congr (h : Resolves can xs r) (heq : ∀ x ∈ xs, can x = can' x) : Resolves can' xs r :=
  h.of_find?_eq (List.find?_congr fun x hx => by rw [heq x hx])

/-- What is made of the value does not matter. -/
theorem of_map {g : α → β} (h : Resolves can xs (r.map g)) : Resolves can xs r := by
  cases r with
  | ok a => exact of_ok (find?_eq_none_iff.mpr (h.ok_iff.mp ⟨g a, rfl⟩))
  | error e =>
      obtain ⟨x, hx, rfl⟩ := (h.error_iff e).mp rfl
      exact of_error hx

theorem pure (can : String → Bool) (a : α) :
    Resolves can [] (Pure.pure a : ExceptT TypeError Id α).run :=
  of_ok rfl

/-- Computations in sequence ask for the names in sequence. -/
theorem bind {x : ExceptT TypeError Id α} {k : α → ExceptT TypeError Id β}
    (hx : Resolves can xs x.run) (hk : ∀ a, x.run = .ok a → Resolves can ys (k a).run) :
    Resolves can (xs ++ ys) (x >>= k).run := by
  change Resolves can (xs ++ ys) (ExceptT.bindCont k x.run : Id _)
  rcases hx.cases with ⟨a, ha, hnone⟩ | ⟨n, hn, hsome⟩
  · rw [ha]
    refine (hk a ha).of_find?_eq ?_
    rw [List.find?_append, hnone, Option.none_or]
  · rw [hn]
    refine of_error ?_
    rw [List.find?_append, hsome, Option.some_or]

/-- The rest asks for nothing and does not fail. -/
theorem bind_ok {x : ExceptT TypeError Id α} {k : α → ExceptT TypeError Id β}
    (hx : Resolves can xs x.run) (hk : ∀ a, x.run = .ok a → ∃ b, (k a).run = .ok b) :
    Resolves can xs (x >>= k).run := by
  rw [← List.append_nil xs]
  refine hx.bind fun a ha => ?_
  obtain ⟨b, hb⟩ := hk a ha
  rw [hb]
  exact of_ok rfl

theorem map {x : ExceptT TypeError Id α} (g : α → β) (hx : Resolves can xs x.run) :
    Resolves can xs (g <$> x).run := by
  rw [← bind_pure_comp]
  exact hx.bind_ok fun a _ => ⟨g a, rfl⟩

/-- The names are asked for a second time. -/
theorem append_self (h : Resolves can (xs ++ xs) r) : Resolves can xs r := by
  refine h.of_find?_eq ?_
  rw [List.find?_append]
  cases xs.find? (!can ·) <;> rfl

/-- It does not matter how often a name occurs. -/
theorem eraseDups (h : Resolves can xs r) : Resolves can xs.eraseDups r :=
  h.of_find?_eq (find?_eraseDups _ xs)

end Resolves

end

namespace TypeTree

variable {s : Scope Unit} {f : Form}

/-! ## Trees -/

theorem isUnbounded_of_bind {b b' : TypeTree Unit .classBound}
    (h : (b.bind s : ExceptT TypeError Id _).run = .ok b') : b'.isUnbounded = b.isUnbounded := by
  cases b with
  | noClassBound =>
      obtain rfl := Except.ok.inj h
      rfl
  | boundedBy r =>
      obtain ⟨r', -, rfl⟩ := run_map_eq_ok.mp h
      rfl

theorem isNil_of_bind {xs xs' : TypeTree Unit (.list f)}
    (h : (xs.bind s : ExceptT TypeError Id _).run = .ok xs') : xs'.isNil = xs.isNil := by
  cases xs with
  | nil =>
      obtain rfl := Except.ok.inj h
      rfl
  | cons x xs =>
      obtain ⟨x', -, h⟩ := run_bind_eq_ok.mp h
      obtain ⟨xs', -, h⟩ := run_bind_eq_ok.mp h
      obtain rfl := Except.ok.inj h
      rfl

/-- **Binding asks for the names of the free variables.** A well-formed tree is put
together again without fail. -/
theorem resolves_bind {t : TypeTree Unit f} (ht : t.WellFormed) :
    Resolves (fun x => (s x).isSome) t.freeNames (t.bind s : ExceptT TypeError Id _).run := by
  induction t with
  | freeVariable i n =>
      unfold TypeTree.bind
      cases hn : s n with
      | some d =>
          refine Resolves.of_ok ?_
          simp [freeNames, hn]
      | none =>
          refine Resolves.of_error ?_
          simp [freeNames, hn]
  | sigReference r ih => exact (ih ht).map _
  | refClass c ih => exact (ih ht).map _
  | refArray a ih => exact (ih ht).map _
  | refVariable v ih => exact (ih ht).map _
  | throwsClass c ih => exact (ih ht).map _
  | throwsVariable v ih => exact (ih ht).map _
  | nestedIn c ih => exact (ih ht).map _
  | boundedBy r ih => exact (ih ht).map _
  | argReference r ih => exact (ih ht).map _
  | argBounded b ih => exact (ih ht).map _
  | classType i o n as iho ihas =>
      obtain ⟨-, ho, has⟩ := ht
      exact (iho ho).bind fun _ _ => (ihas has).bind_ok fun _ _ => ⟨_, rfl⟩
  | arrayType i d b ih => exact (ih ht.2.2).bind_ok fun _ _ => ⟨_, rfl⟩
  | boundedArgument i d r ih => exact (ih ht).bind_ok fun _ _ => ⟨_, rfl⟩
  | typeParameter i n c is ihc ihis =>
      obtain ⟨hname, hbounds, hc, his⟩ := ht
      refine (ihc hc).bind fun c' hc' => (ihis his).bind_ok fun is' his' => ?_
      -- There are as many bounds as before.
      refine ⟨.typeParameter () n c' is', run_makeTypeParameter hname fun hunbounded => ?_⟩
      rw [isNil_of_bind his']
      exact hbounds ((isUnbounded_of_bind hc').symm.trans hunbounded)
  | methodSignature i ts ps r es ihts ihps ihr ihes =>
      obtain ⟨-, hts, hps, hr, hes⟩ := ht
      simp only [freeNames, List.append_assoc]
      exact (ihts hts).bind fun _ _ => (ihps hps).bind fun _ _ => (ihr hr).bind fun _ _ =>
        (ihes hes).bind_ok fun _ _ => ⟨_, rfl⟩
  | classSignature i ts c is ihts ihc ihis =>
      obtain ⟨hts, hc, his⟩ := ht
      simp only [freeNames, List.append_assoc]
      exact (ihts hts).bind fun _ _ => (ihc hc).bind fun _ _ =>
        (ihis his).bind_ok fun _ _ => ⟨_, rfl⟩
  | cons x xs ihx ihxs =>
      obtain ⟨hx, hxs⟩ := ht
      exact (ihx hx).bind fun _ _ => (ihxs hxs).bind_ok fun _ _ => ⟨_, rfl⟩
  | _ => exact Resolves.pure _ _

/-! ## Declarations

A name is resolved by a type parameter that goes by it, and else by the outer scope. -/

/-- The type parameters of a declaration. -/
def typeParameters {ι : Type} : {f : Form} → TypeTree ι f → List (TypeTree ι .typeParameter)
  | _, .methodSignature _ ts _ _ _ => ts.entries
  | _, .classSignature _ ts _ _ => ts.entries
  | _, _ => []

/-- Whether a type parameter of a declaration goes by the name. -/
def declares {ι : Type} (t : TypeTree ι f) (x : String) : Bool :=
  (t.typeParameters.map name).contains x

end TypeTree

/-- What declarations resolve depends on their names only. -/
theorem Scope.isSome_within {ι : Type} {ps : List (TypeTree ι .typeParameter)}
    {names : List String} (hnames : ps.map TypeTree.name = names) (outer : Scope ι) :
    (fun x => ((Scope.ofParameters ps).within outer x).isSome) =
      fun x => names.contains x || (outer x).isSome := by
  funext x
  have hfind : (ps.find? (·.name = x)).isSome = names.contains x := by
    rw [← hnames, Bool.eq_iff_iff]
    simp
  unfold Scope.within Scope.ofParameters
  rw [← hfind]
  cases ps.find? (·.name = x) <;> rfl

namespace TypeTree

variable {outer : Scope Unit}

theorem name_of_bind {d d' : TypeTree Unit .typeParameter}
    (h : (d.bind s : ExceptT TypeError Id _).run = .ok d') : d'.name = d.name := by
  cases d with
  | typeParameter i n c is =>
      obtain ⟨c', -, h⟩ := run_bind_eq_ok.mp h
      obtain ⟨is', -, h⟩ := run_bind_eq_ok.mp h
      obtain ⟨-, -, rfl⟩ := eq_of_makeTypeParameter h
      rfl

theorem names_of_bind (ts ts' : TypeTree Unit (.list .typeParameter))
    (h : (ts.bind s : ExceptT TypeError Id _).run = .ok ts') :
    ts'.entries.map name = ts.entries.map name := by
  match ts with
  | .nil =>
      obtain rfl := Except.ok.inj h
      rfl
  | .cons d ds =>
      obtain ⟨d', hd, h⟩ := run_bind_eq_ok.mp h
      obtain ⟨ds', hds, h⟩ := run_bind_eq_ok.mp h
      obtain rfl := Except.ok.inj h
      exact congrArg₂ List.cons (name_of_bind hd) (names_of_bind ds ds' hds)

theorem names_of_resolveRounds {declared resolved resolved' : TypeTree Unit (.list .typeParameter)}
    {rounds : Nat} (hnames : resolved.entries.map name = declared.entries.map name)
    (h : (resolveRounds declared outer rounds resolved : ExceptT TypeError Id _).run =
      .ok resolved') :
    resolved'.entries.map name = declared.entries.map name := by
  induction rounds generalizing resolved with
  | zero =>
      obtain rfl := Except.ok.inj h
      exact hnames
  | succ rounds ih =>
      obtain ⟨next, hnext, h⟩ := run_bind_eq_ok.mp h
      exact ih (names_of_bind declared next hnext) h

/-- A name is resolved by a declaration, and else by the outer scope. -/
theorem resolves_bind_within {t : TypeTree Unit f} (ht : t.WellFormed)
    {ps : List (TypeTree Unit .typeParameter)} {names : List String}
    (hnames : ps.map name = names) :
    Resolves (fun x => names.contains x || (outer x).isSome) t.freeNames
      (t.bind ((Scope.ofParameters ps).within outer) : ExceptT TypeError Id _).run := by
  rw [← Scope.isSome_within hnames outer]
  exact resolves_bind ht

section

variable {declared resolved : TypeTree Unit (.list .typeParameter)}

/-- Every round after the first asks for the same names again. -/
theorem resolves_resolveRounds (hdeclared : declared.WellFormed)
    (hnames : resolved.entries.map name = declared.entries.map name) (rounds : Nat) :
    Resolves (fun x => (declared.entries.map name).contains x || (outer x).isSome)
      declared.freeNames
      (resolveRounds declared outer (rounds + 1) resolved : ExceptT TypeError Id _).run := by
  induction rounds generalizing resolved with
  | zero =>
      exact (resolves_bind_within hdeclared hnames).bind_ok fun next _ => ⟨next, rfl⟩
  | succ rounds ih =>
      have hround := (resolves_bind_within hdeclared hnames).bind fun next hnext =>
        ih (names_of_bind declared next hnext)
      exact hround.append_self

theorem resolves_resolve (hdeclared : declared.WellFormed) :
    Resolves (fun x => (declared.entries.map name).contains x || (outer x).isSome)
      declared.freeNames (resolve declared outer : ExceptT TypeError Id _).run := by
  cases declared with
  | nil => exact Resolves.pure _ _
  | cons d ds => exact resolves_resolveRounds hdeclared rfl _

theorem names_of_resolve (h : (resolve declared outer : ExceptT TypeError Id _).run =
    .ok resolved) : resolved.entries.map name = declared.entries.map name :=
  names_of_resolveRounds rfl h

end

/-- **Binding a method in its own scope.** -/
theorem resolves_bindMethod {t : TypeTree Unit .methodSignature} (ht : t.WellFormed) :
    Resolves (fun x => t.declares x || (outer x).isSome) t.freeNames
      (t.bindMethod outer : ExceptT TypeError Id _).run := by
  cases t with
  | methodSignature i ts ps r es =>
      obtain ⟨-, hts, hps, hr, hes⟩ := ht
      simp only [freeNames, List.append_assoc]
      refine (resolves_resolve hts).bind fun ts' hts' => ?_
      have hnames := names_of_resolve hts'
      exact (resolves_bind_within hps hnames).bind fun _ _ =>
        (resolves_bind_within hr hnames).bind fun _ _ =>
          (resolves_bind_within hes hnames).bind_ok fun _ _ => ⟨_, rfl⟩

/-- **Binding a class in its own scope.** -/
theorem resolves_bindClass {t : TypeTree Unit .classSignature} (ht : t.WellFormed) :
    Resolves (fun x => t.declares x || (outer x).isSome) t.freeNames
      (t.bindClass outer : ExceptT TypeError Id _).run := by
  cases t with
  | classSignature i ts c is =>
      obtain ⟨hts, hc, his⟩ := ht
      simp only [freeNames, List.append_assoc]
      refine (resolves_resolve hts).bind fun ts' hts' => ?_
      have hnames := names_of_resolve hts'
      exact (resolves_bind_within hc hnames).bind fun _ _ =>
        (resolves_bind_within his hnames).bind_ok fun _ _ => ⟨_, rfl⟩

/-! ## Nothing else is asked for

Whether a scope has other names, and what it has for them, does not show. -/

section

variable {ι : Type} {m : Type → Type} [Monad m] [MonadPool ι m] {f : Form} {s s' : Scope ι}

/-- Only what the scope has for the names of the free variables matters. -/
theorem bind_congr {t : TypeTree ι f} (h : ∀ x ∈ t.freeNames, s x = s' x) :
    (t.bind s : ExceptT TypeError m _) = t.bind s' := by
  induction t with
  | freeVariable i n =>
      unfold TypeTree.bind
      rw [h n (by simp [freeNames])]
  | sigReference r ih | refClass r ih | refArray r ih | refVariable r ih | throwsClass r ih
  | throwsVariable r ih | nestedIn r ih | boundedBy r ih | argReference r ih | argBounded r ih =>
      exact congrArg (_ <$> ·) (ih h)
  | arrayType i d b ih | boundedArgument i d b ih => exact congrArg (· >>= _) (ih h)
  | classType i o n xs ihx ihxs | cons o xs ihx ihxs =>
      obtain ⟨hx, hxs⟩ := List.forall_mem_append.mp h
      simp only [TypeTree.bind, ihx hx, ihxs hxs]
  | typeParameter i n c is ihc ihis =>
      obtain ⟨hc, his⟩ := List.forall_mem_append.mp h
      simp only [TypeTree.bind, ihc hc, ihis his]
  | methodSignature i ts ps r es ihts ihps ihr ihes =>
      simp only [freeNames, List.forall_mem_append] at h
      obtain ⟨⟨⟨hts, hps⟩, hr⟩, hes⟩ := h
      simp only [TypeTree.bind, ihts hts, ihps hps, ihr hr, ihes hes]
  | classSignature i ts c is ihts ihc ihis =>
      simp only [freeNames, List.forall_mem_append] at h
      obtain ⟨⟨hts, hc⟩, his⟩ := h
      simp only [TypeTree.bind, ihts hts, ihc hc, ihis his]
  | _ => rfl

theorem bind_within_congr {t : TypeTree ι f} (h : ∀ x ∈ t.freeNames, s x = s' x)
    (inner : Scope ι) :
    (t.bind (inner.within s) : ExceptT TypeError m _) = t.bind (inner.within s') := by
  refine bind_congr fun x hx => ?_
  unfold Scope.within
  rw [h x hx]

theorem resolveRounds_congr {declared resolved : TypeTree ι (.list .typeParameter)}
    (h : ∀ x ∈ declared.freeNames, s x = s' x) (rounds : Nat) :
    (resolveRounds declared s rounds resolved : ExceptT TypeError m _) =
      resolveRounds declared s' rounds resolved := by
  induction rounds generalizing resolved with
  | zero => rfl
  | succ rounds ih =>
      unfold resolveRounds
      simp only [bind_within_congr h, ih]

theorem resolve_congr {declared : TypeTree ι (.list .typeParameter)}
    (h : ∀ x ∈ declared.freeNames, s x = s' x) :
    (resolve declared s : ExceptT TypeError m _) = resolve declared s' :=
  resolveRounds_congr h _

theorem bindMethod_congr {t : TypeTree ι .methodSignature} (h : ∀ x ∈ t.freeNames, s x = s' x) :
    (t.bindMethod s : ExceptT TypeError m _) = t.bindMethod s' := by
  cases t with
  | methodSignature i ts ps r es =>
      simp only [freeNames, List.forall_mem_append] at h
      obtain ⟨⟨⟨hts, hps⟩, hr⟩, hes⟩ := h
      simp only [bindMethod, resolve_congr hts, bind_within_congr hps, bind_within_congr hr,
        bind_within_congr hes]

theorem bindClass_congr {t : TypeTree ι .classSignature} (h : ∀ x ∈ t.freeNames, s x = s' x) :
    (t.bindClass s : ExceptT TypeError m _) = t.bindClass s' := by
  cases t with
  | classSignature i ts c is =>
      simp only [freeNames, List.forall_mem_append] at h
      obtain ⟨⟨hts, hc⟩, his⟩ := h
      simp only [bindClass, resolve_congr hts, bind_within_congr hc, bind_within_congr his]

end

/-! ## Tags do not matter -/

section

variable {ι κ : Type} (g : ι → κ)

@[simp] theorem typeParameters_mapTags (t : TypeTree ι f) :
    (t.mapTags g).typeParameters = t.typeParameters.map (mapTags g) := by
  cases t with
  | methodSignature i ts ps r es => exact entries_mapTags g ts
  | classSignature i ts c is => exact entries_mapTags g ts
  | _ => rfl

@[simp] theorem declares_mapTags (t : TypeTree ι f) (x : String) :
    (t.mapTags g).declares x = t.declares x := by
  simp [declares, Function.comp_def]

@[simp] theorem declares_plain (t : TypeTree ι f) (x : String) :
    t.plain.declares x = t.declares x :=
  declares_mapTags _ t x

end

end TypeTree

end ClassfileTypes
