import ClassfileTypes.Proofs.Rounds
import ClassfileTypes.Tree.Readable

/-!
# Binding is substitution

When binding succeeds, what it gives is the tree with a bound variable in place of each
variable that has no declaration. Substitution is a function on trees that cannot fail, so
what there is to say of bound trees is said of it: none of its variables is free, it does
nothing to a tree without free variables, and it changes no text as long as declarations
go by the names that were asked for.
-/

namespace ClassfileTypes.TypeTree

variable {s s' : Scope Unit} {f : Form}

/-- The tree with its variables bound as far as the scope has declarations for them. -/
def substitute (s : Scope Unit) : {f : Form} → TypeTree Unit f → TypeTree Unit f
  | _, .freeVariable i n =>
      match s n with
      | some d => .boundVariable i d
      | none => .freeVariable i n
  | _, .sigReference r => .sigReference (r.substitute s)
  | _, .refClass c => .refClass (c.substitute s)
  | _, .refArray a => .refArray (a.substitute s)
  | _, .refVariable v => .refVariable (v.substitute s)
  | _, .throwsClass c => .throwsClass (c.substitute s)
  | _, .throwsVariable v => .throwsVariable (v.substitute s)
  | _, .classType i o n as => .classType i (o.substitute s) n (as.substitute s)
  | _, .nestedIn c => .nestedIn (c.substitute s)
  | _, .arrayType i d b => .arrayType i d (b.substitute s)
  | _, .typeParameter i n c is => .typeParameter i n (c.substitute s) (is.substitute s)
  | _, .boundedBy r => .boundedBy (r.substitute s)
  | _, .argReference r => .argReference (r.substitute s)
  | _, .argBounded b => .argBounded (b.substitute s)
  | _, .boundedArgument i d r => .boundedArgument i d (r.substitute s)
  | _, .methodSignature i ts ps r es =>
      .methodSignature i (ts.substitute s) (ps.substitute s) (r.substitute s) (es.substitute s)
  | _, .classSignature i ts c is =>
      .classSignature i (ts.substitute s) (c.substitute s) (is.substitute s)
  | _, .cons x xs => .cons (x.substitute s) (xs.substitute s)
  | _, t => t

/-- **What is bound** is the substitution, and the scope has all the names. -/
theorem substitute_of_bind {t t' : TypeTree Unit f}
    (h : (t.bind s : ExceptT TypeError Id _).run = .ok t') :
    t' = t.substitute s ∧ ∀ x ∈ t.freeNames, (s x).isSome := by
  induction t with
  | freeVariable i n =>
      obtain ⟨d, hd, rfl⟩ := eq_of_bind_freeVariable h
      refine ⟨?_, List.forall_mem_singleton.mpr (by rw [hd]; rfl)⟩
      unfold substitute
      rw [hd]
  | sigReference r ih | refClass r ih | refArray r ih | refVariable r ih | throwsClass r ih
  | throwsVariable r ih | nestedIn r ih | boundedBy r ih | argReference r ih | argBounded r ih =>
      obtain ⟨r', hr, rfl⟩ := run_map_eq_ok.mp h
      obtain ⟨rfl, hnames⟩ := ih hr
      exact ⟨rfl, hnames⟩
  | arrayType i d b ih | boundedArgument i d b ih =>
      obtain ⟨b', hb, h⟩ := run_bind_eq_ok.mp h
      obtain rfl := Except.ok.inj h
      obtain ⟨rfl, hnames⟩ := ih hb
      exact ⟨rfl, hnames⟩
  | classType i o n xs ihx ihxs | cons o xs ihx ihxs =>
      obtain ⟨o', ho, h⟩ := run_bind_eq_ok.mp h
      obtain ⟨xs', hxs, h⟩ := run_bind_eq_ok.mp h
      obtain rfl := Except.ok.inj h
      obtain ⟨rfl, hnames⟩ := ihx ho
      obtain ⟨rfl, hnames'⟩ := ihxs hxs
      exact ⟨rfl, List.forall_mem_append.mpr ⟨hnames, hnames'⟩⟩
  | typeParameter i n c is ihc ihis =>
      obtain ⟨c', hc, h⟩ := run_bind_eq_ok.mp h
      obtain ⟨is', his, h⟩ := run_bind_eq_ok.mp h
      obtain ⟨-, -, rfl⟩ := eq_of_makeTypeParameter h
      obtain ⟨rfl, hnames⟩ := ihc hc
      obtain ⟨rfl, hnames'⟩ := ihis his
      exact ⟨rfl, List.forall_mem_append.mpr ⟨hnames, hnames'⟩⟩
  | methodSignature i ts ps r es ihts ihps ihr ihes =>
      obtain ⟨ts', hts, h⟩ := run_bind_eq_ok.mp h
      obtain ⟨ps', hps, h⟩ := run_bind_eq_ok.mp h
      obtain ⟨r', hr, h⟩ := run_bind_eq_ok.mp h
      obtain ⟨es', hes, h⟩ := run_bind_eq_ok.mp h
      obtain rfl := Except.ok.inj h
      obtain ⟨rfl, nts⟩ := ihts hts
      obtain ⟨rfl, nps⟩ := ihps hps
      obtain ⟨rfl, nr⟩ := ihr hr
      obtain ⟨rfl, nes⟩ := ihes hes
      refine ⟨rfl, ?_⟩
      simp only [freeNames, List.forall_mem_append]
      exact ⟨⟨⟨nts, nps⟩, nr⟩, nes⟩
  | classSignature i ts c is ihts ihc ihis =>
      obtain ⟨ts', hts, h⟩ := run_bind_eq_ok.mp h
      obtain ⟨c', hc, h⟩ := run_bind_eq_ok.mp h
      obtain ⟨is', his, h⟩ := run_bind_eq_ok.mp h
      obtain rfl := Except.ok.inj h
      obtain ⟨rfl, nts⟩ := ihts hts
      obtain ⟨rfl, nc⟩ := ihc hc
      obtain ⟨rfl, nis⟩ := ihis his
      refine ⟨rfl, ?_⟩
      simp only [freeNames, List.forall_mem_append]
      exact ⟨⟨nts, nc⟩, nis⟩
  | _ =>
      obtain rfl := Except.ok.inj h
      exact ⟨rfl, fun _ hx => absurd hx List.not_mem_nil⟩

/-- A well-formed tree is bound if the scope has all the names. -/
theorem run_bind {t : TypeTree Unit f} (ht : t.WellFormed)
    (hnames : ∀ x ∈ t.freeNames, (s x).isSome) :
    (t.bind s : ExceptT TypeError Id _).run = .ok (t.substitute s) := by
  obtain ⟨t', h⟩ := (resolves_bind ht).ok_iff.mpr hnames
  rw [h, (substitute_of_bind h).1]

/-! ## Free variables -/

/-- What is left free are the names that the scope does not have. -/
theorem freeNames_substitute (t : TypeTree Unit f) :
    (t.substitute s).freeNames = t.freeNames.filter fun x => (s x).isNone := by
  induction t with
  | freeVariable i n =>
      unfold substitute
      cases hn : s n <;> simp [freeNames, hn]
  | _ => simp [substitute, freeNames, *]

/-- **Nothing is free after binding.** -/
theorem freeNames_of_bind {t t' : TypeTree Unit f}
    (h : (t.bind s : ExceptT TypeError Id _).run = .ok t') : t'.freeNames = [] := by
  obtain ⟨rfl, hnames⟩ := substitute_of_bind h
  rw [freeNames_substitute, List.filter_eq_nil_iff]
  intro x hx
  obtain ⟨d, hd⟩ := Option.isSome_iff_exists.mp (hnames x hx)
  simp [hd]

/-- Only the names of the free variables matter. -/
theorem substitute_congr {t : TypeTree Unit f} (h : ∀ x ∈ t.freeNames, s x = s' x) :
    t.substitute s = t.substitute s' := by
  induction t with
  | freeVariable i n =>
      unfold substitute
      rw [h n (by simp [freeNames])]
  | sigReference r ih | refClass r ih | refArray r ih | refVariable r ih | throwsClass r ih
  | throwsVariable r ih | nestedIn r ih | boundedBy r ih | argReference r ih | argBounded r ih
  | arrayType i d r ih | boundedArgument i d r ih =>
      simp only [substitute, ih h]
  | classType i o n xs ihx ihxs | cons o xs ihx ihxs | typeParameter i n o xs ihx ihxs =>
      obtain ⟨hx, hxs⟩ := List.forall_mem_append.mp h
      simp only [substitute, ihx hx, ihxs hxs]
  | methodSignature i ts ps r es ihts ihps ihr ihes =>
      simp only [freeNames, List.forall_mem_append] at h
      obtain ⟨⟨⟨hts, hps⟩, hr⟩, hes⟩ := h
      simp only [substitute, ihts hts, ihps hps, ihr hr, ihes hes]
  | classSignature i ts c is ihts ihc ihis =>
      simp only [freeNames, List.forall_mem_append] at h
      obtain ⟨⟨hts, hc⟩, his⟩ := h
      simp only [substitute, ihts hts, ihc hc, ihis his]
  | _ => rfl

theorem substitute_empty (t : TypeTree Unit f) : t.substitute Scope.empty = t := by
  induction t with
  | freeVariable i n => rfl
  | _ => simp [substitute, *]

/-- A tree in which nothing is free stays as it is. -/
theorem substitute_of_freeNames {t : TypeTree Unit f} (h : t.freeNames = []) :
    t.substitute s = t := by
  have hempty : t.substitute s = t.substitute Scope.empty := by
    refine substitute_congr fun x hx => ?_
    rw [h] at hx
    exact absurd hx List.not_mem_nil
  rw [hempty, substitute_empty]

/-- So does binding. -/
theorem run_bind_of_freeNames {t : TypeTree Unit f} (ht : t.WellFormed) (h : t.freeNames = []) :
    (t.bind s : ExceptT TypeError Id _).run = .ok t := by
  rw [run_bind ht (by simp [h]), substitute_of_freeNames h]

/-! ## Texts -/

@[simp] theorem name_substitute (d : TypeTree Unit .typeParameter) :
    (d.substitute s).name = d.name := by
  cases d
  rfl

@[simp] theorem isNil_substitute (xs : TypeTree Unit (.list f)) :
    (xs.substitute s).isNil = xs.isNil := by
  cases xs <;> rfl

section

variable (hs : ∀ x d, s x = some d → d.name = x)

include hs

/-- The internal text has only the names of variables. -/
theorem write_substitute (t : TypeTree Unit f) (rest : List Char) :
    (t.substitute s).write .internal rest = t.write .internal rest := by
  induction t generalizing rest with
  | freeVariable i n =>
      unfold substitute
      cases hn : s n with
      | none => rfl
      | some d =>
          show 'T' :: (d.name.toList ++ ';' :: rest) = 'T' :: (n.toList ++ ';' :: rest)
          rw [hs n d hn]
  | _ => simp [substitute, write, angled, *]

theorem internal_substitute (t : TypeTree Unit f) : (t.substitute s).internal = t.internal :=
  congrArg String.ofList (write_substitute hs t f.closing)

/-- So has the readable text. -/
theorem readable_substitute (t : TypeTree Unit f) : (t.substitute s).readable = t.readable := by
  induction t with
  | freeVariable i n =>
      unfold substitute
      cases hn : s n with
      | none => rfl
      | some d => exact hs n d hn
  | typeParameter i n c is ihc ihis =>
      cases c with
      | noClassBound => simp [substitute, readable, ihis]
      | boundedBy r =>
          have hr : (r.substitute s).readable = r.readable := ihc
          simp [substitute, readable, ihis, hr]
  | _ => simp [substitute, readable, *]

end

end ClassfileTypes.TypeTree
