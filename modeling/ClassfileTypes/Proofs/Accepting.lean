import ClassfileTypes.Proofs.Making
import ClassfileTypes.Proofs.Rules
import Mathlib.Data.List.TakeWhile

/-!
# What is accepted

A rule of the grammar accepts nothing but the text of the tree that it gives: what it
has read is the internal text of the tree, character by character. Descriptors are
read a little more freely, with dots for the slashes of class names. What is read is
well formed and has no bound variable.
-/

namespace ClassfileTypes

/-! ## Codes -/

theorem Primitive.code_of_ofCode? {c : Char} {p : Primitive} (h : Primitive.ofCode? c = some p) :
    p.code = c := by
  simpa using List.find?_some h

theorem Direction.code_of_ofCode? {c : Char} {d : Direction} (h : Direction.ofCode? c = some d) :
    d.code = c := by
  unfold Direction.ofCode? at h
  split at h
  · obtain rfl := Option.some.inj h
    rfl
  · obtain rfl := Option.some.inj h
    rfl
  · exact nomatch h

namespace Grammar

open TypeTree

variable {α β : Type} {n k : Nat} {f : Form} {s r r' : List Char}

/-! ## Readings that succeed, step by step -/

namespace Gives

theorem of_pure {x : Read α n} {b : α} (h : Gives (Pure.pure x) b r) :
    x.value = b ∧ x.rest = r := by
  obtain ⟨hr, hrun⟩ := h
  obtain rfl : x = ⟨b, r, hr⟩ := Except.ok.inj hrun
  exact ⟨rfl, rfl⟩

theorem of_bind {x : Reading Id α n} {g : Read α n → Reading Id β k} {b : β}
    (h : Gives (x >>= g) b r') : ∃ a r h, Gives x a r ∧ Gives (g ⟨a, r, h⟩) b r' := by
  obtain ⟨hr', hrun⟩ := h
  obtain ⟨⟨a, r, hr⟩, hx, hg⟩ := run_bind_eq_ok.mp hrun
  exact ⟨a, r, hr, ⟨hr, hx⟩, hr', hg⟩

/-- A construction that succeeds, and then the rest. -/
theorem of_build {x : ExceptT TypeError Id α} {g : α → Reading Id β n} {b : β} {e : Nat}
    (h : Gives (build s e x >>= g) b r) : ∃ a, x.run = .ok a ∧ Gives (g a) b r := by
  obtain ⟨hr, hrun⟩ := h
  obtain ⟨a, ha, hg⟩ := run_bind_eq_ok.mp hrun
  exact ⟨a, run_adapt_eq_ok.mp ha, hr, hg⟩

theorem not_wanted {e : Expected} {a : α} : ¬ Gives (wanted e s : Reading Id α n) a r :=
  fun ⟨_, hrun⟩ => nomatch hrun

end Gives

/-! ## Cutting, put together again -/

theorem before_append_since (stops s : List Char) : before stops s ++ since stops s = s :=
  List.takeWhile_append_dropWhile

theorem not_mem_of_mem_before {stops : List Char} {c : Char} (h : c ∈ before stops s) :
    c ∉ stops := by
  simpa using List.mem_takeWhile_imp h

theorem replicate_dimensions (s : List Char) :
    List.replicate (dimensions s) '[' ++ sinceDimensions s = s := by
  have hall : List.replicate (dimensions s) '[' = s.takeWhile (· == '[') := by
    refine (List.eq_replicate_of_mem fun c hc => ?_).symm
    simpa using List.mem_takeWhile_imp hc
  rw [hall]
  exact List.takeWhile_append_dropWhile

theorem head?_sinceDimensions_ne (s : List Char) : (sinceDimensions s).head? ≠ some '[' := by
  intro h
  have hne := List.head?_dropWhile_not (· == '[') s
  rw [show (s.dropWhile (· == '[')).head? = some '[' from h] at hne
  exact absurd hne (by decide)

/-- What a rule reads up to a `;` is the text from which the value is made. -/
theorem of_nameUntilEnd {make : String → ExceptT TypeError Id α} {x : α}
    (h : Gives (nameUntilEnd make s) x r) :
    ∃ name, s = name ++ ';' :: r ∧ (make (String.ofList name)).run = .ok x := by
  rcases since_eq [';'] s with hs | ⟨c, w, hs, hc⟩
  · rw [nameUntilEnd_of_end hs] at h
    exact (Gives.not_wanted h).elim
  · obtain rfl := List.mem_singleton.mp hc
    rw [nameUntilEnd_of_since hs] at h
    obtain ⟨a, ha, h⟩ := h.of_build
    obtain ⟨rfl, rfl⟩ := h.of_pure
    refine ⟨before [';'] s, ?_, ha⟩
    have hcut := before_append_since [';'] s
    rw [hs] at hcut
    exact hcut.symm

/-! ## What was read of a text

The text from `s` on, up to where `r` is left, is the tree. Slashes may have been
written as dots where `norm` changes them. -/

/-- The tree is what was read of `s` when `r` is left. -/
structure Spells (norm : List Char → List Char) (t : TypeTree Unit f) (s r : List Char) :
    Prop where
  wellFormed : t.WellFormed
  unbound : t.Unbound
  rest : r <:+ s
  text : t.write .internal (norm r) = norm s

variable {norm : List Char → List Char}

theorem Spells.nil (s : List Char) :
    Spells norm (.nil : TypeTree Unit (.list f)) s s :=
  ⟨trivial, trivial, List.suffix_refl s, rfl⟩

/-- An entry, and then the other entries. -/
theorem Spells.cons {x : TypeTree Unit f} {xs : TypeTree Unit (.list f)}
    (hopening : f.opening = []) (hclosing : f.closing = []) (hx : Spells norm x s r)
    (hxs : Spells norm xs r r') : Spells norm (.cons x xs) s r' := by
  refine ⟨⟨hx.wellFormed, hxs.wellFormed⟩, ⟨hx.unbound, hxs.unbound⟩,
    hxs.rest.trans hx.rest, ?_⟩
  rw [write, hopening, hclosing, List.nil_append, List.nil_append, hxs.text, hx.text]

/-- Entries up to the end of their list, which is left in the text here. -/
theorem spells_entriesUntil {close : Char}
    {entry : (s : List Char) → Reading Id (TypeTree Unit f) s.length}
    (hopening : f.opening = []) (hclosing : f.closing = [])
    (hentry : ∀ s x r, Gives (entry s) x r → Spells norm x s r) {s r : List Char}
    {xs : TypeTree Unit (.list f)} (h : Gives (entriesUntil close entry s) xs r) :
    Spells norm xs s (close :: r) := by
  match s with
  | [] =>
      rw [entriesUntil] at h
      exact (Gives.not_wanted h).elim
  | c :: w =>
      rw [entriesUntil] at h
      split_ifs at h with hc
      · obtain ⟨rfl, rfl⟩ := h.of_pure
        subst hc
        exact .nil _
      · obtain ⟨x, r₁, h₁, hx, h⟩ := h.of_bind
        obtain ⟨xs', r₂, h₂, hxs, h⟩ := h.of_bind
        obtain ⟨rfl, rfl⟩ := h.of_pure
        exact (hentry _ x r₁ hx).cons hopening hclosing
          (spells_entriesUntil hopening hclosing hentry hxs)
termination_by s.length
decreasing_by exact h₁

theorem spells_someEntriesUntil {close : Char}
    {entry : (s : List Char) → Reading Id (TypeTree Unit f) s.length}
    (hopening : f.opening = []) (hclosing : f.closing = [])
    (hentry : ∀ s x r, Gives (entry s) x r → Spells norm x s r)
    {xs : TypeTree Unit (.list f)} (h : Gives (someEntriesUntil close entry s) xs r) :
    Spells norm xs s (close :: r) ∧ xs.isNil = false := by
  obtain ⟨x, r₁, h₁, hx, h⟩ := h.of_bind
  obtain ⟨xs', r₂, h₂, hxs, h⟩ := h.of_bind
  obtain ⟨rfl, rfl⟩ := h.of_pure
  exact ⟨(hentry _ x r₁ hx).cons hopening hclosing
    (spells_entriesUntil hopening hclosing hentry hxs), rfl⟩

/-! ## Descriptors -/

open Name (slashed)

theorem slashed_append (s r : List Char) : slashed (s ++ r) = slashed s ++ slashed r :=
  List.map_append

theorem slashed_replicate (d : Nat) (r : List Char) :
    slashed (List.replicate d '[' ++ r) = List.replicate d '[' ++ slashed r := by
  rw [slashed_append]
  unfold slashed
  rw [List.map_replicate]
  rfl

theorem head?_of_slashed (h : (slashed s).head? = some '[') : s.head? = some '[' := by
  unfold slashed at h
  rw [List.head?_map, Option.map_eq_some_iff] at h
  obtain ⟨c, hc, hslash⟩ := h
  by_cases hdot : c = '.'
  · subst hdot
    exact absurd hslash (by decide)
  · rw [if_neg (by simpa using hdot)] at hslash
    rw [hc, hslash]

theorem spells_classDescriptorName {c : TypeTree Unit .classDescriptor}
    (h : Gives (classDescriptorName s) c r) : Spells slashed c ('L' :: s) r := by
  obtain ⟨name, rfl, hmake⟩ := of_nameUntilEnd h
  obtain ⟨n, hn, rfl⟩ := eq_of_makeClassDescriptor hmake
  refine ⟨Name.isClassName_of_classNameOf hn, trivial, ?_, ?_⟩
  · exact ⟨'L' :: (name ++ [';']), by simp⟩
  · rw [write, Name.toList_of_classNameOf hn, String.toList_ofList]
    show _ = 'L' :: slashed (name ++ ';' :: r)
    rw [slashed_append]
    rfl

theorem spells_classDescriptor {c : TypeTree Unit .classDescriptor}
    (h : Gives (Grammar.classDescriptor s) c r) : Spells slashed c s r := by
  unfold Grammar.classDescriptor at h
  split at h
  · obtain ⟨c', r₁, h₁, hc, h⟩ := h.of_bind
    obtain ⟨rfl, rfl⟩ := h.of_pure
    exact spells_classDescriptorName hc
  · exact (Gives.not_wanted h).elim

/-- What is left after the dimensions is not an array. -/
theorem isBase_of_spells_descriptor {b : TypeTree Unit .typeDescriptor}
    (hb : Spells slashed b (sinceDimensions s) r) (hvoid : b.isVoid = false) : b.IsBase := by
  refine ⟨hvoid, ?_⟩
  cases b with
  | descArray a =>
      have hhead := head?_write (s := .internal) hb.wellFormed rfl (slashed r)
      rw [hb.text] at hhead
      exact (head?_sinceDimensions_ne s (head?_of_slashed hhead)).elim
  | _ => rfl

theorem spells_valueDescriptor {e : Expected} {s r : List Char}
    {t : TypeTree Unit .typeDescriptor} (h : Gives (valueDescriptor e s) t r) :
    Spells slashed t s r ∧ t.isVoid = false := by
  rw [valueDescriptor.eq_def] at h
  split at h
  · exact (Gives.not_wanted h).elim
  · obtain ⟨c, r₁, h₁, hc, h⟩ := h.of_bind
    obtain ⟨rfl, rfl⟩ := h.of_pure
    have hspells := spells_classDescriptorName hc
    exact ⟨⟨hspells.wellFormed, hspells.unbound, hspells.rest, hspells.text⟩, rfl⟩
  · rename_i w
    have hshorter : (sinceDimensions w).length < ('[' :: w).length :=
      Nat.lt_succ_of_le (length_sinceDimensions_le w)
    obtain ⟨b, r₁, h₁, hb, h⟩ := h.of_bind
    obtain ⟨a, ha, h⟩ := h.of_build
    obtain ⟨rfl, rfl⟩ := h.of_pure
    obtain ⟨hspells, hvoid⟩ := spells_valueDescriptor hb
    have hbase := isBase_of_spells_descriptor hspells hvoid
    obtain ⟨hallowed, rfl⟩ := eq_of_makeArrayDescriptor ha hbase
    refine ⟨⟨⟨hallowed, hbase, hspells.wellFormed⟩, hspells.unbound, ?_, ?_⟩, rfl⟩
    · exact hspells.rest.trans ((List.dropWhile_suffix _).trans (List.suffix_cons _ _))
    · show List.replicate (dimensions w + 1) '[' ++ b.write .internal (slashed r₁) = _
      rw [hspells.text, ← slashed_replicate, List.replicate_succ, List.cons_append,
        replicate_dimensions]
  · rename_i c w _ _
    split at h
    · rename_i p hp
      obtain ⟨rfl, rfl⟩ := h.of_pure
      obtain rfl := Primitive.code_of_ofCode? hp
      refine ⟨⟨trivial, trivial, List.suffix_cons _ _, ?_⟩, rfl⟩
      cases p <;> rfl
    · exact (Gives.not_wanted h).elim
termination_by s.length
decreasing_by
  subst_vars
  exact hshorter

theorem spells_typeDescriptor {t : TypeTree Unit .typeDescriptor}
    (h : Gives (Grammar.typeDescriptor s) t r) : Spells slashed t s r := by
  unfold Grammar.typeDescriptor at h
  split at h
  · obtain ⟨rfl, rfl⟩ := h.of_pure
    exact ⟨trivial, trivial, List.suffix_cons _ _, rfl⟩
  · exact (spells_valueDescriptor h).1

theorem spells_methodDescriptor {t : TypeTree Unit .methodDescriptor}
    (h : Gives (Grammar.methodDescriptor s) t r) : Spells slashed t s r := by
  unfold Grammar.methodDescriptor at h
  split at h
  · rename_i w
    obtain ⟨ps, r₁, h₁, hps, h⟩ := h.of_bind
    obtain ⟨t, r₂, h₂, ht, h⟩ := h.of_bind
    obtain ⟨d, hd, h⟩ := h.of_build
    obtain ⟨rfl, rfl⟩ := h.of_pure
    obtain ⟨hvoid, rfl⟩ := eq_of_makeMethodDescriptor hd
    have hps := spells_entriesUntil rfl rfl (fun _ _ _ h => (spells_valueDescriptor h).1) hps
    have ht := spells_typeDescriptor ht
    refine ⟨⟨hvoid, hps.wellFormed, ht.wellFormed⟩, ⟨hps.unbound, ht.unbound⟩, ?_, ?_⟩
    · exact ((ht.rest.trans (List.suffix_cons _ _)).trans hps.rest).trans (List.suffix_cons _ _)
    · show '(' :: ps.write .internal (')' :: t.write .internal (slashed r₂)) = '(' :: slashed w
      rw [ht.text]
      exact congrArg ('(' :: ·) hps.text
  · exact (Gives.not_wanted h).elim

end Grammar

end ClassfileTypes
