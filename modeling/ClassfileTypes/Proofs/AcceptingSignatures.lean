import ClassfileTypes.Proofs.Accepting

/-!
# What is accepted as a signature

In signatures nothing is normalised: what a rule has read is the internal text of the
tree that it gives. The rules for types call each other, and so do the theorems, with
the same measure. The rule for the segments of a class is given what the class is
nested in, which has been read before, so there the text begins earlier.
-/

namespace ClassfileTypes.Grammar

open TypeTree

variable {f : Form} {s r : List Char}

/-- What follows a tree is the end of its text. -/
theorem suffix_write {ι : Type} (sp : Spelling) (t : TypeTree ι f) (r : List Char) :
    r <:+ t.write sp r :=
  ⟨t.write sp [], by rw [← write_append, List.nil_append]⟩

/-- Where nothing is normalised, the text says what is left of it. -/
theorem Spells.of_write {t : TypeTree Unit f} (hwf : t.WellFormed) (hu : t.Unbound)
    (htext : t.write .internal r = s) : Spells id t s r :=
  ⟨hwf, hu, htext ▸ suffix_write .internal t r, htext⟩

theorem Spells.write_eq {t : TypeTree Unit f} (h : Spells id t s r) : t.write .internal r = s :=
  h.text

theorem spells_variableName {v : TypeTree Unit .typeVariable} (h : Gives (variableName s) v r) :
    Spells id v ('T' :: s) r := by
  obtain ⟨name, rfl, hmake⟩ := of_nameUntilEnd h
  obtain ⟨hname, rfl⟩ := eq_of_makeFreeVariable hmake
  refine .of_write hname trivial ?_
  rw [write, String.toList_ofList]

/-- The base of an array of signatures is not an array, as its dimensions have been read. -/
theorem isBase_of_spells_type {b : TypeTree Unit .typeSignature}
    (hb : Spells id b (sinceDimensions s) r) (hvoid : b.isVoid = false) : b.IsBase := by
  refine ⟨hvoid, ?_⟩
  match b with
  | .sigReference (.refArray (.arrayType i d b)) =>
      have hhead := head?_write (s := .internal) hb.wellFormed rfl r
      rw [hb.write_eq] at hhead
      exact (head?_sinceDimensions_ne s hhead).elim
  | .sigPrimitive _ | .sigVoid | .sigReference (.refClass _) | .sigReference (.refVariable _) =>
      rfl

/-- The name of a segment has no dot, as it ends at the first one. -/
theorem ne_dot_of_mem_segment {c : Char} (h : c ∈ before ['<', '.', ';'] s) : c ≠ '.' := by
  rintro rfl
  exact not_mem_of_mem_before h (by decide)

mutual

theorem spells_value {e : Expected} {s r : List Char} {t : TypeTree Unit .typeSignature}
    (h : Gives (value e s) t r) : Spells id t s r ∧ t.isVoid = false := by
  match s with
  | [] =>
      rw [value] at h
      exact (Gives.not_wanted h).elim
  | c :: w =>
      rw [value] at h
      cases hcode : Primitive.ofCode? c with
      | some p =>
          rw [hcode] at h
          obtain ⟨rfl, rfl⟩ := h.of_pure
          obtain rfl := Primitive.code_of_ofCode? hcode
          exact ⟨.of_write trivial trivial rfl, rfl⟩
      | none =>
          rw [hcode] at h
          change Gives (if c = 'L' ∨ c = '[' ∨ c = 'T' then _ else _) _ _ at h
          split_ifs at h with hc
          · obtain ⟨x, r₁, h₁, hx, h⟩ := h.of_bind
            obtain ⟨rfl, rfl⟩ := h.of_pure
            have hspells := spells_reference hx
            exact ⟨.of_write hspells.wellFormed hspells.unbound hspells.write_eq, rfl⟩
          · exact (Gives.not_wanted h).elim
termination_by (s.length, 2)

theorem spells_reference {s r : List Char} {t : TypeTree Unit .referenceType}
    (h : Gives (reference s) t r) : Spells id t s r := by
  rw [reference.eq_def] at h
  split at h
  · rename_i w
    have hshorter : w.length < ('L' :: w).length := Nat.lt_succ_self _
    obtain ⟨c, r₁, h₁, hc, h⟩ := h.of_bind
    obtain ⟨rfl, rfl⟩ := h.of_pure
    have hspells := spells_segments (o := .topLevel) trivial trivial hc
    exact .of_write hspells.wellFormed hspells.unbound hspells.write_eq
  · rename_i w
    have hshorter : (sinceDimensions w).length < ('[' :: w).length :=
      Nat.lt_succ_of_le (length_sinceDimensions_le w)
    obtain ⟨b, r₁, h₁, hb, h⟩ := h.of_bind
    obtain ⟨a, ha, h⟩ := h.of_build
    obtain ⟨rfl, rfl⟩ := h.of_pure
    obtain ⟨hspells, hvoid⟩ := spells_value hb
    have hbase := isBase_of_spells_type hspells hvoid
    obtain ⟨hallowed, rfl⟩ := eq_of_makeArrayType ha hbase
    refine .of_write ⟨hallowed, hbase, hspells.wellFormed⟩ hspells.unbound ?_
    rw [write, write, hspells.write_eq, List.replicate_succ, List.cons_append,
      replicate_dimensions]
  · obtain ⟨v, r₁, h₁, hv, h⟩ := h.of_bind
    obtain ⟨rfl, rfl⟩ := h.of_pure
    have hspells := spells_variableName hv
    exact .of_write hspells.wellFormed hspells.unbound hspells.write_eq
  · exact (Gives.not_wanted h).elim
termination_by (s.length, 1)
decreasing_by all_goals subst_vars; exact Prod.Lex.left _ _ hshorter

/-- The class is written from where `o`, which it is nested in, begins. -/
theorem spells_segments {o : TypeTree Unit .enclosing} (ho : o.WellFormed) (hu : o.Unbound)
    {s r : List Char} {c : TypeTree Unit .classType} (h : Gives (segments o s) c r) :
    Spells id c (o.write .internal s) (';' :: r) := by
  have hle := length_since_le ['<', '.', ';'] s
  rw [segments] at h
  split_ifs at h with hempty
  · exact (Gives.not_wanted h).elim
  · obtain ⟨as, r₁, h₁, has, h⟩ := h.of_bind
    obtain ⟨d, hd, h⟩ := h.of_build
    obtain ⟨haswf, hasu, htext⟩ := of_optionalArguments has
    obtain ⟨hname, heq⟩ := eq_of_makeClassType hd fun c hc =>
      ne_dot_of_mem_segment (by simpa using hc)
    have hwf : d.WellFormed := by
      subst heq
      exact ⟨hname, ho, haswf⟩
    have hunbound : d.Unbound := by
      subst heq
      exact ⟨hu, hasu⟩
    have hwrite : d.write .internal r₁ = o.write .internal s := by
      rw [heq, write, String.toList_ofList, htext, before_append_since]
    dsimp only at h
    split at h
    · rename_i r₂ _
      have hshorter : r₂.length < s.length := by
        rw [List.length_cons] at h₁
        omega
      obtain ⟨x, r₃, h₃, hx, h⟩ := h.of_bind
      obtain ⟨rfl, rfl⟩ := h.of_pure
      have hspells := spells_segments (o := .nestedIn d) hwf hunbound hx
      exact .of_write hspells.wellFormed hspells.unbound (hspells.write_eq.trans hwrite)
    · obtain ⟨rfl, rfl⟩ := h.of_pure
      exact .of_write hwf hunbound hwrite
    · exact (Gives.not_wanted h).elim
termination_by (s.length, 1)
decreasing_by
  · exact Prod.Lex.right' _ hle (by omega)
  · exact Prod.Lex.left _ _ hshorter

/-- Arguments between angle brackets, or none. -/
theorem of_optionalArguments {s r : List Char} {as : TypeTree Unit (.list .typeArgument)}
    (h : Gives (optionalArguments s) as r) :
    as.WellFormed ∧ as.Unbound ∧ angled as.isNil (as.write .internal) r = s := by
  rw [optionalArguments.eq_def] at h
  split at h
  · obtain ⟨hr, hrun⟩ := h
    exact nomatch hrun
  · rename_i w _
    have hshorter : w.length < ('<' :: w).length := Nat.lt_succ_self _
    obtain ⟨bs, r₁, h₁, hbs, h⟩ := h.of_bind
    obtain ⟨rfl, rfl⟩ := h.of_pure
    obtain ⟨hspells, hne⟩ := spells_arguments hbs
    refine ⟨hspells.wellFormed, hspells.unbound, ?_⟩
    show angled bs.isNil _ _ = _
    rw [hne]
    exact congrArg ('<' :: ·) hspells.write_eq
  · obtain ⟨rfl, rfl⟩ := h.of_pure
    exact ⟨trivial, trivial, rfl⟩
termination_by (s.length, 0)
decreasing_by subst_vars; exact Prod.Lex.left _ _ hshorter

theorem spells_arguments {s r : List Char} {as : TypeTree Unit (.list .typeArgument)}
    (h : Gives (arguments s) as r) : Spells id as s ('>' :: r) ∧ as.isNil = false := by
  rw [arguments] at h
  obtain ⟨a, r₁, h₁, ha, h⟩ := h.of_bind
  have hspells := spells_argument ha
  dsimp only at h
  split at h
  · exact (Gives.not_wanted h).elim
  · obtain ⟨rfl, rfl⟩ := h.of_pure
    exact ⟨hspells.cons rfl rfl (.nil _), rfl⟩
  · rename_i c w _
    have hshorter : (c :: w).length < s.length := h₁
    obtain ⟨bs, r₂, h₂, hbs, h⟩ := h.of_bind
    obtain ⟨rfl, rfl⟩ := h.of_pure
    exact ⟨hspells.cons rfl rfl (spells_arguments hbs).1, rfl⟩
termination_by (s.length, 3)
decreasing_by
  · exact Prod.Lex.right _ (by omega)
  · exact Prod.Lex.left _ _ hshorter

theorem spells_argument {s r : List Char} {a : TypeTree Unit .typeArgument}
    (h : Gives (argument s) a r) : Spells id a s r := by
  rw [argument.eq_def] at h
  split at h
  · exact (Gives.not_wanted h).elim
  · obtain ⟨rfl, rfl⟩ := h.of_pure
    exact .of_write trivial trivial rfl
  · rename_i c w _
    have hshorter : w.length < (c :: w).length := Nat.lt_succ_self _
    cases hcode : Direction.ofCode? c with
    | some d =>
        rw [hcode] at h
        obtain ⟨t, r₁, h₁, ht, h⟩ := h.of_bind
        obtain ⟨rfl, rfl⟩ := h.of_pure
        obtain rfl := Direction.code_of_ofCode? hcode
        have hspells := spells_reference ht
        refine .of_write hspells.wellFormed hspells.unbound ?_
        exact congrArg (d.code :: ·) hspells.write_eq
    | none =>
        rw [hcode] at h
        change Gives (if c = 'L' ∨ c = '[' ∨ c = 'T' then _ else _) _ _ at h
        split_ifs at h with hc
        · obtain ⟨t, r₁, h₁, ht, h⟩ := h.of_bind
          obtain ⟨rfl, rfl⟩ := h.of_pure
          have hspells := spells_reference ht
          exact .of_write hspells.wellFormed hspells.unbound hspells.write_eq
        · exact (Gives.not_wanted h).elim
termination_by (s.length, 2)
decreasing_by
  · subst_vars; exact Prod.Lex.right _ (by omega)
  · subst_vars; exact Prod.Lex.left _ _ hshorter

end

end ClassfileTypes.Grammar
