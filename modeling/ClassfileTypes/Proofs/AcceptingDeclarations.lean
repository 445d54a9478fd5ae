import ClassfileTypes.Proofs.AcceptingSignatures
import ClassfileTypes.Proofs.Parsing

/-!
# What is accepted as a declaration

The rules for type parameters, methods and classes, and from them the rule for each
thing that a text can be read as. At a place in a text, what was read is cut out of it
at two byte offsets, and the first is before the second.
-/

namespace ClassfileTypes

namespace Grammar

open TypeTree

variable {s r : List Char}

theorem spells_classType {c : TypeTree Unit .classType} (h : Gives (Grammar.classType s) c r) :
    Spells id c s (';' :: r) := by
  unfold Grammar.classType at h
  split at h
  · obtain ⟨x, r₁, h₁, hx, h⟩ := h.of_bind
    obtain ⟨rfl, rfl⟩ := h.of_pure
    exact spells_segments (o := .topLevel) trivial trivial hx
  · exact (Gives.not_wanted h).elim

theorem spells_typeSignature {t : TypeTree Unit .typeSignature}
    (h : Gives (Grammar.typeSignature s) t r) : Spells id t s r := by
  unfold Grammar.typeSignature at h
  split at h
  · obtain ⟨rfl, rfl⟩ := h.of_pure
    exact .of_write trivial trivial rfl
  · exact (spells_value h).1

/-! ## Type parameters -/

theorem spells_interfaceBounds {s r : List Char} {is : TypeTree Unit (.list .referenceType)}
    (h : Gives (interfaceBounds s) is r) : Spells id is s r := by
  rw [interfaceBounds.eq_def] at h
  split at h
  · rename_i w
    obtain ⟨t, r₁, h₁, ht, h⟩ := h.of_bind
    have hshorter : r₁.length < (':' :: w).length := Nat.lt_succ_of_lt h₁
    obtain ⟨ts, r₂, h₂, hts, h⟩ := h.of_bind
    obtain ⟨rfl, rfl⟩ := h.of_pure
    have hfirst := spells_reference ht
    have hothers := spells_interfaceBounds hts
    refine .of_write ⟨hfirst.wellFormed, hothers.wellFormed⟩ ⟨hfirst.unbound, hothers.unbound⟩ ?_
    show ':' :: t.write .internal (ts.write .internal r₂) = _
    rw [hothers.write_eq, hfirst.write_eq]
  · obtain ⟨rfl, rfl⟩ := h.of_pure
    exact .nil _
termination_by s.length
decreasing_by
  subst_vars
  exact hshorter

theorem spells_optionalClassBound {b : TypeTree Unit .classBound}
    (h : Gives (optionalClassBound s) b r) : Spells id b s r := by
  unfold optionalClassBound at h
  split at h
  · obtain ⟨rfl, rfl⟩ := h.of_pure
    exact .of_write trivial trivial rfl
  · split_ifs at h
    · obtain ⟨t, r₁, h₁, ht, h⟩ := h.of_bind
      obtain ⟨rfl, rfl⟩ := h.of_pure
      have hspells := spells_reference ht
      exact .of_write hspells.wellFormed hspells.unbound hspells.write_eq
    · obtain ⟨rfl, rfl⟩ := h.of_pure
      exact .of_write trivial trivial rfl

theorem spells_typeParameter {t : TypeTree Unit .typeParameter}
    (h : Gives (Grammar.typeParameter s) t r) : Spells id t s r := by
  by_cases hcut : ∃ w, since [':', '>'] s = ':' :: w
  · obtain ⟨w, hcut⟩ := hcut
    rw [typeParameter_of_since hcut] at h
    obtain ⟨c, r₁, h₁, hc, h⟩ := h.of_bind
    obtain ⟨is, r₂, h₂, his, h⟩ := h.of_bind
    obtain ⟨p, hp, h⟩ := h.of_build
    obtain ⟨rfl, rfl⟩ := h.of_pure
    obtain ⟨hname, hbounds, rfl⟩ := eq_of_makeTypeParameter hp
    have hc := spells_optionalClassBound hc
    have his := spells_interfaceBounds his
    refine .of_write ⟨hname, hbounds, hc.wellFormed, his.wellFormed⟩ ⟨hc.unbound, his.unbound⟩ ?_
    rw [write, his.write_eq, hc.write_eq, String.toList_ofList, ← hcut, before_append_since]
  · rw [typeParameter_of_not_since (not_exists.mp hcut)] at h
    exact (Gives.not_wanted h).elim

/-- Type parameters between angle brackets, or none. -/
theorem of_optionalTypeParameters {ts : TypeTree Unit (.list .typeParameter)}
    (h : Gives (optionalTypeParameters s) ts r) :
    ts.WellFormed ∧ ts.Unbound ∧ angled ts.isNil (ts.write .internal) r = s := by
  unfold optionalTypeParameters at h
  split at h
  · obtain ⟨hr, hrun⟩ := h
    cases hrun
  · obtain ⟨us, r₁, h₁, hus, h⟩ := h.of_bind
    obtain ⟨rfl, rfl⟩ := h.of_pure
    obtain ⟨hspells, hne⟩ := spells_someEntriesUntil rfl rfl (fun _ _ _ => spells_typeParameter) hus
    refine ⟨hspells.wellFormed, hspells.unbound, ?_⟩
    show angled us.isNil _ _ = _
    rw [hne]
    exact congrArg ('<' :: ·) hspells.write_eq
  · obtain ⟨rfl, rfl⟩ := h.of_pure
    exact ⟨trivial, trivial, rfl⟩

/-! ## Methods -/

theorem spells_throwsType {t : TypeTree Unit .throwsType} (h : Gives (throwsType s) t r) :
    Spells id t s r := by
  unfold throwsType at h
  split at h
  · obtain ⟨c, r₁, h₁, hc, h⟩ := h.of_bind
    obtain ⟨rfl, rfl⟩ := h.of_pure
    have hspells := spells_segments (o := .topLevel) trivial trivial hc
    exact .of_write hspells.wellFormed hspells.unbound hspells.write_eq
  · obtain ⟨v, r₁, h₁, hv, h⟩ := h.of_bind
    obtain ⟨rfl, rfl⟩ := h.of_pure
    have hspells := spells_variableName hv
    exact .of_write hspells.wellFormed hspells.unbound hspells.write_eq
  · exact (Gives.not_wanted h).elim

theorem spells_throwsTypes {s r : List Char} {es : TypeTree Unit (.list .throwsType)}
    (h : Gives (throwsTypes s) es r) : Spells id es s r := by
  rw [throwsTypes.eq_def] at h
  split at h
  · rename_i w
    obtain ⟨t, r₁, h₁, ht, h⟩ := h.of_bind
    have hshorter : r₁.length < ('^' :: w).length := Nat.lt_succ_of_lt h₁
    obtain ⟨ts, r₂, h₂, hts, h⟩ := h.of_bind
    obtain ⟨rfl, rfl⟩ := h.of_pure
    have hfirst := spells_throwsType ht
    have hothers := spells_throwsTypes hts
    refine .of_write ⟨hfirst.wellFormed, hothers.wellFormed⟩ ⟨hfirst.unbound, hothers.unbound⟩ ?_
    show '^' :: t.write .internal (ts.write .internal r₂) = _
    rw [hothers.write_eq, hfirst.write_eq]
  · obtain ⟨rfl, rfl⟩ := h.of_pure
    exact .nil _
termination_by s.length
decreasing_by
  subst_vars
  exact hshorter

theorem spells_methodSignature {t : TypeTree Unit .methodSignature}
    (h : Gives (Grammar.methodSignature s) t r) : Spells id t s r := by
  unfold Grammar.methodSignature at h
  obtain ⟨ts, r₁, h₁, hts, h⟩ := h.of_bind
  obtain ⟨htswf, htsu, htext⟩ := of_optionalTypeParameters hts
  dsimp only at h
  split at h
  · obtain ⟨ps, r₂, h₂, hps, h⟩ := h.of_bind
    obtain ⟨t, r₃, h₃, ht, h⟩ := h.of_bind
    obtain ⟨es, r₄, h₄, hes, h⟩ := h.of_bind
    obtain ⟨d, hd, h⟩ := h.of_build
    obtain ⟨rfl, rfl⟩ := h.of_pure
    obtain ⟨hvoid, rfl⟩ := eq_of_makeMethodSignature hd
    have hps := spells_entriesUntil rfl rfl (fun _ _ _ h => (spells_value h).1) hps
    have ht := spells_typeSignature ht
    have hes := spells_throwsTypes hes
    refine .of_write ⟨hvoid, htswf, hps.wellFormed, ht.wellFormed, hes.wellFormed⟩
      ⟨htsu, hps.unbound, ht.unbound, hes.unbound⟩ ?_
    rw [write, hes.write_eq, ht.write_eq, hps.write_eq]
    exact htext
  · exact (Gives.not_wanted h).elim

/-! ## Classes -/

theorem spells_interfaces {s r : List Char} {is : TypeTree Unit (.list .classType)}
    (h : Gives (interfaces s) is r) : Spells id is s r := by
  rw [interfaces.eq_def] at h
  split at h
  · rename_i w
    obtain ⟨c, r₁, h₁, hc, h⟩ := h.of_bind
    have hshorter : r₁.length < ('L' :: w).length := Nat.lt_succ_of_lt h₁
    obtain ⟨cs, r₂, h₂, hcs, h⟩ := h.of_bind
    obtain ⟨rfl, rfl⟩ := h.of_pure
    have hfirst := spells_segments (o := .topLevel) trivial trivial hc
    have hothers := spells_interfaces hcs
    refine .of_write ⟨hfirst.wellFormed, hothers.wellFormed⟩ ⟨hfirst.unbound, hothers.unbound⟩ ?_
    show c.write .internal (';' :: cs.write .internal r₂) = _
    rw [hothers.write_eq, hfirst.write_eq]
    rfl
  · obtain ⟨rfl, rfl⟩ := h.of_pure
    exact .nil _
termination_by s.length
decreasing_by
  subst_vars
  exact hshorter

theorem spells_classSignature {t : TypeTree Unit .classSignature}
    (h : Gives (Grammar.classSignature s) t r) : Spells id t s r := by
  unfold Grammar.classSignature at h
  obtain ⟨ts, r₁, h₁, hts, h⟩ := h.of_bind
  obtain ⟨htswf, htsu, htext⟩ := of_optionalTypeParameters hts
  obtain ⟨c, r₂, h₂, hc, h⟩ := h.of_bind
  obtain ⟨is, r₃, h₃, his, h⟩ := h.of_bind
  obtain ⟨rfl, rfl⟩ := h.of_pure
  have hc := spells_classType hc
  have his := spells_interfaces his
  refine .of_write ⟨htswf, hc.wellFormed, his.wellFormed⟩ ⟨htsu, hc.unbound, his.unbound⟩ ?_
  show angled ts.isNil (ts.write .internal)
    (c.write .internal (';' :: is.write .internal r₃)) = s
  rw [his.write_eq, hc.write_eq]
  exact htext

end Grammar

/-! ## Any rule, at any place -/

/-- What reading makes of a text: in descriptors, dots become slashes. -/
def Start.normal : Start → List Char → List Char
  | .typeDescriptor, s | .classDescriptor, s | .methodDescriptor, s => Name.slashed s
  | _, s => s

theorem Start.normal_append (k : Start) (s r : List Char) :
    k.normal (s ++ r) = k.normal s ++ k.normal r := by
  cases k with
  | typeDescriptor | classDescriptor | methodDescriptor => exact Grammar.slashed_append s r
  | _ => rfl

theorem Start.normal_closing (k : Start) : k.normal k.form.closing = k.form.closing := by
  cases k <;> rfl

/-- **What a rule has read is the text of the tree that it gives.** -/
theorem Grammar.spells_rule (k : Start) {t : TypeTree Unit k.form} {s r : List Char}
    (h : Gives (rule k s) t r) : Spells k.normal t s (k.form.closing ++ r) := by
  cases k with
  | typeDescriptor => exact spells_typeDescriptor h
  | classDescriptor => exact spells_classDescriptor h
  | methodDescriptor => exact spells_methodDescriptor h
  | typeSignature => exact spells_typeSignature h
  | referenceType => exact spells_reference h
  | classType => exact spells_classType h
  | methodSignature => exact spells_methodSignature h
  | classSignature => exact spells_classSignature h
  | typeParameter => exact spells_typeParameter h
  | typeArgument => exact spells_argument h

namespace Text

theorem byteSize_pos {cs : List Char} (h : cs ≠ []) : 0 < byteSize cs := by
  cases cs with
  | nil => exact absurd rfl h
  | cons c cs => exact Nat.add_pos_left c.utf8Size_pos _

/-- Where a text can be cut, so many bytes stand before the cut. -/
theorem eq_append_of_dropBytes? {cs ds : List Char} {n : Nat} (h : dropBytes? cs n = some ds) :
    ∃ es, cs = es ++ ds ∧ byteSize es = n := by
  induction cs generalizing n with
  | nil =>
      cases n with
      | zero => exact ⟨[], Option.some.inj h, rfl⟩
      | succ n => exact nomatch h
  | cons c cs ih =>
      cases n with
      | zero => exact ⟨[], Option.some.inj h, rfl⟩
      | succ n =>
          rw [dropBytes?] at h
          split_ifs at h with hsize
          obtain ⟨es, rfl, hes⟩ := ih h
          refine ⟨c :: es, rfl, ?_⟩
          rw [byteSize, hes]
          omega

end Text

/-- A tree that was read from `start` to `stop`: what stands there is its internal text,
up to normalisation. -/
structure ReadFrom (k : Start) {ι : Type} (t : TypeTree ι k.form) (text : String)
    (start stop : Nat) : Prop where
  wellFormed : t.WellFormed
  unbound : t.Unbound
  progress : start < stop
  inside : stop ≤ Text.byteSize text.toList
  cut : ∃ before read after : String, text = before ++ read ++ after ∧
    Text.byteSize before.toList = start ∧ Text.byteSize (before ++ read).toList = stop ∧
      t.internal.toList = k.normal read.toList

/-- Tags do not matter. -/
theorem ReadFrom.of_plain {k : Start} {ι : Type} {t : TypeTree ι k.form} {text : String}
    {start stop : Nat} (h : ReadFrom k t.plain text start stop) : ReadFrom k t text start stop where
  wellFormed := (TypeTree.wellFormed_plain t).mp h.wellFormed
  unbound := (TypeTree.unbound_plain t).mp h.unbound
  progress := h.progress
  inside := h.inside
  cut := by simpa using h.cut

/-- **The parser accepts nothing but encodings.** -/
theorem readAt_eq_ok {k : Start} {text : String} {start stop : Nat} {t : TypeTree Unit k.form}
    (h : (readAt k text start : ExceptT ParseError Id _).run = Except.ok (t, stop)) :
    ReadFrom k t text start stop := by
  unfold readAt at h
  dsimp only at h
  split at h
  · exact nomatch h
  · rename_i s hdrop
    obtain ⟨p, htext, rfl⟩ := Text.eq_append_of_dropBytes? hdrop
    obtain ⟨⟨t', r, hr⟩, hrule, hstop⟩ := run_bind_eq_ok.mp h
    obtain ⟨rfl, rfl⟩ := Prod.mk.inj (Except.ok.inj hstop)
    have hspells := Grammar.spells_rule k ⟨hr, run_adapt_eq_ok.mp hrule⟩
    -- The text is what stands before, what was read, and what is left.
    obtain ⟨w, rfl⟩ := (List.suffix_append _ r).trans hspells.rest
    have hw : w ≠ [] := by
      rintro rfl
      exact absurd hr (Nat.lt_irrefl _)
    have hsize : Text.byteSize text.toList - Text.byteSize r = Text.byteSize (p ++ w) := by
      rw [htext, ← List.append_assoc, Text.byteSize_append, Nat.add_sub_cancel]
    have hwritten : t'.text .internal = k.normal w := by
      have htext := hspells.text
      rw [k.normal_append, k.normal_append, k.normal_closing, ← TypeTree.text_append] at htext
      exact List.append_cancel_right htext
    show ReadFrom k t' text _ (Text.byteSize text.toList - Text.byteSize r)
    refine ⟨hspells.wellFormed, hspells.unbound, ?_, Nat.sub_le _ _, ?_⟩
    · rw [hsize, Text.byteSize_append]
      exact Nat.lt_add_of_pos_right (Text.byteSize_pos hw)
    · refine ⟨String.ofList p, String.ofList w, String.ofList r, ?_, ?_, ?_, ?_⟩
      · rw [← String.toList_inj, htext]
        simp
      · rw [String.toList_ofList]
      · rw [hsize, String.toList_append, String.toList_ofList, String.toList_ofList]
      · rw [TypeTree.internal, String.toList_ofList, String.toList_ofList, hwritten]

end ClassfileTypes
