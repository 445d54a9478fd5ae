import ClassfileTypes.Name
import Mathlib.Tactic.Common

/-!
# Valid names

What the two validations of names guarantee, and that a name in normal form
passes its own validation unchanged. Encodings are read back at delimiters, so
the facts that matter are which characters a valid name cannot hold.
-/

namespace ClassfileTypes.Name

/-- A class name in normal form: no delimiter, no dot, no empty segment. -/
structure IsClassName (n : String) : Prop where
  nonempty : n.toList ≠ []
  clean : ∀ c ∈ n.toList, isDelimiter c = false ∧ c ≠ '.'
  segments : hasEmptySegment true n.toList = false

/-- A simple name: no delimiter and no separator. -/
structure IsSimpleName (n : String) : Prop where
  nonempty : n.toList ≠ []
  clean : ∀ c ∈ n.toList, isDelimiter c = false ∧ isSeparator c = false

theorem slashed_of_no_dot {cs : List Char} (h : ∀ c ∈ cs, c ≠ '.') : slashed cs = cs := by
  unfold slashed
  conv_rhs => rw [← List.map_id cs]
  apply List.map_congr_left
  intro c hc
  simp [h c hc]

theorem ne_dot_of_mem_slashed {cs : List Char} {c : Char} (h : c ∈ slashed cs) : c ≠ '.' := by
  obtain ⟨d, -, rfl⟩ := List.mem_map.mp h
  by_cases hd : d = '.'
  · simp [hd]
  · simp [hd]

theorem not_delimiter_of_mem_slashed {cs : List Char}
    (h : ∀ c ∈ cs, isDelimiter c = false) {c : Char} (hc : c ∈ slashed cs) :
    isDelimiter c = false := by
  obtain ⟨d, hd, rfl⟩ := List.mem_map.mp hc
  by_cases he : d = '.'
  · simp [he, isDelimiter]
  · simpa [he] using h d hd

/-- **What is accepted as a class name is stored in normal form.** -/
theorem isClassName_of_classNameOf {n m : String} (h : classNameOf n = .ok m) :
    IsClassName m := by
  dsimp only [classNameOf] at h
  split_ifs at h with h₁ h₂ h₃
  obtain rfl := Except.ok.inj h
  refine ⟨?_, ?_, ?_⟩
  · simpa [slashed] using h₁
  · intro c hc
    rw [String.toList_ofList] at hc
    refine ⟨not_delimiter_of_mem_slashed ?_ hc, ne_dot_of_mem_slashed hc⟩
    simpa using h₂
  · simpa using h₃

/-- **A class name in normal form is accepted as it is.** -/
theorem IsClassName.classNameOf_eq {n : String} (h : IsClassName n) : classNameOf n = .ok n := by
  have hdot : slashed n.toList = n.toList := slashed_of_no_dot fun c hc => (h.clean c hc).2
  have hdelim : n.toList.any isDelimiter = false := by
    simpa using fun c hc => (h.clean c hc).1
  dsimp only [classNameOf]
  rw [if_neg (by simpa using h.nonempty), if_neg (by simp [hdelim]), hdot,
    if_neg (by simp [h.segments]), String.ofList_toList]

/-- **A simple name is accepted exactly if it is one, and as it is.** -/
theorem simpleNameOf_eq_ok_iff {n m : String} :
    simpleNameOf n = .ok m ↔ n = m ∧ IsSimpleName n := by
  dsimp only [simpleNameOf]
  constructor
  · intro h
    split_ifs at h with h₁ h₂
    refine ⟨Except.ok.inj h, by simpa using h₁, ?_⟩
    simpa using h₂
  · rintro ⟨rfl, h⟩
    rw [if_neg (by simpa using h.nonempty), if_neg (by simpa using h.clean)]

end ClassfileTypes.Name
