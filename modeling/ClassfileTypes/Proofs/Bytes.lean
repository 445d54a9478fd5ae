import ClassfileTypes.Text.Utf8
import Mathlib.Tactic.SplitIfs

/-!
# Texts from their bytes

The bytes of a text say what the text is, as far as they go: what is encoded is decoded, and
if the bytes of one text begin with those of another, then so does the text.
-/

namespace ClassfileTypes.Text

variable {bs : List UInt8}

/-! ## Decoding one character -/

/-- A byte that goes on with a character. -/
def continuation (n : Nat) : UInt8 :=
  .ofNat (n % 64 + 128)

theorem toNat_ofNat {n : Nat} (h : n < 256) : (UInt8.ofNat n).toNat = n := by
  rw [UInt8.toNat_ofNat', Nat.mod_eq_of_lt h]

theorem toNat_continuation (n : Nat) : (continuation n).toNat = n % 64 + 128 :=
  toNat_ofNat (by omega)

/-- Bytes that go on with a character are there, if the first one is allowed after the lead. -/
theorem present_of_continuations {l : Lead} {n : Nat} {ns : List Nat}
    (hfollowing : l.following = (n :: ns).length)
    (hfirst : l.least.toNat ≤ n % 64 + 128 ∧ n % 64 + 128 ≤ l.most.toNat) (bs : List UInt8) :
    l.present ((n :: ns).map continuation ++ bs) = l.following := by
  induction ns generalizing l n with
  | nil =>
      rw [List.map_cons, List.map_nil, List.cons_append, Lead.present, if_pos]
      · rw [hfollowing]
        cases bs <;> rfl
      · simp only [UInt8.le_iff_toNat_le, toNat_continuation]
        exact ⟨by rw [hfollowing]; exact Nat.zero_lt_succ _, hfirst⟩
  | cons m ns ih =>
      have hrest := ih (l := ⟨l.following - 1, 0x80, 0xBF⟩) (n := m)
        (by rw [hfollowing]; rfl) (by simp; omega)
      rw [List.map_cons, List.cons_append, Lead.present, if_pos]
      · rw [hrest, hfollowing]
        rfl
      · simp only [UInt8.le_iff_toNat_le, toNat_continuation]
        exact ⟨by rw [hfollowing]; exact Nat.zero_lt_succ _, hfirst⟩

/-- A lead and as many bytes as it announces are one character. -/
theorem decodeLossy_of_lead {b : UInt8} {l : Lead} (hl : Lead.ofByte? b = some l)
    {cs : List UInt8} (hlength : cs.length = l.following)
    (hpresent : l.present (cs ++ bs) = l.following) :
    decodeLossy (b :: (cs ++ bs)) = assemble b cs :: decodeLossy bs := by
  rw [decodeLossy, hl]
  simp only [hpresent, ↓reduceIte, ← hlength, List.take_left, List.drop_left]

theorem ofByte?_one {n : Nat} (h : n < 0x80) :
    Lead.ofByte? (.ofNat n) = some ⟨0, 0x80, 0xBF⟩ := by
  have hn := toNat_ofNat (n := n) (by omega)
  rw [Lead.ofByte?, if_pos]
  rw [UInt8.lt_iff_toNat_lt, hn]
  exact h

theorem ofByte?_two {n : Nat} (h : 0xC2 ≤ n ∧ n < 0xE0) :
    Lead.ofByte? (.ofNat n) = some ⟨1, 0x80, 0xBF⟩ := by
  have hn := toNat_ofNat (n := n) (by omega)
  simp only [Lead.ofByte?, UInt8.lt_iff_toNat_lt, hn]
  rw [if_neg, if_neg, if_pos]
  all_goals simp; omega

theorem ofByte?_three {n : Nat} (h : 0xE0 ≤ n ∧ n < 0xF0) :
    Lead.ofByte? (.ofNat n) =
      some ⟨2, if n = 0xE0 then 0xA0 else 0x80, if n = 0xED then 0x9F else 0xBF⟩ := by
  have hn := toNat_ofNat (n := n) (by omega)
  simp only [Lead.ofByte?, UInt8.lt_iff_toNat_lt, ← UInt8.toNat_inj, hn]
  rw [if_neg, if_neg, if_neg]
  · split_ifs <;> first | rfl | (simp at *; omega)
  all_goals simp; omega

theorem ofByte?_four {n : Nat} (h : 0xF0 ≤ n ∧ n ≤ 0xF4) :
    Lead.ofByte? (.ofNat n) =
      some ⟨3, if n = 0xF0 then 0x90 else 0x80, if n = 0xF4 then 0x8F else 0xBF⟩ := by
  have hn := toNat_ofNat (n := n) (by omega)
  simp only [Lead.ofByte?, UInt8.lt_iff_toNat_lt, ← UInt8.toNat_inj, hn]
  rw [if_neg, if_neg, if_neg, if_neg, if_neg, if_neg]
  · split_ifs <;> first | rfl | (simp at *; omega)
  all_goals simp; omega

/-- The payload bits in order. -/
theorem assemble_continuations {n : Nat} (hn : n < 256) (m : Nat) (ms : List Nat) :
    assemble (.ofNat n) ((m :: ms).map continuation) =
      Char.ofNat ((m :: ms).foldl (fun k x => k * 64 + x % 64)
        (n % (1 <<< (6 - (m :: ms).length)))) := by
  have hpayload : ∀ x, (continuation x).toNat % 64 = x % 64 := by
    intro x
    rw [toNat_continuation]
    omega
  rw [assemble, if_neg (by simp), toNat_ofNat hn, List.length_map, List.foldl_map]
  simp only [hpayload]

theorem isValid_toNat (c : Char) :
    c.toNat < 0xD800 ∨ 0xDFFF < c.toNat ∧ c.toNat < 0x110000 :=
  c.valid

/-- The bytes of a character: a lead, and bytes that go on. -/
theorem utf8EncodeChar_eq (c : Char) : String.utf8EncodeChar c =
    if c.toNat ≤ 127 then [.ofNat c.toNat]
    else if c.toNat ≤ 2047 then .ofNat (c.toNat / 64 % 32 + 192) :: [c.toNat].map continuation
    else if c.toNat ≤ 65535 then
      .ofNat (c.toNat / 4096 % 16 + 224) :: [c.toNat / 64, c.toNat].map continuation
    else .ofNat (c.toNat / 262144 % 8 + 240) ::
      [c.toNat / 4096, c.toNat / 64, c.toNat].map continuation :=
  rfl

/-- **What is encoded is decoded.** -/
theorem decodeLossy_utf8EncodeChar (c : Char) (bs : List UInt8) :
    decodeLossy (String.utf8EncodeChar c ++ bs) = c :: decodeLossy bs := by
  have hvalid := isValid_toNat c
  have hencode := utf8EncodeChar_eq c
  obtain ⟨n, hn⟩ : ∃ n, c.toNat = n := ⟨_, rfl⟩
  have hc : Char.ofNat n = c := by rw [← hn, Char.ofNat_toNat]
  rw [hn] at hvalid hencode
  rw [hencode]
  split_ifs with h₁ h₂ h₃
  · have hone : assemble (.ofNat n) [] = Char.ofNat n := by
      rw [assemble, List.isEmpty_nil, if_pos rfl, toNat_ofNat (by omega), List.foldl_nil]
    rw [← hc, ← hone]
    exact decodeLossy_of_lead (ofByte?_one (by omega)) rfl (by cases bs <;> rfl)
  · have hpayload : [n].foldl (fun k x => k * 64 + x % 64)
        ((n / 64 % 32 + 192) % (1 <<< (6 - [n].length))) = n := by
      simp only [List.foldl, List.length_singleton, Nat.reduceSub, Nat.reduceShiftLeft]
      omega
    rw [List.cons_append, decodeLossy_of_lead (ofByte?_two (by omega)) rfl
      (present_of_continuations rfl (by simp; omega) bs), assemble_continuations (by omega),
      hpayload, hc]
  · have hpayload : [n / 64, n].foldl (fun k x => k * 64 + x % 64)
        ((n / 4096 % 16 + 224) % (1 <<< (6 - [n / 64, n].length))) = n := by
      simp only [List.foldl, List.length_cons, List.length_nil, Nat.reduceAdd, Nat.reduceSub,
        Nat.reduceShiftLeft]
      omega
    rw [List.cons_append, decodeLossy_of_lead (ofByte?_three (by omega)) rfl
      (present_of_continuations rfl (by dsimp only; split_ifs <;> simp <;> omega) bs),
      assemble_continuations (by omega), hpayload, hc]
  · have hpayload : [n / 4096, n / 64, n].foldl (fun k x => k * 64 + x % 64)
        ((n / 262144 % 8 + 240) % (1 <<< (6 - [n / 4096, n / 64, n].length))) = n := by
      simp only [List.foldl, List.length_cons, List.length_nil, Nat.reduceAdd, Nat.reduceSub,
        Nat.reduceShiftLeft]
      omega
    rw [List.cons_append, decodeLossy_of_lead (ofByte?_four (by omega)) rfl
      (present_of_continuations rfl (by dsimp only; split_ifs <;> simp <;> omega) bs),
      assemble_continuations (by omega), hpayload, hc]

/-! ## Texts -/

variable {cs ds : List Char}

theorem toBytes_append (cs ds : List Char) : toBytes (cs ++ ds) = toBytes cs ++ toBytes ds :=
  List.flatMap_append

@[simp] theorem length_toBytes (cs : List Char) : (toBytes cs).length = byteSize cs := by
  induction cs with
  | nil => rfl
  | cons c cs ih =>
      rw [toBytes, List.flatMap_cons, List.length_append, String.length_utf8EncodeChar]
      exact congrArg (c.utf8Size + ·) ih

theorem decodeLossy_append (cs : List Char) (bs : List UInt8) :
    decodeLossy (toBytes cs ++ bs) = cs ++ decodeLossy bs := by
  induction cs with
  | nil => rfl
  | cons c cs ih =>
      rw [toBytes, List.flatMap_cons, List.append_assoc, decodeLossy_utf8EncodeChar,
        List.cons_append]
      exact congrArg (c :: ·) ih

theorem decodeLossy_toBytes (cs : List Char) : decodeLossy (toBytes cs) = cs := by
  have h := decodeLossy_append cs []
  rwa [List.append_nil, decodeLossy, List.append_nil] at h

/-- **The bytes of a text say what it begins with.** -/
theorem prefix_of_toBytes (h : toBytes cs <+: toBytes ds) : cs <+: ds := by
  obtain ⟨bs, hbs⟩ := h
  refine ⟨decodeLossy bs, ?_⟩
  rw [← decodeLossy_append, hbs, decodeLossy_toBytes]

/-- The first byte of a character says whether it is ASCII, and then which one it is. -/
theorem exists_lead (c : Char) : ∃ b bs, String.utf8EncodeChar c = b :: bs ∧
    (c.toNat < 128 ∧ b.toNat = c.toNat ∨ 128 ≤ c.toNat ∧ 128 ≤ b.toNat) := by
  have hlead : ∀ n m, m + 128 ≤ n → n < 256 → 128 ≤ (UInt8.ofNat n).toNat := by
    intro n m hm hn
    rw [toNat_ofNat hn]
    omega
  rw [utf8EncodeChar_eq]
  split_ifs with h₁ h₂ h₃
  · exact ⟨_, _, rfl, Or.inl ⟨by omega, toNat_ofNat (by omega)⟩⟩
  · exact ⟨_, _, rfl, Or.inr ⟨by omega, hlead _ 64 (by omega) (by omega)⟩⟩
  · exact ⟨_, _, rfl, Or.inr ⟨by omega, hlead _ 96 (by omega) (by omega)⟩⟩
  · exact ⟨_, _, rfl, Or.inr ⟨by omega, hlead _ 112 (by omega) (by omega)⟩⟩

end ClassfileTypes.Text
