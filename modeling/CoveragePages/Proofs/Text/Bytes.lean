/-
A text as UTF-8 bytes: an ASCII character is one byte below 128 and every other character several
bytes from 128 on, so an ASCII byte never stands inside a character; and the slice between the ends
of two prefixes of a text is the text between them.
-/
import CoveragePages.Text.Bytes

namespace CoveragePages.Text

/-! ## Bytes of characters -/

@[simp] theorem bytes_nil : bytes [] = [] := rfl

theorem bytes_cons (c : Char) (cs : List Char) : bytes (c :: cs) = String.utf8EncodeChar c ++ bytes cs := rfl

@[simp] theorem bytes_append (a b : List Char) : bytes (a ++ b) = bytes a ++ bytes b := List.flatMap_append

theorem bytes_cons_ascii {c : Char} (h : c.toNat < 128) (cs : List Char) :
    bytes (c :: cs) = c.toNat.toUInt8 :: bytes cs := by
  have hle : c.val.toNat ≤ 0x7f := Nat.le_of_lt_succ h
  rw [bytes_cons, String.utf8EncodeChar, if_pos hle]
  rfl

/-- A character above ASCII is two bytes or more, all of them from 128 on. -/
theorem bytes_cons_high {c : Char} (h : 128 ≤ c.toNat) (cs : List Char) :
    ∃ b b' bs, bytes (c :: cs) = b :: b' :: bs ++ bytes cs ∧ ∀ x ∈ b :: b' :: bs, 128 ≤ x.toNat := by
  have hv : ¬ c.val.toNat ≤ 0x7f := Nat.not_le_of_lt h
  have byte_ge : ∀ n k : Nat, 128 ≤ k → n + k < 256 → 128 ≤ (UInt8.ofNat (n + k)).toNat := by
    intro n k hk hlt
    rw [UInt8.toNat_ofNat', Nat.mod_eq_of_lt hlt]
    omega
  rw [bytes_cons, String.utf8EncodeChar, if_neg hv]
  split
  · refine ⟨_, _, _, rfl, fun x hx => ?_⟩
    simp only [List.mem_cons, List.not_mem_nil, or_false] at hx
    rcases hx with rfl | rfl <;> exact byte_ge _ _ (by omega) (by omega)
  · split
    · refine ⟨_, _, _, rfl, fun x hx => ?_⟩
      simp only [List.mem_cons, List.not_mem_nil, or_false] at hx
      rcases hx with rfl | rfl | rfl <;> exact byte_ge _ _ (by omega) (by omega)
    · refine ⟨_, _, _, rfl, fun x hx => ?_⟩
      simp only [List.mem_cons, List.not_mem_nil, or_false] at hx
      rcases hx with rfl | rfl | rfl | rfl <;> exact byte_ge _ _ (by omega) (by omega)

/-- The first byte of a text tells which ASCII character it starts with. -/
theorem bytes_cons_eq (c : Char) (cs : List Char) :
    ∃ b bs, bytes (c :: cs) = b :: bs ∧ ∀ x : Char, x.toNat < 128 → (b = x.toNat.toUInt8 ↔ c = x) := by
  by_cases h : c.toNat < 128
  · refine ⟨_, _, bytes_cons_ascii h cs, fun x hx => ⟨fun hb => ?_, fun hc => by rw [hc]⟩⟩
    have hn := congrArg UInt8.toNat hb
    simp only [Nat.toUInt8, UInt8.toNat_ofNat'] at hn
    rw [Nat.mod_eq_of_lt (by omega), Nat.mod_eq_of_lt (by omega)] at hn
    exact Char.toNat_inj.1 hn
  · obtain ⟨b, b', bs, hbytes, hb⟩ := bytes_cons_high (Nat.le_of_not_lt h) cs
    refine ⟨b, b' :: bs ++ bytes cs, hbytes, fun x hx => ⟨fun heq => ?_, fun hc => ?_⟩⟩
    · have hn := hb b List.mem_cons_self
      rw [heq, Nat.toUInt8, UInt8.toNat_ofNat', Nat.mod_eq_of_lt (by omega)] at hn
      omega
    · rw [hc] at h; exact absurd hx h

theorem byteLength_cons (c : Char) (cs : List Char) : byteLength (c :: cs) = c.utf8Size + byteLength cs := by
  rw [byteLength, bytes_cons, List.length_append, String.length_utf8EncodeChar]
  rfl

theorem byteLength_append (a b : List Char) : byteLength (a ++ b) = byteLength a + byteLength b := by
  rw [byteLength, bytes_append, List.length_append]
  rfl

theorem length_le_byteLength (cs : List Char) : cs.length ≤ byteLength cs := by
  induction cs with
  | nil => exact Nat.le_refl 0
  | cons c cs ih =>
    have := c.utf8Size_pos
    rw [byteLength_cons, List.length_cons]
    omega

/-! ## Slices -/

theorem dropBytes?_append (a b : List Char) : dropBytes? (a ++ b) (byteLength a) = some b := by
  induction a with
  | nil => cases b <;> rfl
  | cons c a ih =>
    have hc := c.utf8Size_pos
    rw [List.cons_append, byteLength_cons, dropBytes?, if_pos (Nat.le_add_right _ _), Nat.add_sub_cancel_left, ih]
    omega

/-- What is left at a character boundary follows the text before it. -/
theorem exists_of_dropBytes? {cs rest : List Char} {n : Nat} (h : dropBytes? cs n = some rest) :
    ∃ before, cs = before ++ rest ∧ n = byteLength before := by
  fun_induction dropBytes? cs n with
  | case1 =>
    cases h
    exact ⟨[], rfl, rfl⟩
  | case2 | case4 => cases h
  | case3 c cs n hn hle ih =>
    obtain ⟨before, rfl, hbefore⟩ := ih h
    refine ⟨c :: before, rfl, ?_⟩
    rw [byteLength_cons, ← hbefore]
    omega

theorem takeBytes?_append (a b : List Char) : takeBytes? (a ++ b) (byteLength a) = some a := by
  induction a with
  | nil => cases b <;> rfl
  | cons c a ih =>
    have hc := c.utf8Size_pos
    rw [List.cons_append, byteLength_cons, takeBytes?, if_pos (Nat.le_add_right _ _), Nat.add_sub_cancel_left, ih]
    · rfl
    · omega

/-- The slice between the ends of two prefixes of a text is what stands between them. -/
theorem slice?_append (a b c : List Char) :
    slice? (a ++ (b ++ c)) (byteLength a) (byteLength a + byteLength b) = some b := by
  rw [slice?, if_pos (Nat.le_add_right _ _), dropBytes?_append, Option.bind_some, Nat.add_sub_cancel_left,
    takeBytes?_append]

/-! ## Bytes as text -/

/-- The text with some bytes is the one that has these bytes. -/
theorem decode?_eq_some {bs : List UInt8} {text : String} : decode? bs = some text ↔ bs = bytes text.toList := by
  have hbytes : text.toByteArray = ⟨(bytes text.toList).toArray⟩ := by
    rw [← String.utf8Encode_toList]
    exact ByteArray.ext List.data_toByteArray
  rw [decode?, String.fromUTF8?]
  constructor
  · intro h
    split at h
    · have htext := congrArg String.toByteArray (Option.some.inj h)
      rw [hbytes] at htext
      exact congrArg (fun b : ByteArray => b.data.toList) htext
    · cases h
  · intro h
    have hvalid : ByteArray.IsValidUTF8 ⟨bs.toArray⟩ := by
      rw [h, ← hbytes]
      exact text.isValidUTF8
    rw [dif_pos hvalid]
    refine congrArg some (String.toByteArray_inj.1 ?_)
    rw [hbytes, ← h]
    rfl

end CoveragePages.Text
