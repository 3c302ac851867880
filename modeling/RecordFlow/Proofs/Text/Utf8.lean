import Mathlib.Tactic.SplitIfs
import RecordFlow.Text.Utf8

/-!
# UTF-8 there and back

A byte sequence that starts with the encoding of a character is read as that character
(`Text.decodeChar?_encodeChar`), so decoding what a text was encoded to gives the text
(`Text.decode_encode`).
-/

namespace RecordFlow.Text

theorem toNat_ofNat {n : Nat} (h : n < 256) : (UInt8.ofNat n).toNat = n :=
  UInt8.toNat_ofNat_of_lt' h

/-! ## One character -/

/-- The number of a character is no surrogate. -/
theorem toNat_valid (c : Char) : c.toNat < 0xD800 ∨ 0xDFFF < c.toNat ∧ c.toNat < 0x110000 :=
  c.valid

/-- The first two bytes of a character of three: neither an overlong encoding nor a surrogate. -/
theorem isTail_of_three {n : Nat} (hlow : 0x800 ≤ n) (hhigh : n < 0x10000)
    (hvalid : n < 0xD800 ∨ 0xDFFF < n) :
    isTail (if 0xE0 + n / 4096 = 0xE0 then 0xA0 else 0x80)
      (if 0xE0 + n / 4096 = 0xED then 0x9F else 0xBF) (UInt8.ofNat (0x80 + n / 64 % 64)) = true := by
  unfold isTail
  rw [toNat_ofNat (by omega), Bool.and_eq_true, decide_eq_true_iff, decide_eq_true_iff]
  split_ifs <;> omega

/-- The first two bytes of a character of four: neither an overlong encoding nor too large. -/
theorem isTail_of_four {n : Nat} (hlow : 0x10000 ≤ n) (hhigh : n < 0x110000) :
    isTail (if 0xF0 + n / 262144 = 0xF0 then 0x90 else 0x80)
      (if 0xF0 + n / 262144 = 0xF4 then 0x8F else 0xBF)
      (UInt8.ofNat (0x80 + n / 4096 % 64)) = true := by
  unfold isTail
  rw [toNat_ofNat (by omega), Bool.and_eq_true, decide_eq_true_iff, decide_eq_true_iff]
  split_ifs <;> omega

theorem isTail_mod (n : Nat) : isTail 0x80 0xBF (UInt8.ofNat (0x80 + n % 64)) = true := by
  unfold isTail
  rw [toNat_ofNat (by omega), Bool.and_eq_true, decide_eq_true_iff, decide_eq_true_iff]
  omega

theorem tailBits_mod (n : Nat) : tailBits (UInt8.ofNat (0x80 + n % 64)) = n % 64 := by
  unfold tailBits
  rw [toNat_ofNat (by omega)]
  omega

/-- The encoding of a character is read as that character, whatever follows. -/
theorem decodeChar?_encodeChar (c : Char) (rest : List UInt8) :
    decodeChar? (encodeChar c ++ rest) = some (c, rest) := by
  have hvalid := toNat_valid c
  have hchar : ∀ n, n = c.toNat → some (Char.ofNat n, rest) = some (c, rest) := by
    rintro n rfl
    rw [Char.ofNat_toNat]
  unfold encodeChar
  dsimp only
  generalize hn : c.toNat = n at *
  split_ifs with hone htwo hthree
  · show decodeChar? (UInt8.ofNat n :: rest) = _
    unfold decodeChar?
    dsimp only
    rw [toNat_ofNat (by omega), if_pos hone]
    exact hchar n rfl
  · show decodeChar? (UInt8.ofNat (0xC0 + n / 64) :: UInt8.ofNat (0x80 + n % 64) :: rest) = _
    unfold decodeChar?
    dsimp only
    rw [toNat_ofNat (by omega), if_neg (by omega), if_pos (by simp; omega), isTail_mod, if_pos rfl,
      tailBits_mod]
    exact hchar _ (by omega)
  · show decodeChar? (UInt8.ofNat (0xE0 + n / 4096) :: UInt8.ofNat (0x80 + n / 64 % 64) ::
      UInt8.ofNat (0x80 + n % 64) :: rest) = _
    unfold decodeChar?
    dsimp only
    rw [toNat_ofNat (by omega), if_neg (by omega), if_neg (by simp; omega),
      if_pos (by simp; omega), isTail_of_three (by omega) (by omega) (by omega), isTail_mod,
      Bool.and_self, if_pos rfl, tailBits_mod, tailBits_mod]
    exact hchar _ (by omega)
  · show decodeChar? (UInt8.ofNat (0xF0 + n / 262144) :: UInt8.ofNat (0x80 + n / 4096 % 64) ::
      UInt8.ofNat (0x80 + n / 64 % 64) :: UInt8.ofNat (0x80 + n % 64) :: rest) = _
    unfold decodeChar?
    dsimp only
    rw [toNat_ofNat (by omega), if_neg (by omega), if_neg (by simp; omega), if_neg (by simp; omega),
      if_pos (by simp; omega), isTail_of_four (by omega) (by omega), isTail_mod, isTail_mod,
      Bool.and_self, Bool.and_self, if_pos rfl, tailBits_mod, tailBits_mod, tailBits_mod]
    exact hchar _ (by omega)

/-- A character below 128 is one byte. -/
theorem encodeChar_of_lt {c : Char} (h : c.toNat < 0x80) : encodeChar c = [UInt8.ofNat c.toNat] :=
  if_pos h

/-- The bytes of other characters are not below 128. -/
theorem le_of_mem_encodeChar {c : Char} (h : 0x80 ≤ c.toNat) {b : UInt8} (hb : b ∈ encodeChar c) :
    0x80 ≤ b.toNat := by
  have hvalid := toNat_valid c
  unfold encodeChar at hb
  dsimp only at hb
  generalize c.toNat = n at *
  rw [if_neg (by omega)] at hb
  split_ifs at hb <;>
    simp only [List.mem_cons, List.not_mem_nil, or_false] at hb <;>
    rcases hb with rfl | rfl | rfl | rfl <;> rw [toNat_ofNat (by omega)] <;> omega

theorem encodeChar_ne_nil (c : Char) : encodeChar c ≠ [] := by
  unfold encodeChar
  dsimp only
  split_ifs <;> exact List.cons_ne_nil _ _

/-! ## Texts -/

variable {text more : List Char}

theorem encode_cons (c : Char) (text : List Char) :
    encode (c :: text) = encodeChar c ++ encode text := List.flatMap_cons

theorem encode_append (text more : List Char) :
    encode (text ++ more) = encode text ++ encode more := List.flatMap_append

theorem length_le_length_encode (text : List Char) : text.length ≤ (encode text).length := by
  induction text with
  | nil => exact Nat.le_refl 0
  | cons c rest ih =>
    have hc := List.length_pos_iff.2 (encodeChar_ne_nil c)
    rw [encode_cons, List.length_append, List.length_cons]
    omega

theorem decodeFrom_encode {fuel : Nat} (h : text.length ≤ fuel) :
    decodeFrom fuel (encode text) = (text, []) := by
  induction text generalizing fuel with
  | nil => cases fuel <;> rfl
  | cons c rest ih =>
    cases fuel with
    | zero => exact absurd h (Nat.not_succ_le_zero _)
    | succ fuel =>
      rw [encode_cons]
      unfold decodeFrom
      rw [decodeChar?_encodeChar]
      dsimp only
      rw [ih (Nat.le_of_succ_le_succ h)]

/-- What a text was encoded to is decoded to the text. -/
theorem decode_encode (text : List Char) : decode (encode text) = .ok text := by
  unfold decode
  rw [decodeFrom_encode (length_le_length_encode text)]

end RecordFlow.Text
