import Mathlib.Tactic.SplitIfs
import RecordFlow.Proofs.Text.Digits

/-!
# Numerals of integers

An integer of the signed 64-bit range is written as an optional sign and decimal digits
(`Text.Int64Numeral`). Reading accepts these numerals and nothing else (`Text.readInt64_eq_ok_iff`):
the range is looked at after every digit, but numbers only grow with their digits.
-/

namespace RecordFlow.Text

/-- An optional sign and digits that denote an integer of the signed 64-bit range. -/
inductive Int64Numeral : List Char → Int → Prop where
  | plain {digits : List Char} (hne : digits ≠ []) (hdigits : ∀ c ∈ digits, c.isDigit = true)
    (hrange : digitsValue digits < 0x8000000000000000) : Int64Numeral digits (digitsValue digits)
  | plus {digits : List Char} (hne : digits ≠ []) (hdigits : ∀ c ∈ digits, c.isDigit = true)
    (hrange : digitsValue digits < 0x8000000000000000) :
    Int64Numeral ('+' :: digits) (digitsValue digits)
  | minus {digits : List Char} (hne : digits ≠ []) (hdigits : ∀ c ∈ digits, c.isDigit = true)
    (hrange : digitsValue digits ≤ 0x8000000000000000) :
    Int64Numeral ('-' :: digits) (-(digitsValue digits : Int))

variable {text digits : List Char} {n : Int} {a : Nat} {negative : Bool}

theorem Int64Numeral.ne_nil (h : Int64Numeral text n) : text ≠ [] := by
  cases h with
  | plain hne _ _ => exact hne
  | _ => nofun

theorem Int64Numeral.range (h : Int64Numeral text n) :
    -0x8000000000000000 ≤ n ∧ n < 0x8000000000000000 := by
  cases h <;> omega

/-! ## Appending digits -/

/-- A number with its sign. -/
def signed (negative : Bool) (a : Nat) : Int := if negative then -(a : Int) else a

/-- The numbers with a sign that lie in the signed 64-bit range are those below this one. -/
def bound (negative : Bool) : Nat := if negative then 0x8000000000000001 else 0x8000000000000000

theorem le_ofDigitChars (digits : List Char) (a : Nat) : a ≤ Nat.ofDigitChars 10 digits a := by
  rw [Nat.ofDigitChars_eq_ofDigitChars_zero]
  exact Nat.le_trans (Nat.le_mul_of_pos_left a (Nat.pow_pos (by decide))) (Nat.le_add_right _ _)

/-- A digit is appended if the number that this makes is in the range. -/
theorem appendDigits_cons {c : Char} (hc : c.isDigit = true) (digits : List Char) :
    appendDigits negative (signed negative a) (c :: digits) =
      if 10 * a + (c.toNat - '0'.toNat) < bound negative then
        appendDigits negative (signed negative (10 * a + (c.toNat - '0'.toNat))) digits
      else .error (if negative then .tooSmall else .tooLarge) := by
  rw [appendDigits, if_pos hc]
  generalize c.toNat - '0'.toNat = d
  unfold signed bound
  cases negative with
  | true =>
    simp only [if_true]
    have hnext : 10 * -(a : Int) - (d : Nat) = -((10 * a + d : Nat) : Int) := by omega
    rw [hnext]
    split_ifs <;> first | rfl | omega
  | false =>
    simp only [if_neg Bool.false_ne_true]
    have hnext : 10 * (a : Int) + (d : Nat) = ((10 * a + d : Nat) : Int) := by omega
    rw [hnext]
    split_ifs <;> first | rfl | omega

/-- Digits are appended if all of them are digits and the number that they make is in the range: a
number on the way to it is no larger. -/
theorem appendDigits_eq_ok_iff (ha : a < bound negative) :
    appendDigits negative (signed negative a) digits = .ok n ↔
      (∀ c ∈ digits, c.isDigit = true) ∧ Nat.ofDigitChars 10 digits a < bound negative ∧
        n = signed negative (Nat.ofDigitChars 10 digits a) := by
  induction digits generalizing a with
  | nil =>
    constructor
    · rintro ⟨⟩
      exact ⟨List.forall_mem_nil _, ha, rfl⟩
    · rintro ⟨-, -, rfl⟩
      rfl
  | cons c digits ih =>
    rw [List.forall_mem_cons, Nat.ofDigitChars_cons]
    by_cases hc : c.isDigit = true
    · rw [appendDigits_cons hc]
      split_ifs with hnext
      · rw [ih hnext]
        simp only [hc, true_and]
      · refine iff_of_false nofun ?_
        rintro ⟨-, hrange, -⟩
        exact hnext (Nat.lt_of_le_of_lt (le_ofDigitChars digits _) hrange)
    · rw [appendDigits, if_neg hc]
      exact iff_of_false nofun fun h => hc h.1.1

/-! ## Reading -/

theorem readInt64_of_sign (h : splitSign text = (negative, digits)) (hne : digits ≠ []) :
    readInt64 text = .ok n ↔
      (∀ c ∈ digits, c.isDigit = true) ∧ digitsValue digits < bound negative ∧
        n = signed negative (digitsValue digits) := by
  have htext : text ≠ [] := by
    rintro rfl
    cases h
    exact hne rfl
  have hzero : signed negative 0 = 0 := by cases negative <;> rfl
  have hbound : 0 < bound negative := by cases negative <;> decide
  unfold readInt64
  rw [if_neg htext, h]
  dsimp only
  rw [if_neg hne, ← hzero]
  exact appendDigits_eq_ok_iff hbound

theorem readInt64_of_only_sign (h : splitSign text = (negative, [])) :
    readInt64 text ≠ .ok n := by
  unfold readInt64
  rw [h]
  dsimp only
  rw [if_pos rfl]
  split_ifs <;> nofun

/-- A digit is no sign. -/
theorem splitSign_of_isDigit (h : ∀ c ∈ text, c.isDigit = true) :
    splitSign text = (false, text) := by
  unfold splitSign
  split
  · exact absurd (h '-' List.mem_cons_self) (by decide)
  · exact absurd (h '+' List.mem_cons_self) (by decide)
  · rfl

/-- Numerals of integers are what is read as an integer. -/
theorem readInt64_eq_ok_iff : readInt64 text = .ok n ↔ Int64Numeral text n := by
  obtain ⟨negative, digits, hsplit⟩ : ∃ negative digits, splitSign text = (negative, digits) :=
    ⟨_, _, rfl⟩
  constructor
  · intro h
    have hne : digits ≠ [] := by
      rintro rfl
      exact readInt64_of_only_sign hsplit h
    obtain ⟨hdigits, hrange, rfl⟩ := (readInt64_of_sign hsplit hne).1 h
    unfold splitSign at hsplit
    split at hsplit <;> cases hsplit
    · exact .minus hne hdigits (Nat.le_of_lt_succ hrange)
    · exact .plus hne hdigits hrange
    · exact .plain hne hdigits hrange
  · intro h
    cases h with
    | plain hne hdigits hrange =>
      exact (readInt64_of_sign (splitSign_of_isDigit hdigits) hne).2 ⟨hdigits, hrange, rfl⟩
    | @plus digits hne hdigits hrange =>
      have hplus : splitSign ('+' :: digits) = (false, digits) := rfl
      exact (readInt64_of_sign hplus hne).2 ⟨hdigits, hrange, rfl⟩
    | @minus digits hne hdigits hrange =>
      have hminus : splitSign ('-' :: digits) = (true, digits) := rfl
      exact (readInt64_of_sign hminus hne).2 ⟨hdigits, Nat.lt_succ_of_le hrange, rfl⟩

end RecordFlow.Text
