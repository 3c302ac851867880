import Mathlib.Algebra.Group.Nat.Defs
import RecordFlow.Text.Numeral

/-!
# Decimal digits

What digits denote, and the digits of a number: they denote it, and only those of zero start with a
zero.
-/

namespace RecordFlow.Text

variable {digits : List Char} {n : Nat} {c : Char}

theorem toNat_lt_of_isDigit (h : c.isDigit = true) : c.toNat < 0x80 := by
  rw [Char.isDigit, Bool.and_eq_true, decide_eq_true_iff, decide_eq_true_iff] at h
  exact Nat.lt_of_le_of_lt (UInt32.le_iff_toNat_le.1 h.2) (by decide)

/-! ## Values -/

theorem digitsValue_append (digits more : List Char) :
    digitsValue (digits ++ more) = 10 ^ more.length * digitsValue digits + digitsValue more :=
  (Nat.ofDigitChars_append 0).trans Nat.ofDigitChars_eq_ofDigitChars_zero

theorem digitsValue_replicate_zero (n : Nat) : digitsValue (List.replicate n '0') = 0 :=
  Nat.ofDigitChars_replicate_zero.trans (Nat.mul_zero _)

theorem digitsValue_toDigits (n : Nat) : digitsValue (Nat.toDigits 10 n) = n :=
  Nat.ofDigitChars_toDigits (by decide) (by decide)

/-- Zeros before digits change nothing. -/
theorem digitsValue_zeros_append (n : Nat) (digits : List Char) :
    digitsValue (List.replicate n '0' ++ digits) = digitsValue digits := by
  rw [digitsValue_append, digitsValue_replicate_zero, Nat.mul_zero, Nat.zero_add]

/-- Zeros after digits multiply by a power of ten. -/
theorem digitsValue_append_zeros (digits : List Char) (n : Nat) :
    digitsValue (digits ++ List.replicate n '0') = digitsValue digits * 10 ^ n := by
  rw [digitsValue_append, digitsValue_replicate_zero, List.length_replicate, Nat.add_zero,
    Nat.mul_comm]

/-- Fewer digits denote no more. -/
theorem digitsValue_take_le (k : Nat) (digits : List Char) :
    digitsValue (digits.take k) ≤ digitsValue digits := by
  have happend := digitsValue_append (digits.take k) (digits.drop k)
  rw [List.take_append_drop] at happend
  rw [happend]
  exact Nat.le_trans (Nat.le_mul_of_pos_left _ (Nat.pow_pos (by decide))) (Nat.le_add_right _ _)

theorem digitsValue_lt (h : ∀ c ∈ digits, c.isDigit = true) :
    digitsValue digits < 10 ^ digits.length := by
  induction digits with
  | nil => exact Nat.one_pos
  | cons c rest ih =>
    have hrest := ih fun d hd => h d (List.mem_cons_of_mem c hd)
    have hc : c.toNat - '0'.toNat ≤ 9 := by
      have hdigit := h c List.mem_cons_self
      rw [Char.isDigit, Bool.and_eq_true, decide_eq_true_iff, decide_eq_true_iff] at hdigit
      have hle : c.toNat ≤ 57 := UInt32.le_iff_toNat_le.1 hdigit.2
      show c.toNat - 48 ≤ 9
      omega
    have hone : digitsValue [c] = c.toNat - '0'.toNat := Nat.zero_add _
    rw [← List.singleton_append, digitsValue_append, hone, List.length_append,
      List.length_singleton]
    calc 10 ^ rest.length * (c.toNat - '0'.toNat) + digitsValue rest
        < 10 ^ rest.length * 9 + 10 ^ rest.length :=
          Nat.add_lt_add_of_le_of_lt (Nat.mul_le_mul_left _ hc) hrest
      _ = 10 ^ (1 + rest.length) := by rw [Nat.pow_add]; omega

/-! ## Digits of a number -/

theorem isDigit_toDigits : ∀ c ∈ Nat.toDigits 10 n, c.isDigit = true :=
  fun _ => Nat.isDigit_of_mem_toDigits (by decide) (by decide)

theorem isDigit_zeros : ∀ c ∈ List.replicate n '0', c.isDigit = true := by
  intro c hc
  rw [List.eq_of_mem_replicate hc]
  rfl

/-- The digits of a number do not start with a zero, unless they are one. -/
theorem toDigits_of_lead (h : (Nat.toDigits 10 n).head? = some '0') :
    Nat.toDigits 10 n = ['0'] := by
  obtain ⟨rest, hrest⟩ := List.head?_eq_some_iff.1 h
  cases rest with
  | nil => exact hrest
  | cons d rest =>
    -- without the zero, the digits would be too few for the number
    have hdigits : ∀ c ∈ d :: rest, c.isDigit = true := fun c hc =>
      isDigit_toDigits (n := n) c (hrest ▸ List.mem_cons_of_mem '0' hc)
    have hvalue : digitsValue ('0' :: d :: rest) = digitsValue (d :: rest) :=
      digitsValue_zeros_append 1 (d :: rest)
    rw [← hrest, digitsValue_toDigits] at hvalue
    have hlt : n < 10 ^ (rest.length + 1) := hvalue ▸ digitsValue_lt hdigits
    have hlength := (Nat.length_toDigits_le_iff (b := 10) (by decide) (Nat.succ_pos _)).2 hlt
    rw [hrest, List.length_cons, List.length_cons] at hlength
    omega

end RecordFlow.Text
