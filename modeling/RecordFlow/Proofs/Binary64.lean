import Mathlib.Algebra.Order.Ring.Rat
import Mathlib.Data.Nat.Log
import Mathlib.Order.Monotone.Basic
import Mathlib.Tactic.FieldSimp
import Mathlib.Tactic.Ring
import RecordFlow.Number

/-!
# Values and rounding of binary64 numbers

The rational number that a bit pattern stands for (`Binary64.value`) fixes the pattern up to the
sign of zero. Rounding to the nearest pattern keeps the order, so the floats nearest to integers
are ordered as the integers are, where they differ at all (`Binary64.orderKey_ofInt_mono`). Integers
of 53 bits are not rounded (`Binary64.value_ofInt`), nor are any others that are floats
(`Binary64.ofInt_of_value`).
-/

namespace RecordFlow.Binary64

/-! ## Patterns -/

/-- A pattern is its exponent and its significand, the leading bit counted into the exponent. -/
theorem patternExponent_mul_add (p : Nat) :
    patternExponent p * leadingBit + patternSignificand p = p := by
  unfold patternExponent patternSignificand leadingBit
  split_ifs <;> omega

theorem patternSignificand_lt (p : Nat) : patternSignificand p < 2 * leadingBit := by
  unfold patternSignificand leadingBit
  split_ifs <;> omega

/-- Only the significands of the least exponent may lack the leading bit. -/
theorem leadingBit_le_patternSignificand {p : Nat} (h : 0 < patternExponent p) :
    leadingBit ≤ patternSignificand p := by
  unfold patternExponent leadingBit at h
  unfold patternSignificand leadingBit
  split_ifs <;> omega

theorem patternUnits_strictMono : StrictMono patternUnits := by
  intro p q hpq
  unfold patternUnits
  rw [Nat.shiftLeft_eq, Nat.shiftLeft_eq]
  have hp := patternExponent_mul_add p
  have hq := patternExponent_mul_add q
  have hlt := patternSignificand_lt p
  rcases Nat.lt_trichotomy (patternExponent p) (patternExponent q) with he | he | he
  · have hlead : leadingBit ≤ patternSignificand q :=
      leadingBit_le_patternSignificand (by omega)
    calc patternSignificand p * 2 ^ patternExponent p
        < 2 * leadingBit * 2 ^ patternExponent p :=
          Nat.mul_lt_mul_of_pos_right hlt (Nat.two_pow_pos _)
      _ = leadingBit * 2 ^ (patternExponent p + 1) := by ring
      _ ≤ patternSignificand q * 2 ^ patternExponent q :=
          Nat.mul_le_mul hlead (Nat.pow_le_pow_right (by decide) he)
  · rw [he] at hp ⊢
    exact Nat.mul_lt_mul_of_pos_right (by omega) (Nat.two_pow_pos _)
  · have hlead : leadingBit ≤ patternSignificand p :=
      leadingBit_le_patternSignificand (by omega)
    have hqlt := patternSignificand_lt q
    unfold leadingBit at *
    omega

variable {x y : Binary64}

/-- A number is its sign and its magnitude. -/
theorem eq_of_magnitude (hneg : x.negative = y.negative) (hmag : x.magnitude = y.magnitude) :
    x = y := by
  obtain ⟨b, hb⟩ := x
  obtain ⟨c, hc⟩ := y
  have hbits : b.toNat = c.toNat := by
    have hblt := b.toNat_lt
    have hclt := c.toNat_lt
    unfold negative signBit at hneg
    unfold magnitude signBit at hmag
    rw [decide_eq_decide] at hneg
    dsimp only at hneg hmag
    omega
  cases UInt64.toNat_inj.1 hbits
  rfl

theorem orderKey_injective : Function.Injective orderKey := by
  intro x y h
  unfold orderKey at h
  cases hx : x.negative <;> cases hy : y.negative <;> rw [hx, hy] at h <;>
    simp only [Bool.false_eq_true, if_true, if_false] at h
  · exact eq_of_magnitude (hx.trans hy.symm) (by omega)
  · omega
  · omega
  · exact eq_of_magnitude (hx.trans hy.symm) (by omega)

/-- The number of units fixes a number, but for the sign of zero. -/
theorem units_eq_iff : x.units = y.units ↔ x = y ∨ x.magnitude = 0 ∧ y.magnitude = 0 := by
  have hzero : patternUnits 0 = 0 := rfl
  have hinj : ∀ {p q : Nat}, patternUnits p = patternUnits q ↔ p = q :=
    patternUnits_strictMono.injective.eq_iff
  constructor
  · intro h
    unfold units at h
    -- equal signs give equal magnitudes, different signs only zeros
    cases hx : x.negative <;> cases hy : y.negative <;> rw [hx, hy] at h <;>
      simp only [Bool.false_eq_true, if_true, if_false] at h
    · exact .inl (eq_of_magnitude (hx.trans hy.symm) (hinj.1 (by omega)))
    · exact .inr ⟨hinj.1 (by omega), hinj.1 (by omega)⟩
    · exact .inr ⟨hinj.1 (by omega), hinj.1 (by omega)⟩
    · exact .inl (eq_of_magnitude (hx.trans hy.symm) (hinj.1 (by omega)))
  · rintro (rfl | ⟨hx, hy⟩)
    · rfl
    · unfold units
      rw [hx, hy, hzero]
      simp

theorem natAbs_units (x : Binary64) : x.units.natAbs = patternUnits x.magnitude := by
  unfold units
  cases x.negative <;> simp

theorem negative_of_units_ne (h : x.units ≠ 0) : x.negative = decide (x.units < 0) := by
  unfold units at h ⊢
  cases hneg : x.negative <;> rw [hneg] at h <;> simp at h ⊢
  exact Nat.pos_of_ne_zero h

/-- The order of patterns is that of their numbers, but for the zeros. -/
theorem units_mono (h : x.orderKey ≤ y.orderKey) : x.units ≤ y.units := by
  have hmono := patternUnits_strictMono.monotone
  unfold orderKey at h
  unfold units
  cases hx : x.negative <;> cases hy : y.negative <;> rw [hx, hy] at h <;>
    simp only [Bool.false_eq_true, if_true, if_false] at h ⊢
  · exact_mod_cast hmono (show x.magnitude ≤ y.magnitude by omega)
  · omega
  · omega
  · have hle := hmono (show y.magnitude ≤ x.magnitude by omega)
    omega

/-! ## Values -/

/-- The size of the rational number that a bit pattern stands for: a fraction of 52 bits, with a
leading one unless the eleven bits of the exponent are zero, scaled by a power of two. -/
def size (x : Binary64) : ℚ :=
  let exponent : ℕ := x.bits.toNat / 2 ^ 52 % 2 ^ 11
  let fraction : ℚ := (x.bits.toNat % 2 ^ 52 : ℕ) / 2 ^ 52
  if exponent = 0 then fraction * 2 ^ (-1022 : ℤ) else (1 + fraction) * 2 ^ ((exponent : ℤ) - 1023)

/-- The rational number that a bit pattern stands for. -/
def value (x : Binary64) : ℚ := if x.negative then -x.size else x.size

theorem size_eq (x : Binary64) :
    x.size = patternSignificand x.magnitude * 2 ^ ((patternExponent x.magnitude : ℤ) - 1074) := by
  have hexponent : x.bits.toNat / 2 ^ 52 % 2 ^ 11 = x.magnitude / leadingBit := by
    have hfinite := x.finite
    unfold magnitude signBit leadingBit
    unfold signBit infinityPattern at hfinite
    omega
  have hfraction : x.bits.toNat % 2 ^ 52 = x.magnitude % leadingBit := by
    unfold magnitude signBit leadingBit
    omega
  unfold size patternSignificand patternExponent
  dsimp only
  rw [hexponent, hfraction]
  generalize x.magnitude = p
  by_cases hp : p / leadingBit = 0
  · have hlt : p < leadingBit := by unfold leadingBit at *; omega
    rw [if_pos hp, if_pos hlt, hp, Nat.mod_eq_of_lt hlt,
      show (((0 - 1 : ℕ) : ℤ) - 1074) = -1022 + (-52) by norm_num, zpow_add₀ two_ne_zero,
      show (2 : ℚ) ^ (-52 : ℤ) = 1 / 2 ^ 52 by norm_num]
    ring
  · have hle : ¬ p < leadingBit := by unfold leadingBit at *; omega
    have hpred : ((p / leadingBit - 1 : ℕ) : ℤ) - 1074 =
        ((p / leadingBit : ℕ) : ℤ) - 1023 + (-52) := by
      generalize p / leadingBit = e at *
      omega
    rw [if_neg hp, if_neg hle, hpred, zpow_add₀ two_ne_zero,
      show (2 : ℚ) ^ (-52 : ℤ) = 1 / 2 ^ 52 by norm_num]
    push_cast
    ring

theorem cast_unitsPerOne : (unitsPerOne : ℚ) = 2 ^ (1074 : ℤ) := by
  -- for any exponent, since the power itself is too large to be written out
  have hshift : ∀ k : ℕ, ((1 <<< k : ℕ) : ℚ) = 2 ^ (k : ℤ) := by
    intro k
    rw [Nat.one_shiftLeft, Nat.cast_pow, zpow_natCast, Nat.cast_ofNat]
  exact hshift 1074

/-- The value of a number is its number of units. -/
theorem value_mul_unitsPerOne (x : Binary64) : x.value * unitsPerOne = x.units := by
  have hsize : x.size * unitsPerOne = patternUnits x.magnitude := by
    unfold patternUnits
    rw [size_eq, cast_unitsPerOne, mul_assoc, ← zpow_add₀ two_ne_zero, sub_add_cancel,
      zpow_natCast, Nat.shiftLeft_eq]
    push_cast
    rfl
  unfold value units
  cases x.negative
  · simpa using hsize
  · simpa using hsize

theorem unitsPerOne_ne_zero : (unitsPerOne : ℚ) ≠ 0 := by
  rw [cast_unitsPerOne]
  exact zpow_ne_zero 1074 two_ne_zero

theorem value_eq_iff_units : x.value = y.value ↔ x.units = y.units := by
  rw [← Int.cast_inj (α := ℚ), ← value_mul_unitsPerOne, ← value_mul_unitsPerOne,
    mul_left_inj' unitsPerOne_ne_zero]

/-- Nonzero numbers of one value are one number. -/
theorem eq_of_value_eq (h : x.value = y.value) (hne : x.value ≠ 0) : x = y := by
  rcases units_eq_iff.1 (value_eq_iff_units.1 h) with heq | ⟨hzero, -⟩
  · exact heq
  · have hunits : x.units = 0 := by
      unfold units
      rw [hzero]
      cases x.negative <;> rfl
    have hvalue : x.value * unitsPerOne = 0 := by
      rw [value_mul_unitsPerOne, hunits, Int.cast_zero]
    exact absurd ((mul_eq_zero_iff_right unitsPerOne_ne_zero).1 hvalue) hne

theorem units_of_value {n : Int} (h : x.value = n) : x.units = n * unitsPerOne := by
  have hvalue := value_mul_unitsPerOne x
  rw [h] at hvalue
  exact_mod_cast hvalue.symm

/-- The zero of negative sign. -/
def negativeZero : Binary64 := ⟨0x8000000000000000, by decide⟩

/-- There are two zeros. -/
theorem eq_zero_or_negativeZero (h : x.value = 0) : x = zero ∨ x = negativeZero := by
  have hunits : x.units = zero.units := by
    rw [units_of_value (n := 0) (by simpa using h), Int.zero_mul]
    rfl
  have hmag : x.magnitude = 0 := by
    rcases units_eq_iff.1 hunits with rfl | ⟨hmag, -⟩
    · rfl
    · exact hmag
  cases hneg : x.negative
  · exact .inl (eq_of_magnitude hneg hmag)
  · exact .inr (eq_of_magnitude hneg hmag)

theorem toInt?_eq_some_iff {n : Int} : x.toInt? = some n ↔ x.value = n := by
  have hpos : (unitsPerOne : Int) ≠ 0 := by exact_mod_cast unitsPerOne_ne_zero
  have hunits : x.value = n ↔ x.units = n * unitsPerOne := by
    rw [← mul_left_inj' unitsPerOne_ne_zero, value_mul_unitsPerOne]
    norm_cast
  rw [hunits]
  unfold toInt?
  constructor
  · intro h
    split_ifs at h with hmod
    cases h
    exact (Int.ediv_mul_cancel (Int.dvd_of_emod_eq_zero hmod)).symm
  · intro h
    rw [h, if_pos (Int.mul_emod_left n _), Int.mul_ediv_cancel n hpos]

/-! ## Rounding -/

theorem le_roundHalfEven {a n d : Nat} (hd : 0 < d) (h : a * d ≤ n) : a ≤ roundHalfEven n d := by
  have hq : a ≤ n / d := (Nat.le_div_iff_mul_le hd).2 h
  unfold roundHalfEven
  dsimp only
  split_ifs <;> omega

theorem roundHalfEven_le {b n d : Nat} (hd : 0 < d) (h : n < b * d) : roundHalfEven n d ≤ b := by
  have hq : n / d < b := (Nat.div_lt_iff_lt_mul hd).2 h
  unfold roundHalfEven
  dsimp only
  split_ifs <;> omega

theorem roundHalfEven_mono {n m d : Nat} (hd : 0 < d) (h : n ≤ m) :
    roundHalfEven n d ≤ roundHalfEven m d := by
  rcases Nat.lt_or_eq_of_le (Nat.div_le_div_right (c := d) h) with hlt | heq
  · -- a whole number lies in between, which rounding does not pass
    have hn : n < (n / d + 1) * d := by
      rw [Nat.mul_comm]
      exact Nat.lt_mul_div_succ n hd
    calc roundHalfEven n d ≤ n / d + 1 := roundHalfEven_le hd hn
      _ ≤ m / d := hlt
      _ ≤ roundHalfEven m d := le_roundHalfEven hd (Nat.div_mul_le_self m d)
  · have hn := Nat.div_add_mod n d
    have hm := Nat.div_add_mod m d
    unfold roundHalfEven
    dsimp only
    rw [← heq] at hm ⊢
    split_ifs <;> omega

/-- The exponent of the pattern nearest to `n / d`. -/
def nearestExponent (n d : Nat) : Nat := Nat.log2 (n * unitsPerOne / d) - 52

theorem nearestPattern_eq (n d : Nat) :
    nearestPattern n d = nearestExponent n d * leadingBit +
      roundHalfEven (n * unitsPerOne) (d * 2 ^ nearestExponent n d) := by
  rw [← Nat.shiftLeft_eq]
  rfl

variable {n m d : Nat}

theorem lt_two_pow_nearestExponent (n d : Nat) :
    n * unitsPerOne / d < 2 ^ (nearestExponent n d + 53) := by
  refine Nat.lt_of_lt_of_le Nat.lt_log2_self (Nat.pow_le_pow_right (by decide) ?_)
  unfold nearestExponent
  omega

/-- The significand of the nearest pattern rounds up to the next exponent at most. -/
theorem nearestPattern_le (hd : 0 < d) :
    nearestPattern n d ≤ (nearestExponent n d + 2) * leadingBit := by
  have hlog := lt_two_pow_nearestExponent n d
  have hround : roundHalfEven (n * unitsPerOne) (d * 2 ^ nearestExponent n d) ≤ 2 * leadingBit := by
    refine roundHalfEven_le (Nat.mul_pos hd (Nat.two_pow_pos _)) ?_
    calc n * unitsPerOne < 2 ^ (nearestExponent n d + 53) * d := (Nat.div_lt_iff_lt_mul hd).1 hlog
      _ = 2 * leadingBit * (d * 2 ^ nearestExponent n d) := by
        unfold leadingBit
        ring
  rw [nearestPattern_eq, Nat.add_mul]
  omega

/-- Above the least exponent, a quotient has the leading bit of its significand. -/
theorem leadingBit_mul_le (hd : 0 < d) (h : 0 < nearestExponent n d) :
    leadingBit * (d * 2 ^ nearestExponent n d) ≤ n * unitsPerOne := by
  have hlog : Nat.log2 (n * unitsPerOne / d) = nearestExponent n d + 52 := by
    unfold nearestExponent at h ⊢
    omega
  have hne : n * unitsPerOne / d ≠ 0 := by
    intro hzero
    rw [hzero] at hlog
    have hlog0 : Nat.log2 0 = 0 := rfl
    omega
  calc leadingBit * (d * 2 ^ nearestExponent n d)
      = 2 ^ (nearestExponent n d + 52) * d := by
        unfold leadingBit
        ring
    _ ≤ n * unitsPerOne := by
      rw [← Nat.le_div_iff_mul_le hd, ← hlog]
      exact Nat.log2_self_le hne

/-- Above the least exponent, the significand of the nearest pattern has its leading bit. -/
theorem le_nearestPattern (hd : 0 < d) (h : 0 < nearestExponent n d) :
    (nearestExponent n d + 1) * leadingBit ≤ nearestPattern n d := by
  have hround : leadingBit ≤ roundHalfEven (n * unitsPerOne) (d * 2 ^ nearestExponent n d) :=
    le_roundHalfEven (Nat.mul_pos hd (Nat.two_pow_pos _)) (leadingBit_mul_le hd h)
  rw [nearestPattern_eq, Nat.add_mul]
  omega

theorem nearestExponent_mono (h : n ≤ m) : nearestExponent n d ≤ nearestExponent m d := by
  have hwhole : n * unitsPerOne / d ≤ m * unitsPerOne / d :=
    Nat.div_le_div_right (Nat.mul_le_mul_right _ h)
  unfold nearestExponent
  rw [Nat.log2_eq_log_two, Nat.log2_eq_log_two]
  exact Nat.sub_le_sub_right (Nat.log_mono_right hwhole) 52

/-- Rounding keeps the order. -/
theorem nearestPattern_mono (hd : 0 < d) (h : n ≤ m) : nearestPattern n d ≤ nearestPattern m d := by
  rcases Nat.lt_or_eq_of_le (nearestExponent_mono (d := d) h) with hlt | heq
  · calc nearestPattern n d ≤ (nearestExponent n d + 2) * leadingBit := nearestPattern_le hd
      _ ≤ (nearestExponent m d + 1) * leadingBit := Nat.mul_le_mul_right _ (by omega)
      _ ≤ nearestPattern m d := le_nearestPattern hd (by omega)
  · rw [nearestPattern_eq, nearestPattern_eq, heq]
    refine Nat.add_le_add_left (roundHalfEven_mono ?_ (Nat.mul_le_mul_right _ h)) _
    exact Nat.mul_pos hd (Nat.two_pow_pos _)

/-! ## Integers -/

theorem roundHalfEven_mul (hd : 0 < d) (q : Nat) : roundHalfEven (d * q) d = q := by
  unfold roundHalfEven
  dsimp only
  rw [Nat.mul_mod_right, Nat.mul_div_cancel_left q hd, if_pos (by omega)]

/-- The units of a pattern, given by its exponent and its significand. -/
theorem patternUnits_eq {e s : Nat} (hs : s < 2 * leadingBit) (he : 0 < e → leadingBit ≤ s) :
    patternUnits (e * leadingBit + s) = s * 2 ^ e := by
  have hexponent : patternExponent (e * leadingBit + s) = e := by
    unfold patternExponent
    unfold leadingBit at *
    omega
  have hsignificand : patternSignificand (e * leadingBit + s) = s := by
    have hadd := patternExponent_mul_add (e * leadingBit + s)
    rw [hexponent] at hadd
    omega
  unfold patternUnits
  rw [hexponent, hsignificand, Nat.shiftLeft_eq]

theorem two_pow_dvd_unitsPerOne {e : Nat} (h : e ≤ 1074) : 2 ^ e ∣ unitsPerOne := by
  have hshift : ∀ k, e ≤ k → 2 ^ e ∣ 1 <<< k := by
    intro k hk
    rw [Nat.one_shiftLeft]
    exact Nat.pow_dvd_pow 2 hk
  exact hshift 1074 h

theorem nearestExponent_le (h : n < 2 ^ 53) : nearestExponent n 1 ≤ 1074 := by
  have hlog : ∀ k, Nat.log2 (n * 1 <<< k) < 53 + k := by
    intro k
    by_cases hzero : n * 1 <<< k = 0
    · rw [hzero]
      exact Nat.lt_of_lt_of_le (show Nat.log2 0 < 53 by decide) (Nat.le_add_right 53 k)
    · rw [Nat.log2_lt hzero, Nat.one_shiftLeft, Nat.pow_add]
      exact Nat.mul_lt_mul_of_pos_right h (Nat.two_pow_pos k)
  have hunits : Nat.log2 (n * unitsPerOne) < 53 + 1074 := hlog 1074
  unfold nearestExponent
  rw [Nat.div_one]
  omega

/-- Integers of 53 bits are floats, so rounding leaves them as they are. -/
theorem patternUnits_nearestPattern (h : n ≤ 2 ^ 53) :
    patternUnits (nearestPattern n 1) = n * unitsPerOne := by
  rcases Nat.lt_or_eq_of_le h with hlt | rfl
  · obtain ⟨q, hq⟩ : 2 ^ nearestExponent n 1 ∣ n * unitsPerOne :=
      Dvd.dvd.mul_left (two_pow_dvd_unitsPerOne (nearestExponent_le hlt)) n
    have hpattern : nearestPattern n 1 = nearestExponent n 1 * leadingBit + q := by
      rw [nearestPattern_eq, Nat.one_mul, hq, roundHalfEven_mul (Nat.two_pow_pos _)]
    have hsignificand : q < 2 * leadingBit := by
      have hbound := lt_two_pow_nearestExponent n 1
      rw [Nat.div_one, hq, Nat.pow_add] at hbound
      exact Nat.lt_of_mul_lt_mul_left hbound
    rw [hpattern, patternUnits_eq hsignificand, hq, Nat.mul_comm]
    intro hpos
    have hle := le_nearestPattern Nat.one_pos hpos
    rw [hpattern, Nat.add_mul] at hle
    omega
  · decide +kernel

theorem nearestPattern_lt (h : n ≤ 2 ^ 64) : nearestPattern n 1 < infinityPattern := by
  refine Nat.lt_of_le_of_lt (nearestPattern_mono Nat.one_pos h) ?_
  decide +kernel

/-- A finite pattern and a sign make a number. -/
theorem ofPattern?_eq_some (neg : Bool) {p : Nat} (h : p < infinityPattern) :
    ∃ x, ofPattern? neg p = some x ∧ x.negative = neg ∧ x.magnitude = p := by
  have hbits : (UInt64.ofNat (if neg then signBit + p else p)).toNat =
      if neg then signBit + p else p := by
    refine UInt64.toNat_ofNat_of_lt' ?_
    unfold infinityPattern at h
    unfold signBit UInt64.size
    split_ifs <;> omega
  have hmod : (if neg then signBit + p else p) % signBit = p := by
    unfold infinityPattern at h
    unfold signBit
    split_ifs <;> omega
  have hfinite : (UInt64.ofNat (if neg then signBit + p else p)).toNat % signBit <
      infinityPattern := by
    rw [hbits, hmod]
    exact h
  refine ⟨⟨_, hfinite⟩, ?_, ?_, ?_⟩
  · unfold ofPattern?
    rw [dif_pos hfinite, if_pos h]
  · unfold negative
    rw [hbits]
    unfold infinityPattern at h
    unfold signBit
    cases neg <;> simp
    omega
  · unfold magnitude
    rw [hbits, hmod]

/-- The float nearest to an integer has its sign and the pattern nearest to its size. -/
theorem ofInt_pattern {n : Int} (h : n.natAbs ≤ 2 ^ 64) :
    (ofInt n).negative = decide (n < 0) ∧ (ofInt n).magnitude = nearestPattern n.natAbs 1 := by
  obtain ⟨x, hx, hneg, hmag⟩ := ofPattern?_eq_some (decide (n < 0)) (nearestPattern_lt h)
  unfold ofInt nearest?
  rw [hx, Option.getD_some]
  exact ⟨hneg, hmag⟩

/-- An integer of 53 bits is the value of the float nearest to it. -/
theorem value_ofInt {n : Int} (h : n.natAbs ≤ 2 ^ 53) : (ofInt n).value = n := by
  obtain ⟨hneg, hmag⟩ := ofInt_pattern (h.trans (by decide))
  have hunits : (ofInt n).units = n * unitsPerOne := by
    unfold units
    rw [hneg, hmag, patternUnits_nearestPattern h]
    push_cast
    simp only [decide_eq_true_eq]
    split_ifs with hsign
    · rw [abs_of_neg hsign, Int.neg_mul, Int.neg_neg]
    · rw [abs_of_nonneg (by omega)]
  rw [← mul_left_inj' unitsPerOne_ne_zero, value_mul_unitsPerOne, hunits]
  push_cast
  rfl

/-- A number of units that is a whole number is rounded to its own pattern. -/
theorem nearestPattern_of_patternUnits {p : Nat} (h : patternUnits p = n * unitsPerOne) :
    nearestPattern n 1 = p := by
  have hsignificand := patternSignificand_lt p
  unfold patternUnits at h
  rw [Nat.shiftLeft_eq] at h
  have hexponent : nearestExponent n 1 = patternExponent p := by
    unfold nearestExponent
    rw [Nat.div_one, ← h]
    rcases Nat.eq_zero_or_pos (patternExponent p) with hzero | hpos
    · rw [hzero, Nat.pow_zero, Nat.mul_one]
      by_cases hne : patternSignificand p = 0
      · rw [hne]
        rfl
      · have hlog : Nat.log2 (patternSignificand p) < 53 := (Nat.log2_lt hne).2 hsignificand
        omega
    · have hlead := leadingBit_le_patternSignificand hpos
      have hlog : Nat.log2 (patternSignificand p * 2 ^ patternExponent p) =
          52 + patternExponent p := by
        rw [Nat.log2_eq_iff (Nat.mul_ne_zero (by unfold leadingBit at hlead; omega)
          (Nat.two_pow_pos _).ne'), Nat.pow_add, Nat.add_right_comm, Nat.pow_add]
        exact ⟨Nat.mul_le_mul_right _ hlead,
          Nat.mul_lt_mul_of_pos_right hsignificand (Nat.two_pow_pos _)⟩
      omega
  rw [nearestPattern_eq, hexponent, ← h, Nat.one_mul, Nat.mul_comm (patternSignificand p),
    roundHalfEven_mul (Nat.two_pow_pos _)]
  exact patternExponent_mul_add p

/-- An integer that is a float, and not zero, is the float nearest to it. -/
theorem ofInt_of_value {n : Int} (h : x.value = n) (hrange : n.natAbs ≤ 2 ^ 64) (hne : n ≠ 0) :
    ofInt n = x := by
  obtain ⟨hneg, hmag⟩ := ofInt_pattern hrange
  have hunits := units_of_value h
  have hpos : (0 : Int) < unitsPerOne :=
    Int.natCast_pos.2 (Nat.pos_of_ne_zero (by exact_mod_cast unitsPerOne_ne_zero))
  have hsign : x.negative = decide (n < 0) := by
    rw [negative_of_units_ne (by rw [hunits]; exact mul_ne_zero hne hpos.ne'), hunits,
      decide_eq_decide]
    exact ⟨fun hlt => Int.neg_of_mul_neg_left hlt hpos,
      fun hlt => Int.mul_neg_of_neg_of_pos hlt hpos⟩
  have hpattern : patternUnits x.magnitude = n.natAbs * unitsPerOne := by
    rw [← natAbs_units, hunits, Int.natAbs_mul, Int.natAbs_natCast]
  exact eq_of_magnitude (hneg.trans hsign.symm) (hmag.trans (nearestPattern_of_patternUnits hpattern))

theorem ofInt_zero : ofInt 0 = zero := by
  decide +kernel

theorem orderKey_ofInt {n : Int} (h : n.natAbs ≤ 2 ^ 64) :
    (ofInt n).orderKey =
      if n < 0 then -(nearestPattern n.natAbs 1 : Int) - 1 else nearestPattern n.natAbs 1 := by
  obtain ⟨hneg, hmag⟩ := ofInt_pattern h
  unfold orderKey
  rw [hneg, hmag]
  simp only [decide_eq_true_eq]

/-- The floats nearest to integers are in the order of the integers, or equal. -/
theorem orderKey_ofInt_mono {m n : Int} (hm : m.natAbs ≤ 2 ^ 64) (hn : n.natAbs ≤ 2 ^ 64)
    (h : m ≤ n) : (ofInt m).orderKey ≤ (ofInt n).orderKey := by
  rw [orderKey_ofInt hm, orderKey_ofInt hn]
  by_cases hsign : n < 0
  · have hmono : nearestPattern n.natAbs 1 ≤ nearestPattern m.natAbs 1 :=
      nearestPattern_mono Nat.one_pos (by omega)
    rw [if_pos hsign, if_pos (by omega)]
    omega
  · rw [if_neg hsign]
    split_ifs with hneg
    · omega
    · have hmono : nearestPattern m.natAbs 1 ≤ nearestPattern n.natAbs 1 :=
        nearestPattern_mono Nat.one_pos (by omega)
      omega

/-- No integer but zero is rounded to a zero. -/
theorem eq_zero_of_magnitude_ofInt {n : Int} (h : n.natAbs ≤ 2 ^ 64)
    (hzero : (ofInt n).magnitude = 0) : n = 0 := by
  by_contra hne
  have hone : nearestPattern 1 1 ≤ nearestPattern n.natAbs 1 :=
    nearestPattern_mono Nat.one_pos (by omega)
  rw [← (ofInt_pattern h).2, hzero] at hone
  revert hone
  decide +kernel

/-- Integers are rounded to floats of one value only if these are one float. -/
theorem ofInt_eq_of_units_eq {m n : Int} (hm : m.natAbs ≤ 2 ^ 64) (hn : n.natAbs ≤ 2 ^ 64)
    (h : (ofInt m).units = (ofInt n).units) : ofInt m = ofInt n := by
  rcases units_eq_iff.1 h with heq | ⟨hmzero, hnzero⟩
  · exact heq
  · rw [eq_zero_of_magnitude_ofInt hm hmzero, eq_zero_of_magnitude_ofInt hn hnzero]

end RecordFlow.Binary64
