import RecordFlow.Proofs.Binary64

/-!
# Machine numbers

The machine takes a bit pattern apart into a sign, a significand and an exponent, and for finite
numbers these are the ones their values are made of (`Binary64.unpack_bits`). So a finite number
comes back from the machine as it is (`Binary64.ofFloat?_toFloat`), and the machine orders finite
numbers by value (`Binary64.toFloat_lt_iff`).
-/

namespace RecordFlow.Binary64

open Float.Model (Format UnpackedFloat)
open Float.Model.UnpackedFloat (Sign unpackMantissa unpackExponent unpackSign packComponents)

/-! ## Taking patterns apart -/

variable (x y : Binary64)

theorem toNat_unpackMantissa :
    (@unpackMantissa Format.binary64 x.bits.toBitVec).toNat = x.magnitude % leadingBit := by
  have hfield : (@unpackMantissa Format.binary64 x.bits.toBitVec).toNat =
      (x.bits.toNat >>> 0) % 2 ^ 52 := rfl
  rw [hfield, Nat.shiftRight_zero]
  unfold magnitude signBit leadingBit
  omega

theorem toNat_unpackExponent :
    (@unpackExponent Format.binary64 x.bits.toBitVec).toNat = x.magnitude / leadingBit := by
  have hfield : (@unpackExponent Format.binary64 x.bits.toBitVec).toNat =
      (x.bits.toNat >>> 52) % 2 ^ 11 := rfl
  rw [hfield, Nat.shiftRight_eq_div_pow]
  unfold magnitude signBit leadingBit
  omega

theorem toNat_unpackSign :
    (@unpackSign Format.binary64 x.bits.toBitVec).toNat = if x.negative then 1 else 0 := by
  have hfield : (@unpackSign Format.binary64 x.bits.toBitVec).toNat =
      (x.bits.toNat >>> 63) % 2 ^ 1 := rfl
  have hlt := x.bits.toNat_lt
  rw [hfield, Nat.shiftRight_eq_div_pow]
  unfold negative signBit
  simp only [decide_eq_true_eq]
  split_ifs <;> omega

theorem magnitude_div_lt : x.magnitude / leadingBit < 2047 := by
  have hfinite : x.magnitude < infinityPattern := x.finite
  unfold infinityPattern at hfinite
  unfold leadingBit
  omega

/-- The sign of a number, also of a zero. -/
def sign : Sign := if x.negative then .negative else .positive

/-- A number taken apart: its sign, its significand and its exponent, counted in units. -/
def unpacked : UnpackedFloat :=
  if h : patternSignificand x.magnitude = 0 then .zero x.sign
  else .finite x.sign (patternSignificand x.magnitude) (patternExponent x.magnitude - 1074)
    (Nat.pos_of_ne_zero h)

theorem ofBitVec_unpackSign :
    Sign.ofBitVec (@unpackSign Format.binary64 x.bits.toBitVec) = x.sign := by
  have hiff : @unpackSign Format.binary64 x.bits.toBitVec = 0#1 ↔ ¬ x.negative := by
    rw [← BitVec.toNat_inj, toNat_unpackSign]
    cases x.negative <;> simp
  unfold Sign.ofBitVec sign
  by_cases hneg : x.negative
  · rw [if_neg (by rw [hiff, not_not]; exact hneg), if_pos hneg]
  · rw [if_pos (hiff.2 hneg), if_neg hneg]

theorem unpackExponent_ne_infinity : @unpackExponent Format.binary64 x.bits.toBitVec ≠ -1#_ := by
  rw [ne_eq, ← BitVec.toNat_inj, toNat_unpackExponent]
  exact (magnitude_div_lt x).ne

theorem unpackExponent_eq_zero_iff :
    @unpackExponent Format.binary64 x.bits.toBitVec = 0#_ ↔ x.magnitude / leadingBit = 0 := by
  rw [← BitVec.toNat_inj, toNat_unpackExponent]
  rfl

theorem unpackMantissa_eq_zero_iff :
    @unpackMantissa Format.binary64 x.bits.toBitVec = 0#_ ↔ x.magnitude % leadingBit = 0 := by
  rw [← BitVec.toNat_inj, toNat_unpackMantissa]
  rfl

theorem toNat_one_append_unpackMantissa :
    (1#1 ++ @unpackMantissa Format.binary64 x.bits.toBitVec).toNat =
      leadingBit + x.magnitude % leadingBit := by
  rw [BitVec.toNat_append, ← Nat.shiftLeft_add_eq_or_of_lt (BitVec.isLt _), toNat_unpackMantissa]
  rfl

/-- Patterns without an exponent are their own significands. -/
theorem pattern_of_div_eq_zero {p : Nat} (h : p / leadingBit = 0) :
    patternExponent p = 0 ∧ patternSignificand p = p % leadingBit := by
  unfold patternExponent patternSignificand leadingBit at *
  split_ifs <;> omega

/-- Patterns with an exponent leave out the leading bit of their significands. -/
theorem pattern_of_div_ne_zero {p : Nat} (h : p / leadingBit ≠ 0) :
    patternExponent p + 1 = p / leadingBit ∧
      patternSignificand p = leadingBit + p % leadingBit := by
  unfold patternExponent patternSignificand leadingBit at *
  split_ifs <;> omega

/-- **Taking a pattern apart.** -/
theorem unpack_bits : UnpackedFloat.unpack Format.binary64 x.bits.toBitVec = x.unpacked := by
  have hbias : ((Format.binary64.exponentBias : Nat) : Int) = 1023 := rfl
  unfold UnpackedFloat.unpack unpacked
  dsimp only
  rw [if_neg (unpackExponent_ne_infinity x), ofBitVec_unpackSign]
  by_cases hzero : x.magnitude / leadingBit = 0
  · obtain ⟨hexponent, hsignificand⟩ := pattern_of_div_eq_zero hzero
    rw [if_pos ((unpackExponent_eq_zero_iff x).2 hzero)]
    by_cases hnone : x.magnitude % leadingBit = 0
    · rw [dif_pos ((unpackMantissa_eq_zero_iff x).2 hnone), dif_pos (hsignificand.trans hnone)]
    · rw [dif_neg fun h => hnone ((unpackMantissa_eq_zero_iff x).1 h),
        dif_neg fun h => hnone (hsignificand.symm.trans h)]
      rw [UnpackedFloat.finite.injEq, eq_self, true_and]
      rw [toNat_unpackMantissa, toNat_unpackExponent, hzero, hsignificand, hexponent, hbias]
      exact ⟨rfl, rfl⟩
  · obtain ⟨hexponent, hsignificand⟩ := pattern_of_div_ne_zero hzero
    have hnone : patternSignificand x.magnitude ≠ 0 := by
      unfold leadingBit at hsignificand
      omega
    rw [if_neg fun h => hzero ((unpackExponent_eq_zero_iff x).1 h), dif_neg hnone]
    rw [UnpackedFloat.finite.injEq, eq_self, true_and]
    rw [toNat_one_append_unpackMantissa, toNat_unpackExponent, hsignificand, hbias]
    refine ⟨rfl, ?_⟩
    show ((x.magnitude / leadingBit : Nat) : Int) - (1023 + 52) = _
    omega

/-! ## Putting patterns together -/

/-- A sign, an exponent and a significand that are those of a pattern make the pattern. -/
theorem packComponents_eq {exponent : BitVec 11} {mantissa : BitVec 52}
    (hexponent : exponent.toNat = x.magnitude / leadingBit)
    (hmantissa : mantissa.toNat = x.magnitude % leadingBit) :
    packComponents Format.binary64 x.sign exponent mantissa = x.bits.toBitVec := by
  have hsign : x.sign.toBitVec.toNat = if x.negative then 1 else 0 := by
    unfold sign
    cases x.negative <;> rfl
  have hlt := x.bits.toNat_lt
  have happend : (packComponents Format.binary64 x.sign exponent mantissa).toNat =
      ((x.sign.toBitVec.toNat <<< 11 + exponent.toNat) <<< 52) + mantissa.toNat := by
    unfold packComponents
    rw [BitVec.toNat_append, BitVec.toNat_append, ← Nat.shiftLeft_add_eq_or_of_lt mantissa.isLt,
      ← Nat.shiftLeft_add_eq_or_of_lt exponent.isLt]
  rw [← BitVec.toNat_inj, happend, hsign, hexponent, hmantissa, Nat.shiftLeft_eq, Nat.shiftLeft_eq]
  show _ = x.bits.toNat
  unfold magnitude negative signBit leadingBit
  simp only [decide_eq_true_eq]
  split_ifs <;> omega

/-- A significand without the leading bit is put together with no exponent. -/
theorem pack_of_div_eq_zero (hzero : x.magnitude / leadingBit = 0)
    (hpos : 0 < patternSignificand x.magnitude) :
    UnpackedFloat.pack Format.binary64 (.finite x.sign (patternSignificand x.magnitude)
      (patternExponent x.magnitude - 1074) hpos) = x.bits.toBitVec := by
  obtain ⟨hexponent, hsignificand⟩ := pattern_of_div_eq_zero hzero
  have hbound : patternSignificand x.magnitude < leadingBit :=
    hsignificand ▸ Nat.mod_lt x.magnitude (show 0 < leadingBit by decide)
  have hlog : ¬ (patternSignificand x.magnitude).log2 + 1 = Format.binary64.mantissaBits := by
    have hlt : (patternSignificand x.magnitude).log2 < 52 := (Nat.log2_lt hpos.ne').2 hbound
    show ¬ _ + 1 = 53
    omega
  have hpack : UnpackedFloat.pack Format.binary64 (.finite x.sign
      (patternSignificand x.magnitude) ((0 : Nat) - 1074) hpos) =
      packComponents Format.binary64 x.sign 0#_
        (BitVec.ofNat 52 (patternSignificand x.magnitude)) := by
    unfold UnpackedFloat.pack
    exact (if_neg (by decide)).trans (if_neg hlog)
  rw [hexponent, hpack]
  refine packComponents_eq x hzero.symm ?_
  rw [BitVec.toNat_ofNat, Nat.mod_eq_of_lt hbound, hsignificand]

/-- A significand with the leading bit is put together without it. -/
theorem pack_of_div_ne_zero (hzero : x.magnitude / leadingBit ≠ 0)
    (hpos : 0 < patternSignificand x.magnitude) :
    UnpackedFloat.pack Format.binary64 (.finite x.sign (patternSignificand x.magnitude)
      (patternExponent x.magnitude - 1074) hpos) = x.bits.toBitVec := by
  obtain ⟨hexponent, hsignificand⟩ := pattern_of_div_ne_zero hzero
  have hfinite := magnitude_div_lt x
  have hbound := Nat.mod_lt x.magnitude (show 0 < leadingBit by decide)
  have hlog : (patternSignificand x.magnitude).log2 + 1 = Format.binary64.mantissaBits := by
    rw [(Nat.log2_eq_iff hpos.ne').2 ⟨show 2 ^ 52 ≤ _ by unfold leadingBit at *; omega,
      show _ < 2 ^ 53 by unfold leadingBit at *; omega⟩]
    rfl
  have hbiased : ((patternExponent x.magnitude : Int) - 1074 +
      (Format.binary64.exponentBias : Nat) + (52 : Nat)).toNat = x.magnitude / leadingBit := by
    show ((patternExponent x.magnitude : Int) - 1074 + 1023 + 52).toNat = _
    omega
  unfold UnpackedFloat.pack
  dsimp only
  rw [hbiased, if_neg (show ¬ 2 ^ 11 ≤ _ by omega), if_pos hlog]
  refine packComponents_eq x ?_ ?_
  · rw [BitVec.toNat_ofNat]
    exact Nat.mod_eq_of_lt (by omega)
  · rw [BitVec.toNat_ofNat, hsignificand]
    show _ % 2 ^ 52 = _
    unfold leadingBit
    omega

/-- **Putting a pattern together.** What a pattern was taken apart into gives the pattern again. -/
theorem pack_unpacked : UnpackedFloat.pack Format.binary64 x.unpacked = x.bits.toBitVec := by
  unfold unpacked
  by_cases hnone : patternSignificand x.magnitude = 0
  · have hadd := patternExponent_mul_add x.magnitude
    have hzero : x.magnitude = 0 := by
      by_cases hdiv : x.magnitude / leadingBit = 0
      · rw [(pattern_of_div_eq_zero hdiv).1, hnone, Nat.zero_mul] at hadd
        exact hadd.symm
      · have hsignificand := (pattern_of_div_ne_zero hdiv).2
        unfold leadingBit at hsignificand
        omega
    rw [dif_pos hnone]
    exact packComponents_eq x (by rw [hzero]; rfl) (by rw [hzero]; rfl)
  · rw [dif_neg hnone]
    by_cases hzero : x.magnitude / leadingBit = 0
    · exact pack_of_div_eq_zero x hzero _
    · exact pack_of_div_ne_zero x hzero _

/-! ## Numbers on the machine -/

theorem toBits_toFloat : x.toFloat.toBits = x.bits := by
  have hpack : UInt64.ofBitVec (UnpackedFloat.pack Format.binary64
      (UnpackedFloat.unpack Format.binary64 x.bits.toBitVec)) = x.bits := by
    rw [unpack_bits, pack_unpacked]
  exact hpack

/-- A finite number comes back from the machine as it is. -/
@[simp] theorem ofFloat?_toFloat : ofFloat? x.toFloat = some x := by
  unfold ofFloat?
  simp only [toBits_toFloat]
  exact dif_pos x.finite

theorem unpack_toFloat : x.toFloat.toModel.unpack = x.unpacked := by
  have hunpack : x.toFloat.toModel.unpack =
      UnpackedFloat.unpack Format.binary64 x.toFloat.toBits.toBitVec := rfl
  rw [hunpack, toBits_toFloat, unpack_bits]

/-! ## The order of the machine -/

/-- The machine compares exponents first and significands then. -/
def fieldOrder (p q : Nat) : Ordering :=
  (compare ((patternExponent p : Int) - 1074) ((patternExponent q : Int) - 1074)).then
    (compare (patternSignificand p) (patternSignificand q))

theorem fieldOrder_of_lt {p q : Nat} (h : p < q) : fieldOrder p q = .lt := by
  have hp := patternExponent_mul_add p
  have hq := patternExponent_mul_add q
  have hexponent : patternExponent p ≤ patternExponent q :=
    Nat.sub_le_sub_right (Nat.div_le_div_right h.le) 1
  unfold fieldOrder
  rcases hexponent.lt_or_eq with hlt | heq
  · rw [compare_lt_iff_lt.2 (by omega)]
    rfl
  · rw [heq] at hp ⊢
    rw [compare_eq_iff_eq.2 rfl, Ordering.eq_then, compare_lt_iff_lt]
    omega

theorem fieldOrder_swap (p q : Nat) : fieldOrder q p = (fieldOrder p q).swap := by
  unfold fieldOrder
  rw [Ordering.swap_then, ← Std.OrientedOrd.eq_swap, ← Std.OrientedOrd.eq_swap]

/-- Comparing exponents and then significands compares sizes. -/
theorem fieldOrder_eq (p q : Nat) :
    fieldOrder p q = compare (patternUnits p : Int) (patternUnits q) := by
  rcases Nat.lt_trichotomy p q with hlt | rfl | hgt
  · rw [fieldOrder_of_lt hlt, compare_lt_iff_lt.2 (by exact_mod_cast patternUnits_strictMono hlt)]
  · simp [fieldOrder]
  · rw [fieldOrder_swap, fieldOrder_of_lt hgt,
      compare_gt_iff_gt.2 (by exact_mod_cast patternUnits_strictMono hgt)]
    rfl

/-- A number taken apart is a zero, or it has a size. -/
theorem unpacked_zero_or_finite : (x.units = 0 ∧ x.unpacked = .zero x.sign) ∨
    0 < patternUnits x.magnitude ∧ ∃ h, x.unpacked =
      .finite x.sign (patternSignificand x.magnitude) (patternExponent x.magnitude - 1074) h := by
  unfold unpacked
  by_cases hnone : patternSignificand x.magnitude = 0
  · refine .inl ⟨?_, dif_pos hnone⟩
    unfold units patternUnits
    rw [hnone]
    cases x.negative <;> simp
  · refine .inr ⟨?_, Nat.pos_of_ne_zero hnone, dif_neg hnone⟩
    unfold patternUnits
    rw [Nat.shiftLeft_eq]
    exact Nat.mul_pos (Nat.pos_of_ne_zero hnone) (Nat.two_pow_pos _)

/-- Numbers taken apart are compared by value, so that the two zeros are equal. -/
theorem compare_unpacked : x.unpacked.compare y.unpacked = some (compare x.units y.units) := by
  have hfields := fieldOrder_eq x.magnitude y.magnitude
  rcases unpacked_zero_or_finite x with ⟨hxunits, hx⟩ | ⟨hxpos, hxsignificand, hx⟩ <;>
    rcases unpacked_zero_or_finite y with ⟨hyunits, hy⟩ | ⟨hypos, hysignificand, hy⟩ <;>
    rw [hx, hy]
  · rw [hxunits, hyunits]
    rfl
  · rw [hxunits]
    unfold sign units
    cases y.negative
    · exact congrArg some (compare_lt_iff_lt.2 (by simp; omega)).symm
    · exact congrArg some (compare_gt_iff_gt.2 (by simp; omega)).symm
  · rw [hyunits]
    unfold sign units
    cases x.negative
    · exact congrArg some (compare_gt_iff_gt.2 (by simp; omega)).symm
    · exact congrArg some (compare_lt_iff_lt.2 (by simp; omega)).symm
  · unfold sign units
    cases x.negative <;> cases y.negative
    · exact congrArg some hfields
    · exact congrArg some (compare_gt_iff_gt.2 (by simp; omega)).symm
    · exact congrArg some (compare_lt_iff_lt.2 (by simp; omega)).symm
    · have hneg : ∀ m n : Int, compare (-m) (-n) = compare n m := by
        intro m n
        simp [compare, compareOfLessAndEq, eq_comm]
      have hswap : (fieldOrder x.magnitude y.magnitude).swap =
          compare (-(patternUnits x.magnitude : Int)) (-(patternUnits y.magnitude)) := by
        rw [hneg, ← fieldOrder_eq, fieldOrder_swap x.magnitude]
      exact congrArg some hswap

/-- **The machine orders finite numbers by value.** -/
theorem toFloat_lt_iff : x.toFloat < y.toFloat ↔ x.units < y.units := by
  have hlt : x.toFloat < y.toFloat ↔
      (x.toFloat.toModel.unpack.compare y.toFloat.toModel.unpack == some .lt) = true :=
    decide_eq_true_iff
  rw [hlt, unpack_toFloat, unpack_toFloat, compare_unpacked, beq_iff_eq, Option.some_inj,
    compare_lt_iff_lt]

/-- The floats nearest to two integers are in the order of the integers, unless they are one
float. -/
theorem toFloat_ofInt_lt_or_eq {m n : Int} (hm : m.natAbs ≤ 2 ^ 64) (hn : n.natAbs ≤ 2 ^ 64)
    (h : m ≤ n) : ¬ (ofInt n).toFloat < (ofInt m).toFloat ∧
      ((ofInt m).toFloat < (ofInt n).toFloat ∨ ofInt m = ofInt n) := by
  have hunits : (ofInt m).units ≤ (ofInt n).units := units_mono (orderKey_ofInt_mono hm hn h)
  rw [toFloat_lt_iff, toFloat_lt_iff]
  refine ⟨Int.not_lt.2 hunits, (Int.lt_or_eq_of_le hunits).imp_right fun heq => ?_⟩
  exact ofInt_eq_of_units_eq hm hn heq

end RecordFlow.Binary64
