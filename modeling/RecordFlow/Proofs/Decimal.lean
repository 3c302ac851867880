import RecordFlow.Decimal
import RecordFlow.Proofs.Binary64

/-!
# Decimals that read back

A quotient is rounded to a pattern exactly if it lies between the midpoints of the pattern and its
neighbours (`Binary64.RoundsTo`, `Binary64.nearestPattern_eq_iff`). The shortest digits of a number
were chosen between them, so the decimal they make is read as the number
(`Binary64.ofDecimal?_shortest`).
-/

namespace RecordFlow.Binary64

variable {p q n m d s : Nat}

/-! ## Rounding by midpoints -/

/-- Twice the midpoint between a pattern and the one before it, in units. -/
def midpoint (p : Nat) : Nat := patternUnits (p - 1) + patternUnits p

/-- The quotient `n / d` lies between the midpoints around a pattern, and on one of them only if the
last bit of the pattern is zero. -/
structure RoundsTo (p n d : Nat) : Prop where
  low : midpoint p * d ≤ 2 * (n * unitsPerOne)
  high : 2 * (n * unitsPerOne) ≤ midpoint (p + 1) * d
  even : midpoint p * d = 2 * (n * unitsPerOne) ∨ 2 * (n * unitsPerOne) = midpoint (p + 1) * d →
    p % 2 = 0

theorem midpoint_strictMono : StrictMono midpoint := by
  intro p q hpq
  have hbefore : patternUnits (p - 1) ≤ patternUnits (q - 1) :=
    patternUnits_strictMono.monotone (by omega)
  exact Nat.add_lt_add_of_le_of_lt hbefore (patternUnits_strictMono hpq)

theorem RoundsTo.not_lt (hp : RoundsTo p n d) (hq : RoundsTo q n d) (hd : 0 < d) : ¬ p < q := by
  intro hlt
  -- both midpoints between the two patterns are the quotient, so they are one
  have hmid : midpoint (p + 1) ≤ midpoint q := midpoint_strictMono.monotone hlt
  have hle : midpoint q * d ≤ midpoint (p + 1) * d := hq.low.trans hp.high
  have heq : midpoint (p + 1) = midpoint q :=
    Nat.le_antisymm hmid (Nat.le_of_mul_le_mul_right hle hd)
  have hsucc : p + 1 = q := midpoint_strictMono.injective heq
  have hevenp := hp.even (.inr (Nat.le_antisymm hp.high (heq ▸ hq.low)))
  have hevenq := hq.even (.inl (Nat.le_antisymm hq.low (heq ▸ hp.high)))
  omega

/-- A quotient is rounded to one pattern only. -/
theorem RoundsTo.unique (hp : RoundsTo p n d) (hq : RoundsTo q n d) (hd : 0 < d) : p = q :=
  Nat.le_antisymm (Nat.le_of_not_lt (hq.not_lt hp hd)) (Nat.le_of_not_lt (hp.not_lt hq hd))

/-- Only the value of a quotient matters. -/
theorem RoundsTo.of_ratio {n' d' : Nat} (h : RoundsTo p n d) (hratio : n * d' = n' * d) (hd : 0 < d)
    (hd' : 0 < d') : RoundsTo p n' d' := by
  have hscale : 2 * (n * unitsPerOne) * d' = 2 * (n' * unitsPerOne) * d := by
    calc 2 * (n * unitsPerOne) * d' = 2 * (n * d' * unitsPerOne) := by ring
      _ = 2 * (n' * unitsPerOne) * d := by rw [hratio]; ring
  have hswap : ∀ a, a * d' * d = a * d * d' := fun a => by ring
  constructor
  · refine Nat.le_of_mul_le_mul_right ?_ hd
    rw [hswap, ← hscale]
    exact Nat.mul_le_mul_right d' h.low
  · refine Nat.le_of_mul_le_mul_right ?_ hd
    rw [hswap, ← hscale]
    exact Nat.mul_le_mul_right d' h.high
  · rintro (heq | heq)
    · refine h.even (.inl (Nat.eq_of_mul_eq_mul_right hd' ?_))
      rw [hscale, ← heq, hswap]
    · refine h.even (.inr (Nat.eq_of_mul_eq_mul_right hd' ?_))
      rw [hscale, heq, hswap]

/-! ## The nearest pattern -/

/-- Rounding moves a quotient by a half at most, and by a half to an even number only. -/
theorem roundHalfEven_bounds (hd : 0 < d) :
    2 * (roundHalfEven n d * d) ≤ 2 * n + d ∧ 2 * n ≤ 2 * (roundHalfEven n d * d) + d ∧
      (2 * (roundHalfEven n d * d) = 2 * n + d ∨ 2 * n = 2 * (roundHalfEven n d * d) + d →
        roundHalfEven n d % 2 = 0) := by
  have hdiv := Nat.div_add_mod n d
  have hmod := Nat.mod_lt n hd
  rw [Nat.mul_comm] at hdiv
  unfold roundHalfEven
  dsimp only
  generalize n / d = q at *
  generalize n % d = r at *
  have hsucc : (q + 1) * d = q * d + d := Nat.succ_mul q d
  split_ifs with hbelow habove
  · exact ⟨by omega, by omega, by omega⟩
  · rw [hsucc]
    exact ⟨by omega, by omega, by omega⟩
  · rcases Nat.mod_two_eq_zero_or_one q with hq | hq
    · rw [hq, Nat.add_zero]
      exact ⟨by omega, by omega, fun _ => hq⟩
    · rw [hq, hsucc]
      exact ⟨by omega, by omega, by omega⟩

/-- The units of a pattern, the significand being rounded up to the next exponent at most. -/
theorem patternUnits_add {e : Nat} (hs : s ≤ 2 * leadingBit) (he : 0 < e → leadingBit ≤ s) :
    patternUnits (e * leadingBit + s) = s * 2 ^ e := by
  rcases Nat.lt_or_eq_of_le hs with hlt | rfl
  · exact patternUnits_eq hlt he
  · calc patternUnits (e * leadingBit + 2 * leadingBit)
        = patternUnits ((e + 1) * leadingBit + leadingBit) := congrArg patternUnits (by ring)
      _ = leadingBit * 2 ^ (e + 1) :=
          patternUnits_eq (by unfold leadingBit; omega) fun _ => Nat.le_refl _
      _ = 2 * leadingBit * 2 ^ e := by ring

/-- The midpoint above a pattern is half a step away at least. -/
theorem le_midpoint_succ {e : Nat} (hs : s ≤ 2 * leadingBit) (he : 0 < e → leadingBit ≤ s) :
    2 * (s * 2 ^ e) + 2 ^ e ≤ midpoint (e * leadingBit + s + 1) := by
  have hnext : (s + 1) * 2 ^ e ≤ patternUnits (e * leadingBit + s + 1) := by
    rcases Nat.lt_or_eq_of_le hs with hlt | rfl
    · rw [Nat.add_assoc, patternUnits_add (s := s + 1) hlt fun h => (he h).trans (Nat.le_succ s)]
    · calc (2 * leadingBit + 1) * 2 ^ e ≤ (2 * leadingBit + 2) * 2 ^ e :=
            Nat.mul_le_mul_right _ (by omega)
        _ = (leadingBit + 1) * 2 ^ (e + 1) := by ring
        _ = patternUnits ((e + 1) * leadingBit + (leadingBit + 1)) :=
            (patternUnits_eq (by unfold leadingBit; omega) fun _ => by unfold leadingBit; omega).symm
        _ = patternUnits (e * leadingBit + 2 * leadingBit + 1) := congrArg patternUnits (by ring)
  unfold midpoint
  rw [Nat.add_sub_cancel, patternUnits_add hs he]
  rw [Nat.succ_mul] at hnext
  omega

/-- The midpoint below a pattern is half a step away, or nearer where the exponent changes. -/
theorem midpoint_add {e : Nat} (hs : s ≤ 2 * leadingBit) (he : 0 < e → leadingBit ≤ s) :
    e * leadingBit + s = 0 ∨ midpoint (e * leadingBit + s) + 2 ^ e = 2 * (s * 2 ^ e) ∨
      0 < e ∧ s = leadingBit ∧ midpoint (e * leadingBit + s) < 2 * (s * 2 ^ e) := by
  have hpos : 0 < leadingBit := by unfold leadingBit; omega
  unfold midpoint
  rw [patternUnits_add hs he]
  by_cases hzero : s = 0
  · left
    have : e = 0 := by
      by_contra hne
      have := he (Nat.pos_of_ne_zero hne)
      omega
    rw [this, hzero, Nat.zero_mul]
  by_cases hlead : 0 < e ∧ s = leadingBit
  · obtain ⟨hepos, rfl⟩ := hlead
    have hbefore : patternUnits (e * leadingBit + leadingBit - 1) <
        patternUnits (e * leadingBit + leadingBit) := patternUnits_strictMono (by omega)
    rw [patternUnits_add hs he] at hbefore
    exact .inr (.inr ⟨hepos, rfl, by omega⟩)
  · have hbefore : e * leadingBit + s - 1 = e * leadingBit + (s - 1) := by omega
    have hstep : (s - 1) * 2 ^ e + 2 ^ e = s * 2 ^ e := by
      rw [← Nat.succ_mul, Nat.succ_eq_add_one, Nat.sub_add_cancel (by omega)]
    rw [hbefore, patternUnits_add (by omega) fun h => by have := he h; omega]
    exact .inr (.inl (by omega))

/-- The nearest pattern is one whose midpoints hold the quotient. -/
theorem roundsTo_nearestPattern (hd : 0 < d) : RoundsTo (nearestPattern n d) n d := by
  have hpattern := nearestPattern_eq n d
  have hle := nearestPattern_le (n := n) hd
  have hlead := fun h => le_nearestPattern (n := n) hd h
  have hwhole := fun h => leadingBit_mul_le (n := n) hd h
  obtain ⟨hlow, hhigh, heven⟩ := roundHalfEven_bounds (n := n * unitsPerOne)
    (Nat.mul_pos hd (Nat.two_pow_pos (nearestExponent n d)))
  generalize nearestExponent n d = e at *
  generalize roundHalfEven (n * unitsPerOne) (d * 2 ^ e) = s at *
  generalize nearestPattern n d = q at *
  subst hpattern
  rw [Nat.add_mul] at hle hlead
  have hs : s ≤ 2 * leadingBit := by omega
  have he : 0 < e → leadingBit ≤ s := fun h => by have := hlead h; omega
  have hparity : (e * leadingBit + s) % 2 = s % 2 := by
    have hleading : leadingBit % 2 = 0 := rfl
    rw [Nat.add_mod, Nat.mul_mod, hleading, Nat.mul_zero, Nat.zero_mod, Nat.zero_add, Nat.mod_mod]
  have hscale : 2 * (s * 2 ^ e) * d = 2 * (s * (d * 2 ^ e)) := by ring
  have habove := Nat.mul_le_mul_right d (le_midpoint_succ hs he)
  rw [Nat.add_mul, hscale, Nat.mul_comm (2 ^ e)] at habove
  rw [← hparity] at heven
  rcases midpoint_add hs he with hzero | hbelow | ⟨hepos, hseq, hbelow⟩
  · rw [hzero] at habove ⊢
    have hmid : midpoint 0 = 0 := rfl
    exact ⟨by rw [hmid]; omega, by omega, fun _ => rfl⟩
  · have hbelow' := congrArg (· * d) hbelow
    rw [Nat.add_mul, hscale, Nat.mul_comm (2 ^ e)] at hbelow'
    exact ⟨by omega, by omega, fun h => heven (by omega)⟩
  · have hlt := Nat.mul_lt_mul_of_pos_right hbelow hd
    rw [hscale] at hlt
    have hge := hwhole hepos
    rw [← hseq] at hge
    exact ⟨by omega, by omega, fun h => heven (by omega)⟩

/-- A quotient is rounded to the pattern whose midpoints hold it. -/
theorem nearestPattern_eq_iff (hd : 0 < d) : nearestPattern n d = p ↔ RoundsTo p n d :=
  ⟨fun h => h ▸ roundsTo_nearestPattern hd, fun h => (roundsTo_nearestPattern hd).unique h hd⟩

/-! ## Shortest digits -/

variable {digits : Nat} {exponent : Int} {x : Binary64}

theorem readsBack_iff :
    readsBack p digits exponent = true ↔
      RoundsTo p (digits * 10 ^ exponent.toNat) (10 ^ (-exponent).toNat) := by
  have hlow : patternUnits (p - 1) + patternUnits p = midpoint p := rfl
  have hhigh : patternUnits p + patternUnits (p + 1) = midpoint (p + 1) := rfl
  unfold readsBack
  dsimp only
  rw [hlow, hhigh, Nat.pow_eq, Nat.pow_eq]
  split_ifs with heven <;> rw [Bool.and_eq_true, decide_eq_true_iff, decide_eq_true_iff]
  · exact ⟨fun h => ⟨h.1, h.2, fun _ => heven⟩, fun h => ⟨h.low, h.high⟩⟩
  · constructor
    · rintro ⟨hlt, hgt⟩
      exact ⟨hlt.le, hgt.le, fun h => by omega⟩
    · intro h
      exact ⟨lt_of_le_of_ne h.low fun heq => heven (h.even (.inl heq)),
        lt_of_le_of_ne h.high fun heq => heven (h.even (.inr heq))⟩

/-- Digits found on a grid read back. -/
theorem readsBack_of_onGrid? (h : onGrid? p exponent = some digits) :
    readsBack p digits exponent = true := by
  have hround : ∀ n d, roundHalfEven n d = n / d ∨ roundHalfEven n d = n / d + 1 := by
    intro n d
    unfold roundHalfEven
    dsimp only
    split_ifs <;> omega
  unfold onGrid? at h
  dsimp only at h
  generalize patternUnits p * Nat.pow 10 (-exponent).toNat = size at h
  generalize Nat.pow 10 exponent.toNat * unitsPerOne = step at h
  split at h
  · rename_i hbelow _
    exact Option.some.inj h ▸ hbelow
  · rename_i _ habove
    exact Option.some.inj h ▸ habove
  · rename_i hbelow habove
    rw [← Option.some.inj h]
    rcases hround size step with heq | heq <;> rw [heq]
    · exact hbelow
    · exact habove
  · cases h

/-- A grid has digits for a pattern if the multiple below it reads back. -/
theorem exists_onGrid?_of_below (h : readsBack p
    (patternUnits p * 10 ^ (-exponent).toNat / (10 ^ exponent.toNat * unitsPerOne))
      exponent = true) :
    ∃ digits, onGrid? p exponent = some digits := by
  unfold onGrid?
  dsimp only
  rw [Nat.pow_eq, Nat.pow_eq, h]
  split
  · exact ⟨_, rfl⟩
  · rename_i hfalse _
    cases hfalse
  · exact ⟨_, rfl⟩
  · rename_i hfalse _
    cases hfalse

/-- On a grid whose steps are less than half a unit, the multiple below a pattern rounds to it. -/
theorem roundsTo_below {grid : Nat} (hp : p ≠ 0) (hfine : 2 * unitsPerOne ≤ grid)
    (hunits : 0 < unitsPerOne) : RoundsTo p (patternUnits p * grid / unitsPerOne) grid := by
  have hbefore : patternUnits (p - 1) * grid + grid ≤ patternUnits p * grid := by
    rw [← Nat.succ_mul]
    exact Nat.mul_le_mul_right _ (patternUnits_strictMono (Nat.sub_one_lt hp))
  have hafter : patternUnits p * grid + grid ≤ patternUnits (p + 1) * grid := by
    rw [← Nat.succ_mul]
    exact Nat.mul_le_mul_right _ (patternUnits_strictMono (Nat.lt_succ_self p))
  have hlow : midpoint p * grid = patternUnits (p - 1) * grid + patternUnits p * grid :=
    Nat.add_mul _ _ _
  have hhigh : midpoint (p + 1) * grid = patternUnits p * grid + patternUnits (p + 1) * grid :=
    Nat.add_mul _ _ _
  have hdiv := Nat.div_add_mod (patternUnits p * grid) unitsPerOne
  have hmod := Nat.mod_lt (patternUnits p * grid) hunits
  rw [Nat.mul_comm unitsPerOne] at hdiv
  exact ⟨by omega, by omega, by omega⟩

/-- The finest grid has digits for every pattern but zero. -/
theorem exists_onGrid? (hp : p ≠ 0) : ∃ digits, onGrid? p (-324) = some digits := by
  have hfine : 2 * unitsPerOne ≤ 10 ^ (-(-324 : Int)).toNat := by decide +kernel
  have hbelow := roundsTo_below hp hfine (by decide +kernel)
  refine exists_onGrid?_of_below (readsBack_iff.2 ?_)
  have hone : 10 ^ (-324 : Int).toNat = 1 := rfl
  rw [hone, Nat.one_mul, Nat.mul_one]
  exact hbelow

/-- The search ends on a grid that has digits, if one of those it looks at does. -/
theorem shortestFrom_spec (fuel : Nat) (start : Int) {e : Int} (hstart : e ≤ start)
    (hfuel : start < e + fuel) (he : ∃ digits, onGrid? p e = some digits) :
    onGrid? p (shortestFrom p fuel start).2 = some (shortestFrom p fuel start).1 ∧
      e ≤ (shortestFrom p fuel start).2 ∧ (shortestFrom p fuel start).2 ≤ start := by
  induction fuel generalizing start with
  | zero => omega
  | succ fuel ih =>
    unfold shortestFrom
    cases hgrid : onGrid? p start with
    | some digits => exact ⟨hgrid, hstart, Int.le_refl start⟩
    | none =>
      have hne : e ≠ start := by
        rintro rfl
        obtain ⟨digits, hdigits⟩ := he
        rw [hgrid] at hdigits
        cases hdigits
      obtain ⟨hfound, hlow, hhigh⟩ := ih (start - 1) (by omega) (by omega)
      exact ⟨hfound, hlow, Int.le_trans hhigh (by omega)⟩

theorem shortest_readsBack (h : x.magnitude ≠ 0) :
    readsBack x.magnitude x.shortest.1 x.shortest.2 = true ∧ -324 ≤ x.shortest.2 ∧
      x.shortest.2 ≤ 309 := by
  obtain ⟨hfound, hlow, hhigh⟩ := shortestFrom_spec 640 coarsest (by decide) (by decide)
    (exists_onGrid? h)
  exact ⟨readsBack_of_onGrid? hfound, hlow, hhigh⟩

theorem RoundsTo.le_of_finite (h : RoundsTo p n d) (hp : p < infinityPattern) :
    n ≤ 10 ^ 700 * d := by
  have hlargest : patternUnits infinityPattern ≤ 10 ^ 700 := by decide +kernel
  have hmid : midpoint (p + 1) ≤ 2 * 10 ^ 700 := by
    have hp₁ := patternUnits_strictMono.monotone hp.le
    have hp₂ := patternUnits_strictMono.monotone (Nat.succ_le_of_lt hp)
    show patternUnits p + patternUnits (p + 1) ≤ _
    rw [Nat.two_mul]
    exact Nat.add_le_add (hp₁.trans hlargest) (hp₂.trans hlargest)
  refine Nat.le_of_mul_le_mul_left ?_ (show 0 < 2 by decide)
  calc 2 * n ≤ 2 * (n * unitsPerOne) :=
        Nat.mul_le_mul_left 2 (Nat.le_mul_of_pos_right n (by decide +kernel))
    _ ≤ midpoint (p + 1) * d := h.high
    _ ≤ 2 * 10 ^ 700 * d := Nat.mul_le_mul_right d hmid
    _ = 2 * (10 ^ 700 * d) := Nat.mul_assoc _ _ _

/-- The shortest digits are not too many. -/
theorem length_shortest_le (h : x.magnitude ≠ 0) :
    (Nat.toDigits 10 x.shortest.1).length ≤ 1025 := by
  obtain ⟨hreads, hlow, -⟩ := shortest_readsBack h
  rw [Nat.length_toDigits_le_iff (by decide) (by decide)]
  calc x.shortest.1 ≤ x.shortest.1 * 10 ^ x.shortest.2.toNat :=
        Nat.le_mul_of_pos_right _ (Nat.pow_pos (by decide))
    _ ≤ 10 ^ 700 * 10 ^ (-x.shortest.2).toNat := (readsBack_iff.1 hreads).le_of_finite x.finite
    _ = 10 ^ (700 + (-x.shortest.2).toNat) := by rw [Nat.pow_add 10 700]
    _ < 10 ^ 1025 := Nat.pow_lt_pow_right (by decide) (by omega)

/-! ## Decimals of a number -/

theorem RoundsTo.ne_zero (h : RoundsTo p n d) (hp : p ≠ 0) (hd : 0 < d) : n ≠ 0 := by
  rintro rfl
  have hpos : midpoint 0 < midpoint p := midpoint_strictMono (Nat.pos_of_ne_zero hp)
  have hlow := h.low
  rw [Nat.zero_mul, Nat.mul_zero, Nat.le_zero, Nat.mul_eq_zero] at hlow
  omega

theorem ne_zero_of_readsBack (h : readsBack p digits exponent = true) (hp : p ≠ 0) :
    digits ≠ 0 := by
  rintro rfl
  exact (readsBack_iff.1 h).ne_zero hp (Nat.pow_pos (by decide)) (Nat.zero_mul _)

/-- A decimal of a size that is kept is rounded as the quotient that it is. -/
theorem ofDecimal?_eq {neg : Bool} (h : digits ≠ 0)
    (hlow : -400 ≤ exponent + (Nat.toDigits 10 digits).length) (hhigh : exponent ≤ 400) :
    ofDecimal? neg digits exponent =
      nearest? neg (digits * 10 ^ exponent.toNat) (10 ^ (-exponent).toNat) := by
  unfold ofDecimal?
  dsimp only
  rw [if_neg (by omega), if_neg (by omega)]
  split_ifs with hsign
  · have hzero : (-exponent).toNat = 0 := by omega
    rw [hzero]
    rfl
  · have hzero : exponent.toNat = 0 := by omega
    rw [hzero, Nat.pow_zero, Nat.mul_one]
    rfl

/-- A number is the one nearest to a quotient that rounds to its pattern. -/
theorem nearest?_of_roundsTo (h : RoundsTo x.magnitude n d) (hd : 0 < d) :
    nearest? x.negative n d = some x := by
  obtain ⟨y, hy, hneg, hmag⟩ := ofPattern?_eq_some x.negative x.finite
  unfold nearest?
  rw [(nearestPattern_eq_iff hd).2 h]
  refine hy.trans (congrArg some (eq_of_magnitude hneg hmag))

/-- A zero of either sign is the number nearest to zero. -/
theorem ofDecimal?_zero (h : x.magnitude = 0) (exponent : Int) :
    ofDecimal? x.negative 0 exponent = some x := by
  have hzero : nearestPattern 0 1 = 0 := by decide +kernel
  obtain ⟨y, hy, hneg, hmag⟩ := ofPattern?_eq_some x.negative (p := 0) (by decide)
  unfold ofDecimal? nearest?
  dsimp only
  rw [if_pos (.inl rfl), hzero, hy, eq_of_magnitude hneg (hmag.trans h.symm)]

/-- A decimal that reads back as a number is read as the number, with any zeros after it. -/
theorem ofDecimal?_of_readsBack (h : readsBack x.magnitude digits exponent = true)
    (hmag : x.magnitude ≠ 0) (hlow : -324 ≤ exponent) (hhigh : exponent ≤ 309) (k : Nat) :
    ofDecimal? x.negative (digits * 10 ^ k) (exponent - k) = some x := by
  have hne := ne_zero_of_readsBack h hmag
  rw [readsBack_iff] at h
  have hdigits : 10 ^ k ≤ digits * 10 ^ k := Nat.le_mul_of_pos_left _ (Nat.pos_of_ne_zero hne)
  have hlength : k < (Nat.toDigits 10 (digits * 10 ^ k)).length := by
    rcases Nat.eq_zero_or_pos k with rfl | hk
    · exact List.length_pos_iff.2 Nat.toDigits_ne_nil
    · rw [← Nat.not_le, Nat.length_toDigits_le_iff (by decide) hk, Nat.not_lt]
      exact hdigits
  rw [ofDecimal?_eq (Nat.mul_ne_zero hne (Nat.pow_pos (by decide)).ne') (by omega) (by omega)]
  refine nearest?_of_roundsTo (h.of_ratio ?_ (Nat.pow_pos (by decide)) (Nat.pow_pos (by decide)))
    (Nat.pow_pos (by decide))
  have hexponents : exponent.toNat + (-(exponent - k)).toNat =
      k + (exponent - k).toNat + (-exponent).toNat := by omega
  rw [Nat.mul_assoc, ← Nat.pow_add, hexponents, Nat.pow_add, Nat.pow_add]
  ring

end RecordFlow.Binary64
