import RecordFlow.Proofs.Decimal
import RecordFlow.Proofs.Text.Digits
import RecordFlow.Value.Text

/-!
# Numerals of numbers

The text of a number is a minus sign or nothing and a numeral: digits only for an integer
(`Json.Numeral.ofNat`), and for a float a numeral with a point or an exponent that denotes the
number (`Json.exists_numeral_textWith`).
-/

namespace RecordFlow.Json

/-! ## Numerals -/

/-- An unsigned numeral: digits, digits after a point, and an exponent, whose sign is always
written. -/
structure Numeral where
  whole : List Char
  fraction : Option (List Char)
  /-- Whether the exponent is negative, and its digits. -/
  exponent : Option (Bool × List Char)
  whole_digits : ∀ c ∈ whole, c.isDigit = true
  whole_ne_nil : whole ≠ []
  whole_lead : whole.head? = some '0' → whole = ['0']
  fraction_digits : ∀ digits ∈ fraction, (∀ c ∈ digits, c.isDigit = true) ∧ digits ≠ []
  exponent_digits : ∀ e ∈ exponent,
    (∀ c ∈ e.2, c.isDigit = true) ∧ e.2 ≠ [] ∧ Text.digitsValue e.2 < 0x80000000

namespace Numeral

/-- The point and the digits after it. -/
def fractionChars (numeral : Numeral) : List Char :=
  match numeral.fraction with
  | none => []
  | some digits => '.' :: digits

/-- The exponent with its mark and its sign. -/
def exponentChars (numeral : Numeral) : List Char :=
  match numeral.exponent with
  | none => []
  | some (negative, digits) => 'e' :: (if negative then '-' else '+') :: digits

/-- The text of a numeral. -/
def chars (numeral : Numeral) : List Char :=
  numeral.whole ++ (numeral.fractionChars ++ numeral.exponentChars)

/-- The number that all digits before the exponent denote. -/
def digits (numeral : Numeral) : Nat :=
  Text.digitsValue (numeral.whole ++ numeral.fraction.getD [])

/-- The number that the exponent denotes, if there is one. -/
def exponentValue? (numeral : Numeral) : Option Int :=
  numeral.exponent.map fun e => if e.1 then -(Text.digitsValue e.2 : Int) else Text.digitsValue e.2

/-- The power of ten that the digits are to be multiplied by. -/
def scale (numeral : Numeral) : Int :=
  numeral.exponentValue?.getD 0 - (numeral.fraction.getD []).length

end Numeral

namespace Numeral

/-- What holds of the digits, the point, the mark of the exponent and the signs holds of every
character. -/
theorem forall_mem_chars (numeral : Numeral) {P : Char → Prop}
    (hdigit : ∀ c, c.isDigit = true → P c) (hpoint : P '.') (hmark : P 'e') (hminus : P '-')
    (hplus : P '+') : ∀ c ∈ numeral.chars, P c := by
  unfold chars fractionChars exponentChars
  rw [List.forall_mem_append, List.forall_mem_append]
  refine ⟨fun c hc => hdigit c (numeral.whole_digits c hc), ?_, ?_⟩
  · cases hsome : numeral.fraction with
    | none => nofun
    | some digits =>
      have hdigits := (numeral.fraction_digits digits hsome).1
      exact List.forall_mem_cons.2 ⟨hpoint, fun c hc => hdigit c (hdigits c hc)⟩
  · cases hsome : numeral.exponent with
    | none => nofun
    | some e =>
      have hdigits := (numeral.exponent_digits e hsome).1
      refine List.forall_mem_cons.2 ⟨hmark, List.forall_mem_cons.2 ⟨?_, ?_⟩⟩
      · cases e.1
        · exact hplus
        · exact hminus
      · exact fun c hc => hdigit c (hdigits c hc)

theorem toNat_lt_of_mem_chars {numeral : Numeral} : ∀ c ∈ numeral.chars, c.toNat < 0x80 :=
  numeral.forall_mem_chars (fun _ => Text.toNat_lt_of_isDigit) (by decide) (by decide) (by decide)
    (by decide)

theorem feed_not_mem_chars (numeral : Numeral) : '\n' ∉ numeral.chars := by
  intro h
  have hne := numeral.forall_mem_chars (P := (· ≠ '\n')) (fun c hc => by rintro rfl; cases hc)
    (by decide) (by decide) (by decide) (by decide)
  exact hne _ h rfl

/-- The digits of a number. -/
def ofNat (n : Nat) : Numeral where
  whole := Nat.toDigits 10 n
  fraction := none
  exponent := none
  whole_digits := Text.isDigit_toDigits
  whole_ne_nil := Nat.toDigits_ne_nil
  whole_lead := Text.toDigits_of_lead
  fraction_digits := nofun
  exponent_digits := nofun

theorem digits_ofNat (n : Nat) : (ofNat n).digits = n := by
  unfold digits ofNat
  dsimp only [Option.getD_none]
  rw [List.append_nil, Text.digitsValue_toDigits]

end Numeral

/-! ## Floats -/

variable {digits : List Char}

/-- Digits with a point are a numeral of the same digits, maybe with zeros after them. -/
theorem exists_numeral_placePoint (hdigits : ∀ c ∈ digits, c.isDigit = true) (hne : digits ≠ [])
    (hlead : digits.head? ≠ some '0') (point : Int) :
    ∃ (numeral : Numeral) (k : Nat), placePoint digits point = numeral.chars ∧
      numeral.fraction.isSome = true ∧ numeral.digits = Text.digitsValue digits * 10 ^ k ∧
      numeral.scale = point - digits.length - k := by
  have hzeros : ∀ n, ∀ c ∈ List.replicate n '0', c.isDigit = true := fun _ => Text.isDigit_zeros
  have hlength := List.length_pos_iff.2 hne
  unfold placePoint
  split_ifs with hpoint
  · refine ⟨⟨['0'], some (List.replicate (-point).toNat '0' ++ digits), none, by simp, by simp,
      fun _ => rfl, ?_, nofun⟩, 0, ?_, rfl, ?_, ?_⟩
    · rintro _ ⟨⟩
      exact ⟨List.forall_mem_append.2 ⟨hzeros _, hdigits⟩, by simp [hne]⟩
    · simp [Numeral.chars, Numeral.fractionChars, Numeral.exponentChars]
    · exact (Text.digitsValue_zeros_append 1 _).trans
        ((Text.digitsValue_zeros_append _ _).trans (Nat.mul_one _).symm)
    · simp [Numeral.scale, Numeral.exponentValue?]
      omega
  · have hwhole : ∀ c ∈ digits.take point.toNat ++ List.replicate (point.toNat - digits.length) '0',
        c.isDigit = true :=
      List.forall_mem_append.2 ⟨fun c hc => hdigits c (List.mem_of_mem_take hc), hzeros _⟩
    have htake : digits.take point.toNat ≠ [] := by
      simp [hne]
      omega
    have hlead' : (digits.take point.toNat ++ List.replicate (point.toNat - digits.length) '0').head?
        ≠ some '0' := by
      rw [List.head?_append_of_ne_nil _ htake, List.head?_take, if_neg (by omega)]
      exact hlead
    by_cases hfraction : digits.drop point.toNat = []
    · have hle : digits.length ≤ point.toNat := List.drop_eq_nil_iff.1 hfraction
      refine ⟨⟨_, some ['0'], none, hwhole, by simp [htake], fun h => absurd h hlead', ?_, nofun⟩,
        point.toNat - digits.length + 1, ?_, rfl, ?_, ?_⟩
      · rintro _ ⟨⟩
        simp
      · simp [Numeral.chars, Numeral.fractionChars, Numeral.exponentChars, hfraction]
      · show Text.digitsValue (digits.take point.toNat ++
          List.replicate (point.toNat - digits.length) '0' ++ ['0']) = _
        rw [List.take_of_length_le hle, List.append_assoc, ← List.replicate_succ',
          Text.digitsValue_append_zeros]
      · simp [Numeral.scale, Numeral.exponentValue?]
        omega
    · refine ⟨⟨_, some (digits.drop point.toNat), none, hwhole, by simp [htake],
        fun h => absurd h hlead', ?_, nofun⟩, 0, ?_, rfl, ?_, ?_⟩
      · rintro _ ⟨⟩
        exact ⟨fun c hc => hdigits c (List.mem_of_mem_drop hc), hfraction⟩
      · simp [Numeral.chars, Numeral.fractionChars, Numeral.exponentChars, hfraction]
      · have hlt : point.toNat < digits.length := by simpa using hfraction
        show Text.digitsValue (digits.take point.toNat ++
          List.replicate (point.toNat - digits.length) '0' ++ digits.drop point.toNat) = _
        rw [Nat.sub_eq_zero_of_le hlt.le, List.replicate_zero, List.append_nil,
          List.take_append_drop, Nat.pow_zero, Nat.mul_one]
      · have hlt : point.toNat < digits.length := by simpa using hfraction
        simp [Numeral.scale, Numeral.exponentValue?]
        omega

/-- Digits with an exponent are a numeral of the same digits. -/
theorem exists_numeral_scientific (hdigits : ∀ c ∈ digits, c.isDigit = true) (hne : digits ≠ [])
    (exponent : Int) (hsmall : exponent.natAbs < 0x80000000) :
    ∃ numeral : Numeral, scientific digits exponent = numeral.chars ∧
      numeral.exponent.isSome = true ∧ numeral.digits = Text.digitsValue digits ∧
      numeral.scale = exponent - (digits.length - 1) := by
  have hexponent : ∀ e ∈ some (decide (exponent < 0), Nat.toDigits 10 exponent.natAbs),
      (∀ c ∈ e.2, c.isDigit = true) ∧ e.2 ≠ [] ∧ Text.digitsValue e.2 < 0x80000000 := by
    rintro _ ⟨⟩
    exact ⟨Text.isDigit_toDigits, Nat.toDigits_ne_nil, (Text.digitsValue_toDigits _).symm ▸ hsmall⟩
  have hvalue : (if decide (exponent < 0) = true then
      -(Text.digitsValue (Nat.toDigits 10 exponent.natAbs) : Int)
      else Text.digitsValue (Nat.toDigits 10 exponent.natAbs)) = exponent := by
    rw [Text.digitsValue_toDigits]
    split_ifs with hneg <;> rw [decide_eq_true_iff] at hneg <;> omega
  unfold scientific
  cases digits with
  | nil => exact absurd rfl hne
  | cons first rest =>
    obtain ⟨hfirst, hrest⟩ := List.forall_mem_cons.1 hdigits
    cases rest with
    | nil =>
      refine ⟨⟨[first], none, _, by simpa using hfirst, by simp, by simp, nofun, hexponent⟩, ?_, rfl,
        ?_, ?_⟩
      · simp [Numeral.chars, Numeral.fractionChars, Numeral.exponentChars]
      · rfl
      · exact congrArg (· - (0 : Int)) hvalue
    | cons second rest =>
      refine ⟨⟨[first], some (second :: rest), _, by simpa using hfirst, by simp, by simp, ?_,
        hexponent⟩, ?_, rfl, ?_, ?_⟩
      · rintro _ ⟨⟩
        exact ⟨hrest, List.cons_ne_nil _ _⟩
      · simp [Numeral.chars, Numeral.fractionChars, Numeral.exponentChars]
      · rfl
      · refine (congrArg (· - ((second :: rest).length : Int)) hvalue).trans ?_
        simp

/-- The text of a float is a numeral that denotes it, after a minus sign if it has one. -/
theorem exists_numeral_textWith (layout : NumberLayout) (x : Binary64) :
    ∃ numeral : Numeral,
      (x.textWith layout).toList = (if x.negative then ['-'] else []) ++ numeral.chars ∧
        (numeral.fraction.isSome || numeral.exponent.isSome) = true ∧
        Binary64.ofDecimal? x.negative numeral.digits numeral.scale = some x := by
  have hsign : ∀ body : List Char,
      (String.ofList (if x.negative then '-' :: body else body)).toList =
        (if x.negative then ['-'] else []) ++ body := by
    intro body
    rw [String.toList_ofList]
    cases x.negative <;> rfl
  unfold Binary64.textWith
  dsimp only
  simp only [hsign, List.append_cancel_left_eq]
  by_cases hmag : x.magnitude = 0
  · rw [if_pos hmag]
    exact ⟨⟨['0'], some ['0'], none, by simp, by simp, fun _ => rfl, by simp, nofun⟩, rfl, rfl,
      Binary64.ofDecimal?_zero hmag _⟩
  rw [if_neg hmag]
  obtain ⟨hreads, hlow, hhigh⟩ := Binary64.shortest_readsBack hmag
  have hcount := Binary64.length_shortest_le hmag
  have hread := Binary64.ofDecimal?_of_readsBack hreads hmag hlow hhigh
  have hnonzero := Binary64.ne_zero_of_readsBack hreads hmag
  generalize x.shortest.1 = digits at *
  generalize x.shortest.2 = exponent at *
  have hne : Nat.toDigits 10 digits ≠ [] := Nat.toDigits_ne_nil
  have hlead : (Nat.toDigits 10 digits).head? ≠ some '0' := by
    intro h
    have hvalue := Text.digitsValue_toDigits digits
    rw [Text.toDigits_of_lead h] at hvalue
    exact hnonzero hvalue.symm
  have hlength := List.length_pos_iff.2 hne
  split_ifs
  · obtain ⟨numeral, k, hchars, hfraction, hdigits, hscale⟩ :=
      exists_numeral_placePoint Text.isDigit_toDigits hne hlead
        (exponent + (Nat.toDigits 10 digits).length - 1 + 1)
    refine ⟨numeral, hchars, by rw [hfraction, Bool.true_or], ?_⟩
    rw [hdigits, hscale, Text.digitsValue_toDigits, ← hread k]
    congr 1
    omega
  · obtain ⟨numeral, hchars, hexponent, hdigits, hscale⟩ :=
      exists_numeral_scientific Text.isDigit_toDigits hne
        (exponent + (Nat.toDigits 10 digits).length - 1) (by omega)
    refine ⟨numeral, hchars, by rw [hexponent, Bool.or_true], ?_⟩
    rw [hdigits, hscale, Text.digitsValue_toDigits, ← hread 0]
    congr 1
    · omega
    · omega

end RecordFlow.Json
