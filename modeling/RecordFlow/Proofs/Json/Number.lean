import RecordFlow.Json.Number
import RecordFlow.Proofs.Json.Cursor
import RecordFlow.Proofs.Json.Numeral

/-!
# Reading numerals

The parts of a numeral are read one after the other, up to a byte that no number goes on with
(`Json.readNumber_numeral`). A numeral of digits only is an integer (`Json.takes_readNumber_int`), and
one with a point or an exponent a float (`Json.takes_readNumber_float`).
-/

namespace RecordFlow.Json

variable {rest : List UInt8} {numeral : Numeral} {negative : Bool}

/-- A byte that a number may go on with. -/
def isNumberByte (b : UInt8) : Bool :=
  isDigit b || b == byte '.' || b == byte 'e' || b == byte 'E'

/-- No number goes on here. -/
def Ends (rest : List UInt8) : Prop := Stops isNumberByte rest

theorem Ends.head? (h : Ends rest) {b : UInt8} (hb : rest.head? = some b) :
    isDigit b = false ∧ b ≠ byte '.' ∧ b ≠ byte 'e' ∧ b ≠ byte 'E' := by
  simpa [isNumberByte, and_assoc] using h b hb

/-! ## Digits as bytes -/

theorem isDigit_byte {c : Char} (h : c.isDigit = true) : isDigit (byte c) = true := by
  have hc := toNat_byte (Text.toNat_lt_of_isDigit h)
  rw [Char.isDigit, Bool.and_eq_true, decide_eq_true_iff, decide_eq_true_iff] at h
  unfold isDigit
  rw [Bool.and_eq_true, decide_eq_true_iff, decide_eq_true_iff, UInt8.le_iff_toNat_le,
    UInt8.le_iff_toNat_le, hc]
  exact ⟨UInt32.le_iff_toNat_le.1 h.1, UInt32.le_iff_toNat_le.1 h.2⟩

theorem isDigit_of_mem_map {digits : List Char} (h : ∀ c ∈ digits, c.isDigit = true) :
    ∀ b ∈ digits.map byte, isDigit b = true := by
  intro b hb
  obtain ⟨c, hc, rfl⟩ := List.mem_map.1 hb
  exact isDigit_byte (h c hc)

theorem digitChars_map_byte {digits : List Char} (h : ∀ c ∈ digits, c.isDigit = true) :
    digitChars (digits.map byte) = digits := by
  unfold digitChars
  rw [List.map_map]
  refine (List.map_congr_left fun c hc => ?_).trans (List.map_id digits)
  show Char.ofNat (byte c).toNat = c
  rw [toNat_byte (Text.toNat_lt_of_isDigit (h c hc)), Char.ofNat_toNat]

/-! ## Parts of a numeral -/

theorem takes_readWhole {whole : List Char} (hdigits : ∀ c ∈ whole, c.isDigit = true)
    (hne : whole ≠ []) (hlead : whole.head? = some '0' → whole = ['0'])
    (hrest : Stops isDigit rest) : Takes readWhole (whole.map byte) (whole.map byte) rest := by
  intro cur hcur
  cases whole with
  | nil => exact absurd rfl hne
  | cons c tail =>
    have hdigit := isDigit_of_mem_map hdigits
    unfold readWhole
    rw [Cursor.peek_of_rest hcur]
    dsimp only
    by_cases hzero : c = '0'
    · subst hzero
      cases hlead rfl
      have hafter : cur.advance.look.rest = rest := Cursor.advance_rest hcur
      refine ⟨cur.advance.look, ?_, hafter⟩
      rw [if_pos rfl]
      unfold Cursor.peek
      rw [hafter]
      cases rest with
      | nil => rfl
      | cons d rest =>
        dsimp only [List.head?_cons]
        rw [stops_cons.1 hrest]
        rfl
    · have hne0 : byte c ≠ byte '0' := fun h => hzero
        ((byte_inj (Text.toNat_lt_of_isDigit (hdigits c List.mem_cons_self)) (by decide)).1 h)
      obtain ⟨hrun, hskip⟩ := Cursor.run_skipRun hcur hdigit hrest
      rw [if_neg hne0, if_pos (hdigit _ List.mem_cons_self), hrun]
      exact ⟨_, rfl, hskip⟩

theorem takes_readFraction_none (h : rest.head? ≠ some (byte '.')) :
    Takes readFraction [] none rest := by
  intro cur hcur
  unfold readFraction Cursor.peek
  rw [hcur, List.nil_append, if_neg h]
  exact ⟨cur, rfl, hcur⟩

theorem takes_readFraction_some {digits : List Char} (hdigits : ∀ c ∈ digits, c.isDigit = true)
    (hne : digits ≠ []) (hrest : Stops isDigit rest) :
    Takes readFraction (byte '.' :: digits.map byte) (some (digits.map byte)) rest := by
  intro cur hcur
  obtain ⟨hrun, hskip⟩ := Cursor.run_skipRun (Cursor.advance_rest hcur)
    (isDigit_of_mem_map hdigits) hrest
  unfold readFraction
  rw [Cursor.peek_of_rest hcur, if_pos rfl]
  dsimp only
  rw [hrun, if_neg (by simpa using hne)]
  exact ⟨_, rfl, hskip⟩

theorem takes_readExponent_none {vanished : Bool}
    (h : ∀ b, rest.head? = some b → b ≠ byte 'e' ∧ b ≠ byte 'E') :
    Takes (readExponent vanished) [] none rest := by
  intro cur hcur
  unfold readExponent Cursor.peek
  rw [hcur, List.nil_append]
  cases hhead : rest.head? with
  | none => exact ⟨cur, rfl, hcur⟩
  | some b =>
    dsimp only
    rw [if_neg (not_or.2 (h b hhead))]
    exact ⟨cur, rfl, hcur⟩

/-- An exponent below the largest that is kept is kept, as all its first digits are. -/
theorem overlongExponent?_eq_none {digits : List Char} (hdigits : ∀ c ∈ digits, c.isDigit = true)
    (h : Text.digitsValue digits < 0x80000000) : overlongExponent? (digits.map byte) = none := by
  unfold overlongExponent?
  rw [List.find?_eq_none]
  intro taken htaken
  obtain ⟨k, -, rfl⟩ := List.mem_map.1 htaken
  rw [← List.map_take, digitChars_map_byte fun c hc => hdigits c (List.mem_of_mem_take hc)]
  have hle := Text.digitsValue_take_le k digits
  simp only [decide_eq_true_eq]
  omega

theorem takes_readExponent_some {vanished sign : Bool} {digits : List Char}
    (hdigits : ∀ c ∈ digits, c.isDigit = true) (hne : digits ≠ [])
    (h : Text.digitsValue digits < 0x80000000) (hrest : Stops isDigit rest) :
    Takes (readExponent vanished) (byte 'e' :: byte (if sign then '-' else '+') :: digits.map byte)
      (some (if sign then -(Text.digitsValue digits : Int) else Text.digitsValue digits)) rest := by
  intro cur hcur
  have hsign : cur.advance.look.rest =
      byte (if sign then '-' else '+') :: (digits.map byte ++ rest) := Cursor.advance_rest hcur
  have hread : readExponentSign cur.advance.look = (sign, cur.advance.look.advance) := by
    unfold readExponentSign
    rw [Cursor.peek_of_rest hsign]
    cases sign <;> rfl
  have hafter := Cursor.advance_rest hsign
  obtain ⟨hrun, hskip⟩ := Cursor.run_skipRun hafter (isDigit_of_mem_map hdigits) hrest
  unfold readExponent
  rw [Cursor.peek_of_rest hcur]
  dsimp only
  rw [if_pos (.inl rfl), hread]
  dsimp only
  cases digits with
  | nil => exact absurd rfl hne
  | cons d digits =>
    rw [Cursor.peek_of_rest hafter]
    dsimp only
    rw [if_pos (isDigit_byte (hdigits d List.mem_cons_self)), hrun,
      overlongExponent?_eq_none hdigits h, digitChars_map_byte hdigits]
    exact ⟨_, rfl, hskip⟩

/-! ## Numbers -/

/-- What the fraction and the exponent of a numeral start with is no digit. -/
theorem stops_fraction_exponent (numeral : Numeral) (hends : Ends rest) :
    Stops isDigit ((numeral.fractionChars ++ numeral.exponentChars).map byte ++ rest) ∧
      Stops isDigit (numeral.exponentChars.map byte ++ rest) ∧
      (numeral.exponentChars.map byte ++ rest).head? ≠ some (byte '.') := by
  have hrest : Stops isDigit rest := fun b hb => (hends.head? hb).1
  have hexponent : Stops isDigit (numeral.exponentChars.map byte ++ rest) ∧
      (numeral.exponentChars.map byte ++ rest).head? ≠ some (byte '.') := by
    unfold Numeral.exponentChars
    cases numeral.exponent with
    | none => exact ⟨hrest, fun h => (hends.head? h).2.1 rfl⟩
    | some e => exact ⟨stops_cons.2 (by decide), by simp; decide⟩
  refine ⟨?_, hexponent⟩
  unfold Numeral.fractionChars
  cases numeral.fraction with
  | none => exact hexponent.1
  | some digits => exact stops_cons.2 (by decide)

/-- The number that a numeral is read as. -/
theorem readNumber_numeral (negative : Bool) (hends : Ends rest) {cur : Cursor}
    (hcur : cur.rest = numeral.chars.map byte ++ rest) :
    ∃ after : Cursor, after.rest = rest ∧ readNumber negative cur =
      match (if numeral.fraction.isSome || numeral.exponent.isSome ||
          (negative && numeral.digits == 0) then none
        else Number.ofInt? (if negative then -(numeral.digits : Int) else numeral.digits)) with
      | some n => .ok (n, after)
      | none =>
        match Binary64.ofDecimal? negative numeral.digits numeral.scale with
        | some x => .ok (.float x, after)
        | none => .error (after.failHere .numberOutOfRange) := by
  obtain ⟨hfractionStops, hexponentStops, hpoint⟩ := stops_fraction_exponent numeral hends
  have hrestStops : Stops isDigit rest := fun b hb => (hends.head? hb).1
  unfold Numeral.chars at hcur
  rw [List.map_append, List.append_assoc] at hcur
  obtain ⟨c₁, hwhole, hrest₁⟩ := takes_readWhole numeral.whole_digits numeral.whole_ne_nil
    numeral.whole_lead hfractionStops cur hcur
  rw [List.map_append, List.append_assoc] at hrest₁
  obtain ⟨c₂, hfraction, hrest₂⟩ : ∃ c₂, readFraction c₁ =
      .ok (numeral.fraction.map (List.map byte), c₂) ∧
        c₂.rest = numeral.exponentChars.map byte ++ rest := by
    unfold Numeral.fractionChars at hrest₁
    cases hsome : numeral.fraction with
    | none =>
      rw [hsome] at hrest₁
      exact takes_readFraction_none hpoint c₁ hrest₁
    | some digits =>
      rw [hsome] at hrest₁
      obtain ⟨hdigits, hne⟩ := numeral.fraction_digits digits hsome
      exact takes_readFraction_some hdigits hne hexponentStops c₁ hrest₁
  obtain ⟨c₃, hexponent, hrest₃⟩ : ∃ c₃, readExponent (numeral.digits == 0) c₂ =
      .ok (numeral.exponentValue?, c₃) ∧ c₃.rest = rest := by
    unfold Numeral.exponentChars at hrest₂
    unfold Numeral.exponentValue?
    cases hsome : numeral.exponent with
    | none =>
      rw [hsome] at hrest₂
      exact takes_readExponent_none (fun b hb => (hends.head? hb).2.2) c₂ hrest₂
    | some e =>
      rw [hsome] at hrest₂
      obtain ⟨hdigits, hne, hsmall⟩ := numeral.exponent_digits e hsome
      exact takes_readExponent_some hdigits hne hsmall hrestStops c₂ hrest₂
  have hfractionDigits : ∀ c ∈ numeral.fraction.getD [], c.isDigit = true := by
    cases hsome : numeral.fraction with
    | none => nofun
    | some digits => exact (numeral.fraction_digits digits hsome).1
  have hgetD : (numeral.fraction.map (List.map byte)).getD [] =
      (numeral.fraction.getD []).map byte := by
    cases numeral.fraction <;> rfl
  have hdigits : Text.digitsValue (digitChars (numeral.whole.map byte ++
      (numeral.fraction.map (List.map byte)).getD [])) = numeral.digits := by
    rw [hgetD, ← List.map_append, digitChars_map_byte]
    · rfl
    · exact fun c hc => (List.mem_append.1 hc).elim (numeral.whole_digits c) (hfractionDigits c)
  refine ⟨c₃, hrest₃, ?_⟩
  unfold readNumber
  rw [hwhole, ok_bind]
  dsimp only
  rw [hfraction, ok_bind]
  dsimp only
  rw [hdigits, hexponent, ok_bind]
  dsimp only
  have hsome : numeral.exponentValue?.isSome = numeral.exponent.isSome := Option.isSome_map
  rw [Option.isSome_map, hsome, hgetD, List.length_map]
  rfl

/-- A numeral without a point and an exponent is an integer, but for a zero with a minus. -/
theorem takes_readNumber_int (hfraction : numeral.fraction = none)
    (hexponent : numeral.exponent = none) (hzero : negative = true → numeral.digits ≠ 0) {n : Number}
    (hn : Number.ofInt? (if negative then -(numeral.digits : Int) else numeral.digits) = some n)
    (hends : Ends rest) : Takes (readNumber negative) (numeral.chars.map byte) n rest := by
  intro cur hcur
  obtain ⟨after, hafter, hread⟩ := readNumber_numeral negative hends hcur
  have hplain : (numeral.fraction.isSome || numeral.exponent.isSome ||
      (negative && numeral.digits == 0)) = false := by
    rw [hfraction, hexponent]
    simpa using hzero
  rw [hplain, if_neg (by decide), hn] at hread
  exact ⟨after, hread, hafter⟩

/-- A numeral with a point or an exponent is a float. -/
theorem takes_readNumber_float
    (hpart : (numeral.fraction.isSome || numeral.exponent.isSome) = true) {x : Binary64}
    (hx : Binary64.ofDecimal? negative numeral.digits numeral.scale = some x) (hends : Ends rest) :
    Takes (readNumber negative) (numeral.chars.map byte) (.float x) rest := by
  intro cur hcur
  obtain ⟨after, hafter, hread⟩ := readNumber_numeral negative hends hcur
  rw [hpart, Bool.true_or, if_pos rfl, hx] at hread
  exact ⟨after, hread, hafter⟩

/-- The text of a number is a minus sign or nothing and a numeral that is read as the number. -/
theorem exists_numeral_text (n : Number) :
    ∃ (negative : Bool) (numeral : Numeral),
      n.text.toList = (if negative then ['-'] else []) ++ numeral.chars ∧
        ∀ rest, Ends rest → Takes (readNumber negative) (numeral.chars.map byte) n rest := by
  cases n with
  | int n inRange =>
    have hread : ∀ negative : Bool, (negative = true → n.natAbs ≠ 0) →
        (if negative then -(n.natAbs : Int) else n.natAbs) = n → ∀ rest, Ends rest →
        Takes (readNumber negative) ((Numeral.ofNat n.natAbs).chars.map byte) (.int n inRange)
          rest := by
      intro negative hzero hvalue rest hends
      refine takes_readNumber_int rfl rfl ?_ ?_ hends
      · rw [Numeral.digits_ofNat]
        exact hzero
      · rw [Numeral.digits_ofNat, hvalue]
        exact dif_pos inRange
    have hchars : ∀ m, (Numeral.ofNat m).chars = Nat.toDigits 10 m := fun m => List.append_nil _
    cases n with
    | ofNat m =>
      refine ⟨false, Numeral.ofNat m, ?_, hread false nofun rfl⟩
      rw [hchars]
      exact Nat.toList_repr
    | negSucc m =>
      refine ⟨true, Numeral.ofNat (m + 1), ?_, hread true (fun _ => Nat.succ_ne_zero m) rfl⟩
      rw [hchars]
      show ("-" ++ Nat.repr (m + 1)).toList = _
      rw [String.toList_append, Nat.toList_repr]
      rfl
  | float x =>
    obtain ⟨numeral, htext, hpart, hx⟩ := exists_numeral_textWith .record x
    exact ⟨x.negative, numeral, htext, fun rest => takes_readNumber_float hpart hx⟩

end RecordFlow.Json
