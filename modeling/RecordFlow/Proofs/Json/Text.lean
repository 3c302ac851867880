import RecordFlow.Json.Text
import RecordFlow.Proofs.Json.Cursor
import RecordFlow.Value.Text

/-!
# JSON strings there and back

A character stands in a string as it is, as a letter after a backslash, or as four hexadecimal
digits (`Json.Written`). Each form is read as the character, so a string that was written is read
back (`Json.takes_readString`).
-/

namespace RecordFlow.Json

variable {bytes read rest : List UInt8} {cur : Cursor} {fuel : Nat} {c : Char}

/-! ## Forms of a character -/

/-- How a character is written inside a string. -/
inductive Written : Char → List Char → Prop where
  | plain {c : Char} (hquote : c ≠ '"') (hslash : c ≠ '\\') (h : 0x20 ≤ c.toNat) : Written c [c]
  | letter {c l : Char} (hascii : l.toNat < 0x80) (hu : byte l ≠ byte 'u')
    (h : escaped? (byte l) = some c) : Written c ['\\', l]
  | digits {c : Char} (h : c.toNat < 0x20) :
    Written c ("\\u00".toList ++ [Nat.digitChar (c.toNat / 16), Nat.digitChar (c.toNat % 16)])

theorem written_jsonChar (c : Char) : Written c (jsonChar c) := by
  unfold jsonChar
  split
  · exact .letter (by decide) (by decide) (by decide)
  · exact .letter (by decide) (by decide) (by decide)
  · exact .letter (by decide) (by decide) (by decide)
  · exact .letter (by decide) (by decide) (by decide)
  · exact .letter (by decide) (by decide) (by decide)
  · exact .letter (by decide) (by decide) (by decide)
  · exact .letter (by decide) (by decide) (by decide)
  · rename_i hquote hslash _ _ _ _ _
    split
    · rename_i h
      exact .digits h
    · rename_i h
      exact .plain hquote hslash (Nat.le_of_not_lt h)

/-- A line feed is written as an escape. -/
theorem Written.feed_not_mem {chars : List Char} (h : Written c chars) : '\n' ∉ chars := by
  cases h with
  | plain _ _ h =>
    rw [List.mem_singleton]
    rintro rfl
    exact absurd h (by decide)
  | letter _ _ h =>
    have hnone : escaped? (byte '\n') = none := rfl
    rw [List.mem_cons, List.mem_singleton, not_or]
    refine ⟨by decide, ?_⟩
    rintro rfl
    rw [hnone] at h
    cases h
  | digits h =>
    have hdigits : ∀ n < 32,
        '\n' ∉ "\\u00".toList ++ [Nat.digitChar (n / 16), Nat.digitChar (n % 16)] := by
      decide
    exact hdigits _ h

/-! ## Reading the forms -/

/-- A byte that stands for itself in a string. -/
def Plain (b : UInt8) : Prop := b ≠ byte '"' ∧ b ≠ byte '\\' ∧ ¬ b < byte ' '

theorem plain_of_mem_encodeChar (hquote : c ≠ '"') (hslash : c ≠ '\\') (h : 0x20 ≤ c.toNat)
    {b : UInt8} (hb : b ∈ Text.encodeChar c) : Plain b := by
  have hchar : ∀ d : Char, d.toNat < 0x80 → c ≠ d → b ≠ byte d := by
    rintro d hd hne rfl
    by_cases hascii : c.toNat < 0x80
    · rw [Text.encodeChar_of_lt hascii, List.mem_singleton] at hb
      exact hne ((byte_inj hascii hd).1 hb.symm)
    · have hle := Text.le_of_mem_encodeChar (Nat.le_of_not_lt hascii) hb
      rw [toNat_byte hd] at hle
      omega
  refine ⟨hchar '"' (by decide) hquote, hchar '\\' (by decide) hslash, ?_⟩
  rw [UInt8.lt_iff_toNat_lt, Nat.not_lt]
  by_cases hascii : c.toNat < 0x80
  · rw [Text.encodeChar_of_lt hascii, List.mem_singleton] at hb
    rw [hb, Text.toNat_ofNat (by omega)]
    exact h
  · exact Nat.le_trans (by decide) (Text.le_of_mem_encodeChar (Nat.le_of_not_lt hascii) hb)

theorem readStringFrom_plain (h : ∀ b ∈ bytes, Plain b) (read : List UInt8)
    (hcur : cur.rest = bytes ++ rest) :
    ∃ after, readStringFrom (bytes.length + fuel) read cur =
      readStringFrom fuel (bytes.reverse ++ read) after ∧ after.rest = rest := by
  induction bytes generalizing read cur with
  | nil => exact ⟨cur, by rw [List.length_nil, Nat.zero_add]; rfl, hcur⟩
  | cons b bytes ih =>
    obtain ⟨hquote, hslash, hcontrol⟩ := h b List.mem_cons_self
    obtain ⟨after, hread, hrest⟩ := ih (fun d hd => h d (List.mem_cons_of_mem b hd)) (b :: read)
      (Cursor.advance_rest hcur)
    refine ⟨after, ?_, hrest⟩
    rw [List.length_cons, Nat.add_right_comm, List.reverse_cons, List.append_assoc]
    rw [readStringFrom, Cursor.peek_of_rest hcur]
    dsimp only
    rw [if_neg hquote, if_neg hslash, if_neg hcontrol]
    exact hread

/-- An escape is read as its character. -/
theorem readStringFrom_escape {esc : List UInt8} (hcur : cur.rest = byte '\\' :: (esc ++ rest))
    (hescape : Takes readEscape esc c rest) :
    ∃ after, readStringFrom (fuel + 1) read cur =
      readStringFrom fuel ((Text.encodeChar c).reverse ++ read) after ∧ after.rest = rest := by
  obtain ⟨after, hread, hrest⟩ := hescape cur.advance (Cursor.advance_rest hcur)
  refine ⟨after, ?_, hrest⟩
  rw [readStringFrom, Cursor.peek_of_rest hcur]
  dsimp only
  rw [if_neg (by decide), if_pos rfl, hread, ok_bind]

theorem takes_readEscape_letter {l : Char} (hu : byte l ≠ byte 'u')
    (h : escaped? (byte l) = some c) (rest : List UInt8) :
    Takes readEscape [byte l] c rest := by
  intro cur hcur
  refine ⟨cur.advance, ?_, Cursor.advance_rest hcur⟩
  unfold readEscape
  rw [Cursor.peek_of_rest hcur]
  dsimp only
  rw [if_neg hu, h]

theorem hexNumber?_digits : ∀ n < 32, hexNumber? (("00".toList ++
    [Nat.digitChar (n / 16), Nat.digitChar (n % 16)]).map byte) = some n := by
  decide

theorem takes_readEscape_digits (h : c.toNat < 0x20) (rest : List UInt8) :
    Takes readEscape (("u00".toList ++
      [Nat.digitChar (c.toNat / 16), Nat.digitChar (c.toNat % 16)]).map byte) c rest := by
  intro cur hcur
  have hu : cur.rest = byte 'u' :: (("00".toList ++
      [Nat.digitChar (c.toNat / 16), Nat.digitChar (c.toNat % 16)]).map byte ++ rest) := hcur
  have hdigits := Cursor.advance_rest hu
  refine ⟨_, ?_, Cursor.advanceOver_rest hdigits⟩
  have htake : cur.advance.rest.take 4 = ("00".toList ++
      [Nat.digitChar (c.toNat / 16), Nat.digitChar (c.toNat % 16)]).map byte := by
    rw [hdigits]
    rfl
  unfold readEscape
  rw [Cursor.peek_of_rest hu]
  dsimp only
  rw [if_pos rfl]
  unfold readHexEscape readHex
  dsimp only
  rw [htake, if_neg (by simp), hexNumber?_digits _ h]
  dsimp only
  rw [ok_bind]
  dsimp only
  rw [if_neg (by omega), if_neg (by omega), Char.ofNat_toNat]
  rfl

/-- A form of a character is read as the character. -/
theorem readStringFrom_written {chars : List Char} (h : Written c chars) (read : List UInt8)
    (hcur : cur.rest = Text.encode chars ++ rest) :
    ∃ n ≤ (Text.encode chars).length, ∀ fuel, ∃ after, readStringFrom (n + fuel) read cur =
      readStringFrom fuel ((Text.encodeChar c).reverse ++ read) after ∧ after.rest = rest := by
  cases h with
  | plain hquote hslash h =>
    have hbytes : Text.encode [c] = Text.encodeChar c := by
      rw [Text.encode_cons]
      exact List.append_nil _
    rw [hbytes] at hcur ⊢
    exact ⟨_, Nat.le_refl _, fun fuel =>
      readStringFrom_plain (fun b => plain_of_mem_encodeChar hquote hslash h) read hcur⟩
  | @letter l hascii hu h =>
    have hbytes : Text.encode ['\\', l] = [byte '\\', byte l] := by
      rw [Text.encode_cons, Text.encode_cons, Text.encodeChar_of_lt hascii]
      rfl
    rw [hbytes] at hcur ⊢
    refine ⟨1, by simp, fun fuel => ?_⟩
    rw [Nat.add_comm]
    exact readStringFrom_escape hcur (takes_readEscape_letter hu h rest)
  | digits h =>
    have hbytes : ∀ n < 32,
        Text.encode ("\\u00".toList ++ [Nat.digitChar (n / 16), Nat.digitChar (n % 16)]) =
          byte '\\' ::
            ("u00".toList ++ [Nat.digitChar (n / 16), Nat.digitChar (n % 16)]).map byte := by
      decide
    rw [hbytes _ h] at hcur ⊢
    refine ⟨1, by simp, fun fuel => ?_⟩
    rw [Nat.add_comm]
    exact readStringFrom_escape hcur (takes_readEscape_digits h rest)

/-! ## Strings -/

/-- The rest of a written string is read to its closing quote. -/
theorem readStringFrom_flatMap (text : List Char) (fuel : Nat) (read : List UInt8)
    (hfuel : (Text.encode (text.flatMap jsonChar)).length < fuel)
    (hcur : cur.rest = Text.encode (text.flatMap jsonChar) ++ byte '"' :: rest) :
    ∃ after, readStringFrom fuel read cur = decodeString (read.reverse ++ Text.encode text) after ∧
      after.rest = rest := by
  induction text generalizing fuel read cur with
  | nil =>
    cases fuel with
    | zero => cases hfuel
    | succ fuel =>
      refine ⟨cur.advance, ?_, Cursor.advance_rest hcur⟩
      rw [readStringFrom, Cursor.peek_of_rest hcur]
      dsimp only
      rw [if_pos rfl]
      exact congrArg (decodeString · _) (List.append_nil _).symm
  | cons c text ih =>
    rw [List.flatMap_cons, Text.encode_append, List.append_assoc] at hcur
    rw [List.flatMap_cons, Text.encode_append, List.length_append] at hfuel
    obtain ⟨n, hn, hstep⟩ := readStringFrom_written (written_jsonChar c) read hcur
    obtain ⟨mid, hmid, hmidrest⟩ := hstep (fuel - n)
    obtain ⟨after, hread, hrest⟩ := ih (fuel - n) ((Text.encodeChar c).reverse ++ read) (by omega)
      hmidrest
    refine ⟨after, ?_, hrest⟩
    rw [show fuel = n + (fuel - n) by omega, hmid, hread, Text.encode_cons, List.reverse_append,
      List.reverse_reverse, List.append_assoc]

/-- A written string is read back, the cursor being after its opening quote. -/
theorem takes_readString (s : String) (rest : List UInt8) :
    Takes readString (Text.encode (s.toList.flatMap jsonChar) ++ [byte '"']) s rest := by
  intro cur hcur
  rw [List.append_assoc] at hcur
  obtain ⟨after, hread, hrest⟩ := readStringFrom_flatMap s.toList (cur.rest.length + 1) []
    (by rw [hcur, List.length_append]; omega) hcur
  refine ⟨after, ?_, hrest⟩
  unfold readString
  rw [hread]
  unfold decodeString
  rw [List.reverse_nil, List.nil_append, Text.decode_encode]
  dsimp only
  rw [String.ofList_toList]

end RecordFlow.Json
