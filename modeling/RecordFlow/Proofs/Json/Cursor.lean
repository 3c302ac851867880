import RecordFlow.Json.Cursor
import RecordFlow.Proofs.Attempts
import RecordFlow.Proofs.Text.Utf8
import RecordFlow.Text.Blank

/-!
# What is left to read

What a reader gives depends on the bytes that are left, not on the position. A reader takes bytes as
a result if it does so before whatever a cursor has left after them (`Json.Takes`).
-/

namespace RecordFlow.Json

variable {α : Type} {p : UInt8 → Bool} {bytes rest : List UInt8} {b : UInt8} {c : Cursor}

/-- What is left goes on with no byte that passes a test. -/
def Stops (p : UInt8 → Bool) (rest : List UInt8) : Prop := ∀ b ∈ rest.head?, p b = false

/-- A cursor before the bytes and the rest is moved to the rest, and the result is `a`. -/
def Takes (read : Cursor → Except ReadError (α × Cursor)) (bytes : List UInt8) (a : α)
    (rest : List UInt8) : Prop :=
  ∀ c : Cursor, c.rest = bytes ++ rest → ∃ after, read c = .ok (a, after) ∧ after.rest = rest

/-! ## Runs of bytes -/

theorem stops_nil : Stops p [] := nofun

theorem stops_cons : Stops p (b :: rest) ↔ p b = false := by
  simp [Stops]

theorem dropWhile_of_stops (h : Stops p rest) : rest.dropWhile p = rest := by
  cases rest with
  | nil => rfl
  | cons b rest => exact List.dropWhile_cons_of_neg (by simp [stops_cons.1 h])

theorem takeWhile_append_of_stops (h : ∀ b ∈ bytes, p b = true) (hrest : Stops p rest) :
    (bytes ++ rest).takeWhile p = bytes := by
  rw [List.takeWhile_append_of_pos h]
  cases rest with
  | nil => exact List.append_nil bytes
  | cons b rest =>
    rw [List.takeWhile_cons_of_neg (by simp [stops_cons.1 hrest]), List.append_nil]

theorem dropWhile_append_of_stops (h : ∀ b ∈ bytes, p b = true) (hrest : Stops p rest) :
    (bytes ++ rest).dropWhile p = rest := by
  rw [List.dropWhile_append_of_pos h, dropWhile_of_stops hrest]

/-! ## Moving the cursor -/

namespace Cursor

theorem peek_of_rest (h : c.rest = b :: rest) : c.peek = some b := by
  unfold peek
  rw [h]
  rfl

theorem advance_rest (h : c.rest = b :: rest) : c.advance.rest = rest := by
  unfold advance
  rw [h]

theorem advanceOver_rest (h : c.rest = bytes ++ rest) : (c.advanceOver bytes).rest = rest := by
  unfold advanceOver
  dsimp only
  rw [h, List.drop_left]

theorem skipRun_rest (p : UInt8 → Bool) (c : Cursor) :
    (c.skipRun p).rest = c.rest.dropWhile p := by
  have hrun : c.rest = c.run p ++ c.rest.dropWhile p := List.takeWhile_append_dropWhile.symm
  exact advanceOver_rest hrun

/-- Before a byte that is no blank, there is nothing to skip. -/
theorem skipSpace_rest (h : Stops isSpace c.rest) : c.skipSpace.rest = c.rest :=
  (skipRun_rest isSpace c).trans (dropWhile_of_stops h)

/-- Nothing is skipped before a byte that is no blank. -/
theorem skipSpace_rest_cons (h : c.rest = b :: rest) (hb : isSpace b = false) :
    c.skipSpace.rest = b :: rest := by
  rw [skipSpace_rest (h ▸ stops_cons.2 hb), h]

/-- The bytes of a run, and what is left after it. -/
theorem run_skipRun (h : c.rest = bytes ++ rest) (hbytes : ∀ b ∈ bytes, p b = true)
    (hrest : Stops p rest) : c.run p = bytes ∧ (c.skipRun p).rest = rest := by
  refine ⟨?_, ?_⟩
  · unfold run
    rw [h, takeWhile_append_of_stops hbytes hrest]
  · rw [skipRun_rest, h, dropWhile_append_of_stops hbytes hrest]

end Cursor

/-! ## ASCII text -/

/-- A text of ASCII characters is encoded byte by byte. -/
theorem encode_of_ascii {text : List Char} (h : ∀ c ∈ text, c.toNat < 0x80) :
    Text.encode text = text.map byte := by
  induction text with
  | nil => rfl
  | cons c text ih =>
    rw [Text.encode_cons, Text.encodeChar_of_lt (h c List.mem_cons_self),
      ih fun d hd => h d (List.mem_cons_of_mem c hd)]
    rfl

theorem encode_cons_of_ascii {c : Char} (h : c.toNat < 0x80) (text : List Char) :
    Text.encode (c :: text) = byte c :: Text.encode text := by
  rw [Text.encode_cons, Text.encodeChar_of_lt h]
  rfl

theorem toNat_byte {c : Char} (h : c.toNat < 0x80) : (byte c).toNat = c.toNat :=
  Text.toNat_ofNat (by omega)

theorem byte_inj {c d : Char} (hc : c.toNat < 0x80) (hd : d.toNat < 0x80) :
    byte c = byte d ↔ c = d := by
  rw [← UInt8.toNat_inj, toNat_byte hc, toNat_byte hd, Char.toNat_inj]

/-- What the reader of documents skips is blank. -/
theorem isSpace_of_mem_encodeChar {c : Char} (h : Text.isBlank c = false) :
    ∀ b ∈ Text.encodeChar c, isSpace b = false := by
  intro b hb
  have hne : ∀ d : Char, d.toNat < 0x80 → Text.isBlank d = true → b ≠ byte d := by
    rintro d hd hblank rfl
    by_cases hascii : c.toNat < 0x80
    · rw [Text.encodeChar_of_lt hascii, List.mem_singleton] at hb
      rw [← (byte_inj hd hascii).1 hb, hblank] at h
      cases h
    · have hle := Text.le_of_mem_encodeChar (Nat.le_of_not_lt hascii) hb
      rw [toNat_byte hd] at hle
      omega
  simp [isSpace, hne ' ' (by decide) (by decide), hne '\t' (by decide) (by decide),
    hne '\n' (by decide) (by decide), hne '\r' (by decide) (by decide)]

end RecordFlow.Json
