import RecordFlow.Csv.Cell
import RecordFlow.Proofs.Text.Blank
import RecordFlow.Proofs.Text.Numeral

/-!
# What cells stand for

What a cell stands for under a type (`Cell.Typed`) and by what it looks like (`Cell.Inferred`) are
two relations, each with its own reader and its own order of attempts. They agree where it matters:
a cell that looks like a value of a type stands for that value under the type
(`Cell.Inferred.typed`).
-/

namespace RecordFlow

/-- Integers of the signed 64-bit range are not held back. -/
theorem Number.ofIntClamped_eq {n : Int}
    (h : -0x8000000000000000 ≤ n ∧ n < 0x8000000000000000) :
    ofIntClamped n = .int n ⟨h.1, Int.lt_trans h.2 (by decide)⟩ := by
  have hclamp : clamp n = n := by
    unfold clamp
    omega
  simp only [ofIntClamped, hclamp]

namespace Csv.Cell

/-- The text of a cell without the blanks at its ends. -/
def content (raw : String) : List Char := Text.trim raw.toList

/-! ## The two relations -/

/-- Under a type, a blank cell stands for null. Any other stands for its text, for the integer or
the finite number whose numeral it is, or for the truth value that it is a word for. -/
inductive Typed : DataType → String → Value → Prop where
  | blank (t : DataType) {raw : String} (h : Text.Blank raw.toList) : Typed t raw .null
  | utf8 {raw : String} (h : ¬ Text.Blank raw.toList) :
    Typed .utf8 raw (.string (String.ofList (content raw)))
  | int64 {raw : String} {n : Int} (inRange : -0x8000000000000000 ≤ n ∧ n < 0x10000000000000000)
    (h : Text.Int64Numeral (content raw) n) : Typed .int64 raw (.number (.int n inRange))
  | float64 {raw : String} {x : Binary64} (h : Text.readBinary64 (content raw) = .ok (some x)) :
    Typed .float64 raw (.number (.float x))
  | yes {raw : String} (h : lower (content raw) ∈ trueWords) : Typed .bool raw (.bool true)
  | no {raw : String} (h : lower (content raw) ∈ falseWords) : Typed .bool raw (.bool false)

/-- The text is the numeral of an integer or of a finite number. -/
def LooksNumeric (text : List Char) : Prop :=
  (∃ n, Text.Int64Numeral text n) ∨ ∃ x, Text.readBinary64 text = .ok (some x)

/-- By what it looks like, a cell is null if it is blank, else an integer, else a finite number,
else one of the words `true` and `false`, and if it is none of these a string. -/
inductive Inferred : String → Value → Prop where
  | blank {raw : String} (h : Text.Blank raw.toList) : Inferred raw .null
  | int64 {raw : String} {n : Int} (inRange : -0x8000000000000000 ≤ n ∧ n < 0x10000000000000000)
    (h : Text.Int64Numeral (content raw) n) : Inferred raw (.number (.int n inRange))
  | float64 {raw : String} {x : Binary64} (hint : ∀ n, ¬ Text.Int64Numeral (content raw) n)
    (h : Text.readBinary64 (content raw) = .ok (some x)) : Inferred raw (.number (.float x))
  | yes {raw : String} (hnumeric : ¬ LooksNumeric (content raw))
    (h : lower (content raw) = "true") : Inferred raw (.bool true)
  | no {raw : String} (hnumeric : ¬ LooksNumeric (content raw))
    (h : lower (content raw) = "false") : Inferred raw (.bool false)
  | string {raw : String} (hblank : ¬ Text.Blank raw.toList)
    (hnumeric : ¬ LooksNumeric (content raw)) (htrue : lower (content raw) ≠ "true")
    (hfalse : lower (content raw) ≠ "false") :
    Inferred raw (.string (String.ofList (content raw)))

variable {t : DataType} {raw : String} {v w : Value} {text : List Char}

theorem content_eq_nil_iff : content raw = [] ↔ Text.Blank raw.toList := Text.trim_eq_nil_iff

/-- A text that is blank is not what the other rules ask for. -/
theorem content_ne_nil_of_looksNumeric (h : LooksNumeric (content raw)) : content raw ≠ [] := by
  rcases h with ⟨n, hn⟩ | ⟨x, hx⟩
  · exact hn.ne_nil
  · intro hnil
    rw [hnil] at hx
    cases hx

theorem content_ne_nil_of_word (h : lower (content raw) ∈ trueWords ++ falseWords) :
    content raw ≠ [] := by
  intro hnil
  rw [hnil] at h
  revert h
  decide

/-! ## Reading under a type -/

theorem read_of_blank (h : Text.Blank raw.toList) : read t raw = .ok .null := by
  unfold read
  exact if_pos (content_eq_nil_iff.2 h)

theorem read_of_not_blank (h : ¬ Text.Blank raw.toList) :
    read t raw = readTrimmed t (content raw) := by
  unfold read
  exact if_neg fun hnil => h (content_eq_nil_iff.1 hnil)

theorem Typed.eq_null (h : Typed t raw v) (hblank : Text.Blank raw.toList) : v = .null := by
  have hnil := content_eq_nil_iff.2 hblank
  cases h with
  | blank _ _ => rfl
  | utf8 hne => exact absurd hblank hne
  | int64 inRange h => exact absurd hnil h.ne_nil
  | float64 h => exact absurd hnil (content_ne_nil_of_looksNumeric (.inr ⟨_, h⟩))
  | yes h => exact absurd hnil (content_ne_nil_of_word (List.mem_append_left _ h))
  | no h => exact absurd hnil (content_ne_nil_of_word (List.mem_append_right _ h))

/-- An integer is read as its number. -/
theorem readTrimmed_int64_eq_ok_iff :
    readTrimmed .int64 text = .ok v ↔
      ∃ n inRange, Text.Int64Numeral text n ∧ v = .number (.int n inRange) := by
  unfold readTrimmed
  dsimp only
  cases hread : Text.readInt64 text with
  | error fault =>
    refine iff_of_false nofun ?_
    rintro ⟨n, -, hn, -⟩
    cases hread.symm.trans (Text.readInt64_eq_ok_iff.2 hn)
  | ok n =>
    have hn := Text.readInt64_eq_ok_iff.1 hread
    dsimp only
    rw [Number.ofIntClamped_eq hn.range]
    constructor
    · rintro ⟨⟩
      exact ⟨n, _, hn, rfl⟩
    · rintro ⟨m, inRange, hm, rfl⟩
      cases hread.symm.trans (Text.readInt64_eq_ok_iff.2 hm)
      rfl

theorem readTrimmed_float64_eq_ok_iff :
    readTrimmed .float64 text = .ok v ↔
      ∃ x, Text.readBinary64 text = .ok (some x) ∧ v = .number (.float x) := by
  unfold readTrimmed
  dsimp only
  rcases Text.readBinary64 text with fault | _ | x <;> simp [eq_comm]

/-- No word stands for both truth values. -/
theorem readTrimmed_bool_eq_ok_iff :
    readTrimmed .bool text = .ok v ↔
      (lower text ∈ trueWords ∧ v = .bool true) ∨ (lower text ∈ falseWords ∧ v = .bool false) := by
  have hdisjoint : ∀ word ∈ trueWords, word ∉ falseWords := by decide
  unfold readTrimmed
  simp only [List.contains_iff_mem]
  split_ifs with htrue hfalse
  · simp [htrue, hdisjoint _ htrue, eq_comm]
  · simp [htrue, hfalse, eq_comm]
  · simp [htrue, hfalse]

/-- What is read under a type is what a cell stands for under it. -/
theorem read_eq_ok_iff : read t raw = .ok v ↔ Typed t raw v := by
  by_cases hblank : Text.Blank raw.toList
  · rw [read_of_blank hblank]
    constructor
    · rintro ⟨⟩
      exact .blank t hblank
    · intro h
      rw [h.eq_null hblank]
  · rw [read_of_not_blank hblank]
    constructor
    · intro h
      cases t with
      | utf8 =>
        cases h
        exact .utf8 hblank
      | int64 =>
        obtain ⟨n, inRange, hn, rfl⟩ := readTrimmed_int64_eq_ok_iff.1 h
        exact .int64 inRange hn
      | float64 =>
        obtain ⟨x, hx, rfl⟩ := readTrimmed_float64_eq_ok_iff.1 h
        exact .float64 hx
      | bool =>
        rcases readTrimmed_bool_eq_ok_iff.1 h with ⟨hword, rfl⟩ | ⟨hword, rfl⟩
        · exact .yes hword
        · exact .no hword
    · rintro (⟨-, h⟩ | ⟨-⟩ | ⟨inRange, h⟩ | h | h | h)
      · exact absurd h hblank
      · rfl
      · exact readTrimmed_int64_eq_ok_iff.2 ⟨_, inRange, h, rfl⟩
      · exact readTrimmed_float64_eq_ok_iff.2 ⟨_, h, rfl⟩
      · exact readTrimmed_bool_eq_ok_iff.2 (.inl ⟨h, rfl⟩)
      · exact readTrimmed_bool_eq_ok_iff.2 (.inr ⟨h, rfl⟩)

/-! ## Inferring a type -/

theorem inferTrimmed_of_int64 {n : Int} (h : Text.Int64Numeral text n) :
    ∃ inRange, inferTrimmed text = .number (.int n inRange) := by
  unfold inferTrimmed
  rw [Text.readInt64_eq_ok_iff.2 h]
  dsimp only
  rw [Number.ofIntClamped_eq h.range]
  exact ⟨_, rfl⟩

theorem inferTrimmed_of_float64 {x : Binary64} (hint : ∀ n, ¬ Text.Int64Numeral text n)
    (h : Text.readBinary64 text = .ok (some x)) : inferTrimmed text = .number (.float x) := by
  unfold inferTrimmed
  rw [h]
  cases hread : Text.readInt64 text with
  | ok n => exact absurd (Text.readInt64_eq_ok_iff.1 hread) (hint n)
  | error fault => rfl

theorem inferTrimmed_of_not_looksNumeric (h : ¬ LooksNumeric text) :
    inferTrimmed text =
      if lower text = "true" then .bool true
      else if lower text = "false" then .bool false
      else .string (String.ofList text) := by
  unfold inferTrimmed
  cases hint : Text.readInt64 text with
  | ok n => exact absurd (.inl ⟨n, Text.readInt64_eq_ok_iff.1 hint⟩) h
  | error fault =>
    rcases hfloat : Text.readBinary64 text with fault | _ | x
    · rfl
    · rfl
    · exact absurd (.inr ⟨x, hfloat⟩) h

theorem infer_of_blank (h : Text.Blank raw.toList) : infer raw = .null := by
  unfold infer
  exact if_pos (content_eq_nil_iff.2 h)

theorem infer_of_ne_nil (h : content raw ≠ []) : infer raw = inferTrimmed (content raw) := by
  unfold infer
  exact if_neg h

theorem inferred_infer (raw : String) : Inferred raw (infer raw) := by
  by_cases hblank : Text.Blank raw.toList
  · rw [infer_of_blank hblank]
    exact .blank hblank
  rw [infer_of_ne_nil (content_eq_nil_iff.not.2 hblank)]
  by_cases hint : ∃ n, Text.Int64Numeral (content raw) n
  · obtain ⟨n, hn⟩ := hint
    obtain ⟨inRange, hinfer⟩ := inferTrimmed_of_int64 hn
    rw [hinfer]
    exact .int64 inRange hn
  by_cases hfloat : ∃ x, Text.readBinary64 (content raw) = .ok (some x)
  · obtain ⟨x, hx⟩ := hfloat
    rw [inferTrimmed_of_float64 (not_exists.1 hint) hx]
    exact .float64 (not_exists.1 hint) hx
  have hnumeric : ¬ LooksNumeric (content raw) := not_or.2 ⟨hint, hfloat⟩
  rw [inferTrimmed_of_not_looksNumeric hnumeric]
  split_ifs with htrue hfalse
  · exact .yes hnumeric htrue
  · exact .no hnumeric hfalse
  · exact .string hblank hnumeric htrue hfalse

/-- What a cell is inferred to be is what it looks like. -/
theorem infer_eq_iff : infer raw = v ↔ Inferred raw v := by
  constructor
  · rintro rfl
    exact inferred_infer raw
  · intro h
    cases h with
    | blank h => exact infer_of_blank h
    | int64 inRange h =>
      obtain ⟨_, hinfer⟩ := inferTrimmed_of_int64 h
      rw [infer_of_ne_nil h.ne_nil, hinfer]
    | float64 hint h =>
      rw [infer_of_ne_nil (content_ne_nil_of_looksNumeric (.inr ⟨_, h⟩))]
      exact inferTrimmed_of_float64 hint h
    | yes hnumeric h =>
      have hne : content raw ≠ [] := content_ne_nil_of_word (by rw [h]; decide)
      rw [infer_of_ne_nil hne, inferTrimmed_of_not_looksNumeric hnumeric, if_pos h]
    | no hnumeric h =>
      have hne : content raw ≠ [] := content_ne_nil_of_word (by rw [h]; decide)
      rw [infer_of_ne_nil hne, inferTrimmed_of_not_looksNumeric hnumeric,
        if_neg (by rw [h]; decide), if_pos h]
    | string hblank hnumeric htrue hfalse =>
      rw [infer_of_ne_nil (content_eq_nil_iff.not.2 hblank),
        inferTrimmed_of_not_looksNumeric hnumeric, if_neg htrue, if_neg hfalse]

end Csv.Cell

/-! ## Inferred types -/

/-- A value is null or of the type that it is inferred to have: integers are not floats. -/
inductive DataType.Native : DataType → Value → Prop where
  | null (t : DataType) : Native t .null
  | utf8 (s : String) : Native .utf8 (.string s)
  | int64 (n : Int) (inRange : -0x8000000000000000 ≤ n ∧ n < 0x10000000000000000) :
    Native .int64 (.number (.int n inRange))
  | float64 (x : Binary64) : Native .float64 (.number (.float x))
  | bool (b : Bool) : Native .bool (.bool b)

/-- A cell that is inferred to be of a type stands for the same value under the type. -/
theorem Csv.Cell.Inferred.typed {t : DataType} {raw : String} {v : Value} (h : Inferred raw v)
    (ht : t.Native v) : Typed t raw v := by
  cases h with
  | blank h => exact .blank t h
  | int64 inRange h =>
    cases ht
    exact .int64 inRange h
  | float64 _ h =>
    cases ht
    exact .float64 h
  | yes _ h =>
    cases ht
    exact .yes (by rw [h]; decide)
  | no _ h =>
    cases ht
    exact .no (by rw [h]; decide)
  | string hblank =>
    cases ht
    exact .utf8 hblank

end RecordFlow
