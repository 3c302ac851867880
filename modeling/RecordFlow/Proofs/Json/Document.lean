import Mathlib.Data.List.TakeWhile
import RecordFlow.Json.Document
import RecordFlow.Proofs.Value.Text

/-!
# Documents there and back

The text of a value is read as the value wherever it stands, if its brackets nest no deeper than
they may (`Json.reads_readValue`). So the text of a value is a document of the value
(`Json.readDocument_jsonChars`), and a document with more text after it than blanks is none
(`Json.readDocument_append`).
-/

namespace RecordFlow.Json

variable {readItem : Cursor → Except ReadError (Value × Cursor)}
  {nested : Option (Cursor → Except ReadError (Value × Cursor))} {v : Value} {items : List Value}
  {field : String × Value} {fields : Fields Value} {rest : List UInt8} {b : UInt8}
  {cur next : Cursor}

/-- The text of the value is taken as the value. After a number nothing may stand that it goes on
with. -/
def Reads (readItem : Cursor → Except ReadError (Value × Cursor)) (v : Value) : Prop :=
  ∀ rest, (v.kind = .number → Ends rest) → Takes readItem (Text.encode v.jsonChars) v rest

/-! ## Scalars -/

theorem readName_rest (name : List Char) (hcur : cur.rest = name.map byte ++ rest) :
    ∃ after, cur.readName name = .ok after ∧ after.rest = rest := by
  induction name generalizing cur with
  | nil => exact ⟨cur, rfl, hcur⟩
  | cons c name ih =>
    obtain ⟨after, hread, hrest⟩ := ih (Cursor.advance_rest hcur)
    refine ⟨after, ?_, hrest⟩
    unfold Cursor.readName
    rw [Cursor.peek_of_rest hcur]
    dsimp only
    rw [if_pos rfl]
    exact hread

theorem reads_null : Reads (readValueWith nested) .null := by
  intro rest _ cur hcur
  have hskip := Cursor.skipSpace_rest_cons (b := byte 'n') hcur (by decide)
  obtain ⟨after, hname, hrest⟩ := readName_rest "ull".toList (Cursor.advance_rest hskip)
  refine ⟨after, ?_, hrest⟩
  unfold readValueWith
  dsimp only
  rw [Cursor.peek_of_rest hskip]
  dsimp only
  rw [if_pos rfl, hname]
  rfl

theorem reads_bool (truth : Bool) : Reads (readValueWith nested) (.bool truth) := by
  intro rest _ cur hcur
  cases truth with
  | true =>
    have hskip := Cursor.skipSpace_rest_cons (b := byte 't') hcur (by decide)
    obtain ⟨after, hname, hrest⟩ := readName_rest "rue".toList (Cursor.advance_rest hskip)
    refine ⟨after, ?_, hrest⟩
    unfold readValueWith
    dsimp only
    rw [Cursor.peek_of_rest hskip]
    dsimp only
    rw [if_neg (by decide), if_pos rfl, hname]
    rfl
  | false =>
    have hskip := Cursor.skipSpace_rest_cons (b := byte 'f') hcur (by decide)
    obtain ⟨after, hname, hrest⟩ := readName_rest "alse".toList (Cursor.advance_rest hskip)
    refine ⟨after, ?_, hrest⟩
    unfold readValueWith
    dsimp only
    rw [Cursor.peek_of_rest hskip]
    dsimp only
    rw [if_neg (by decide), if_neg (by decide), if_pos rfl, hname]
    rfl

theorem encode_jsonString (s : String) :
    Text.encode (jsonString s) =
      byte '"' :: (Text.encode (s.toList.flatMap jsonChar) ++ [byte '"']) := by
  unfold jsonString
  rw [List.cons_append, encode_cons_of_ascii (by decide), Text.encode_append]
  rfl

theorem reads_string (s : String) : Reads (readValueWith nested) (.string s) := by
  intro rest _ cur hcur
  have hbytes := encode_jsonString s
  rw [show Text.encode (Value.string s).jsonChars = _ from hbytes, List.cons_append] at hcur
  have hskip := Cursor.skipSpace_rest_cons hcur (by decide)
  obtain ⟨after, hread, hrest⟩ := takes_readString s rest _ (Cursor.advance_rest hskip)
  refine ⟨after, ?_, hrest⟩
  unfold readValueWith
  dsimp only
  rw [Cursor.peek_of_rest hskip]
  dsimp only
  rw [if_neg (by decide), if_neg (by decide), if_neg (by decide), if_neg (by decide),
    if_neg (by decide), if_pos rfl, hread]
  rfl

theorem ne_of_isDigit (h : isDigit b = true) (other : UInt8) (hother : isDigit other = false) :
    b ≠ other := by
  rintro rfl
  rw [h] at hother
  cases hother

theorem isSpace_of_isDigit (h : isDigit b = true) : isSpace b = false := by
  simp [isSpace, ne_of_isDigit h (byte ' ') (by decide), ne_of_isDigit h (byte '\t') (by decide),
    ne_of_isDigit h (byte '\n') (by decide), ne_of_isDigit h (byte '\r') (by decide)]

theorem Numeral.chars_eq_cons (numeral : Numeral) :
    ∃ d tail, numeral.chars = d :: tail ∧ d.isDigit = true := by
  obtain ⟨d, tail, hwhole⟩ := List.exists_cons_of_ne_nil numeral.whole_ne_nil
  refine ⟨d, tail ++ (numeral.fractionChars ++ numeral.exponentChars), ?_, ?_⟩
  · unfold chars
    rw [hwhole, List.cons_append]
  · exact numeral.whole_digits d (hwhole ▸ List.mem_cons_self)

theorem encode_numberText {n : Number} {negative : Bool} {numeral : Numeral}
    (h : n.text.toList = (if negative then ['-'] else []) ++ numeral.chars) :
    Text.encode n.text.toList =
      Text.encode (if negative then ['-'] else []) ++ numeral.chars.map byte := by
  rw [h, Text.encode_append, encode_of_ascii numeral.toNat_lt_of_mem_chars]

theorem reads_number (n : Number) : Reads (readValueWith nested) (.number n) := by
  intro rest hends cur hcur
  obtain ⟨negative, numeral, htext, htakes⟩ := exists_numeral_text n
  rw [show Text.encode (Value.number n).jsonChars = _ from encode_numberText htext,
    List.append_assoc] at hcur
  have htakes' := htakes rest (hends rfl)
  cases negative with
  | true =>
    have hskip := Cursor.skipSpace_rest_cons (b := byte '-') hcur (by decide)
    obtain ⟨after, hread, hrest⟩ := htakes' _ (Cursor.advance_rest hskip)
    refine ⟨after, ?_, hrest⟩
    unfold readValueWith
    dsimp only
    rw [Cursor.peek_of_rest hskip]
    dsimp only
    rw [if_neg (by decide), if_neg (by decide), if_neg (by decide), if_pos rfl, hread]
    rfl
  | false =>
    obtain ⟨d, tail, hchars, hd⟩ := numeral.chars_eq_cons
    have hdigit := isDigit_byte hd
    have hne : ∀ other, isDigit other = false → byte d ≠ other := ne_of_isDigit hdigit
    rw [hchars] at htakes' hcur
    have hskip := Cursor.skipSpace_rest_cons hcur (isSpace_of_isDigit hdigit)
    obtain ⟨after, hread, hrest⟩ := htakes' _ hskip
    refine ⟨after, ?_, hrest⟩
    unfold readValueWith
    dsimp only
    rw [Cursor.peek_of_rest hskip]
    dsimp only
    rw [if_neg (hne _ (by decide)), if_neg (hne _ (by decide)), if_neg (hne _ (by decide)),
      if_neg (hne _ (by decide)), if_pos hdigit, hread]
    rfl

/-! ## Arrays -/

/-- The text of a value starts with what is neither a blank nor the end of an array. -/
theorem encode_jsonChars_eq_cons (v : Value) :
    ∃ b tail, Text.encode v.jsonChars = b :: tail ∧ isSpace b = false ∧ b ≠ byte ']' := by
  cases v with
  | null => exact ⟨byte 'n', _, rfl, by decide, by decide⟩
  | bool truth => cases truth with
    | true => exact ⟨byte 't', _, rfl, by decide, by decide⟩
    | false => exact ⟨byte 'f', _, rfl, by decide, by decide⟩
  | number n =>
    obtain ⟨negative, numeral, htext, -⟩ := exists_numeral_text n
    have hbytes := encode_numberText htext
    cases negative with
    | true => exact ⟨byte '-', _, hbytes, by decide, by decide⟩
    | false =>
      obtain ⟨d, tail, hchars, hd⟩ := numeral.chars_eq_cons
      have hdigit := isDigit_byte hd
      rw [hchars] at hbytes
      exact ⟨byte d, _, hbytes, isSpace_of_isDigit hdigit, ne_of_isDigit hdigit _ (by decide)⟩
  | string s => exact ⟨byte '"', _, encode_jsonString s, by decide, by decide⟩
  | array items => exact ⟨byte '[', _, encode_cons_of_ascii (by decide) _, by decide, by decide⟩
  | object fields =>
    exact ⟨byte '\x7b', _, encode_cons_of_ascii (by decide) _, by decide, by decide⟩

theorem nextItem_close (started : Bool) (hcur : cur.rest = byte ']' :: rest) :
    ∃ next, cur.nextItem started = .ok (false, next) ∧ next.rest = byte ']' :: rest := by
  have hskip := Cursor.skipSpace_rest_cons hcur (by decide)
  refine ⟨_, ?_, hskip⟩
  unfold Cursor.nextItem
  dsimp only
  rw [Cursor.peek_of_rest hskip]
  dsimp only
  rw [if_pos rfl]

theorem nextItem_first (v : Value) (hcur : cur.rest = Text.encode v.jsonChars ++ rest) :
    ∃ next, cur.nextItem false = .ok (true, next) ∧
      next.rest = Text.encode v.jsonChars ++ rest := by
  obtain ⟨b, tail, hv, hspace, hne⟩ := encode_jsonChars_eq_cons v
  rw [hv, List.cons_append] at hcur ⊢
  have hskip := Cursor.skipSpace_rest_cons hcur hspace
  refine ⟨_, ?_, hskip⟩
  unfold Cursor.nextItem
  dsimp only
  rw [Cursor.peek_of_rest hskip]
  dsimp only
  rw [if_neg hne]
  rfl

theorem nextItem_later (v : Value)
    (hcur : cur.rest = byte ',' :: (Text.encode v.jsonChars ++ rest)) :
    ∃ next, cur.nextItem true = .ok (true, next) ∧
      next.rest = Text.encode v.jsonChars ++ rest := by
  obtain ⟨b, tail, hv, hspace, hne⟩ := encode_jsonChars_eq_cons v
  rw [hv, List.cons_append] at hcur ⊢
  have hskip := Cursor.skipSpace_rest_cons hcur (by decide)
  have hskip' := Cursor.skipSpace_rest_cons (Cursor.advance_rest hskip) hspace
  refine ⟨_, ?_, hskip'⟩
  unfold Cursor.nextItem
  dsimp only
  rw [Cursor.peek_of_rest hskip]
  dsimp only
  rw [if_neg (by decide), if_neg (by decide), if_pos rfl, Cursor.peek_of_rest hskip']
  dsimp only
  rw [if_neg hne]

/-- An item before which the cursor stands is read. -/
theorem readItemsFrom_step (fuel : Nat) (items : List Value) (hread : Reads readItem v)
    (hends : Ends rest)
    (hnext : cur.nextItem (!items.isEmpty) = .ok (true, next))
    (hrest : next.rest = Text.encode v.jsonChars ++ rest) :
    ∃ after, readItemsFrom readItem (fuel + 1) items cur =
      readItemsFrom readItem fuel (v :: items) after ∧ after.rest = rest := by
  obtain ⟨after, hitem, hafter⟩ := hread rest (fun _ => hends) next hrest
  refine ⟨after, ?_, hafter⟩
  rw [readItemsFrom, hnext, ok_bind]
  dsimp only
  rw [hitem, ok_bind]

/-- The text of the items after the first. -/
def laterItems (items : List Value) : List UInt8 :=
  Text.encode (items.flatMap fun v => ',' :: v.jsonChars)

theorem laterItems_cons (v : Value) (items : List Value) :
    laterItems (v :: items) = byte ',' :: (Text.encode v.jsonChars ++ laterItems items) := by
  unfold laterItems
  rw [List.flatMap_cons, List.cons_append, encode_cons_of_ascii (by decide), Text.encode_append]

/-- No number goes on after an item. -/
theorem ends_laterItems (items : List Value) (rest : List UInt8) :
    Ends (laterItems items ++ byte ']' :: rest) := by
  cases items with
  | nil => exact stops_cons.2 (by decide)
  | cons v items =>
    rw [laterItems_cons, List.cons_append]
    exact stops_cons.2 (by decide)

/-- The items after those read so far are read to the closing bracket. -/
theorem readItemsFrom_later (hread : ∀ v ∈ items, Reads readItem v) (fuel : Nat)
    {before : List Value} (hbefore : before ≠ []) (hfuel : (laterItems items).length < fuel)
    (hcur : cur.rest = laterItems items ++ byte ']' :: rest) :
    ∃ after, readItemsFrom readItem fuel before cur = .ok (before.reverse ++ items, after) ∧
      after.rest = rest := by
  have hstarted : (!before.isEmpty) = true := by simpa using hbefore
  induction items generalizing fuel before cur with
  | nil =>
    obtain ⟨fuel, rfl⟩ := Nat.exists_eq_succ_of_ne_zero (Nat.ne_of_gt (Nat.zero_lt_of_lt hfuel))
    obtain ⟨next, hnext, hrest⟩ := nextItem_close (!before.isEmpty) hcur
    refine ⟨next.advance, ?_, Cursor.advance_rest hrest⟩
    rw [readItemsFrom, hnext, List.append_nil]
    rfl
  | cons v items ih =>
    obtain ⟨fuel, rfl⟩ := Nat.exists_eq_succ_of_ne_zero (Nat.ne_of_gt (Nat.zero_lt_of_lt hfuel))
    rw [laterItems_cons, List.length_cons, List.length_append] at hfuel
    rw [laterItems_cons, List.cons_append, List.append_assoc] at hcur
    obtain ⟨next, hnext, hrest⟩ := nextItem_later v hcur
    obtain ⟨mid, hmid, hmidrest⟩ := readItemsFrom_step fuel before
      (hread v List.mem_cons_self) (ends_laterItems items _) (by rw [hstarted]; exact hnext) hrest
    obtain ⟨after, hafter, hafterrest⟩ := ih (fun w hw => hread w (List.mem_cons_of_mem v hw))
      fuel (List.cons_ne_nil v before) (by omega) hmidrest rfl
    refine ⟨after, ?_, hafterrest⟩
    rw [hmid, hafter, List.reverse_cons, List.append_assoc]
    rfl

/-- The text of items is taken as the items, if the text of each is taken as the item. -/
theorem takes_readItems (hread : ∀ v ∈ items, Reads readItem v) (rest : List UInt8) :
    Takes (readItems readItem) (Text.encode (Value.jsonItems items) ++ [byte ']']) items rest := by
  intro cur hcur
  unfold readItems
  cases items with
  | nil =>
    obtain ⟨next, hnext, hrest⟩ := nextItem_close false hcur
    refine ⟨next.advance, ?_, Cursor.advance_rest hrest⟩
    rw [readItemsFrom]
    show (cur.nextItem false >>= _) = _
    rw [hnext]
    rfl
  | cons v items =>
    have hlength := congrArg List.length hcur
    rw [Value.jsonItems_cons, Text.encode_append] at hcur hlength
    rw [List.append_assoc, List.append_assoc] at hcur
    obtain ⟨next, hnext, hrest⟩ := nextItem_first v hcur
    obtain ⟨mid, hmid, hmidrest⟩ := readItemsFrom_step cur.rest.length []
      (hread v List.mem_cons_self) (ends_laterItems items rest) hnext hrest
    have hfuel : (laterItems items).length < cur.rest.length := by
      unfold laterItems
      simp only [List.length_append, List.length_cons] at hlength
      omega
    obtain ⟨after, hafter, hafterrest⟩ := readItemsFrom_later
      (fun w hw => hread w (List.mem_cons_of_mem v hw)) cur.rest.length (List.cons_ne_nil v [])
      hfuel hmidrest
    exact ⟨after, hmid.trans hafter, hafterrest⟩

theorem reads_array (hread : ∀ v ∈ items, Reads readItem v) :
    Reads (readValueWith (some readItem)) (.array items) := by
  intro rest _ cur hcur
  have hbytes : Text.encode (Value.array items).jsonChars =
      byte '[' :: (Text.encode (Value.jsonItems items) ++ [byte ']']) := by
    show Text.encode ('[' :: (Value.jsonItems items ++ [']'])) = _
    rw [encode_cons_of_ascii (by decide), Text.encode_append]
    rfl
  rw [hbytes, List.cons_append] at hcur
  have hskip := Cursor.skipSpace_rest_cons hcur (by decide)
  obtain ⟨after, hitems, hrest⟩ := takes_readItems hread rest _ (Cursor.advance_rest hskip)
  refine ⟨after, ?_, hrest⟩
  unfold readValueWith
  dsimp only
  rw [Cursor.peek_of_rest hskip]
  dsimp only
  rw [if_neg (by decide), if_neg (by decide), if_neg (by decide), if_neg (by decide),
    if_neg (by decide), if_neg (by decide), if_pos rfl, hitems]
  rfl

/-! ## Objects -/

theorem encode_fieldChars (field : String × Value) :
    Text.encode (Value.fieldChars field) =
      byte '"' :: (Text.encode (field.1.toList.flatMap jsonChar) ++
        byte '"' :: byte ':' :: Text.encode field.2.jsonChars) := by
  unfold Value.fieldChars
  rw [Text.encode_append, encode_jsonString, encode_cons_of_ascii (by decide), List.cons_append,
    List.append_assoc]
  rfl

theorem nextField_close (started : Bool) (hcur : cur.rest = byte '\x7d' :: rest) :
    ∃ next, cur.nextField started = .ok (false, next) ∧ next.rest = byte '\x7d' :: rest := by
  have hskip := Cursor.skipSpace_rest_cons hcur (by decide)
  refine ⟨_, ?_, hskip⟩
  unfold Cursor.nextField
  dsimp only
  rw [Cursor.peek_of_rest hskip]
  dsimp only
  rw [if_pos rfl]

theorem nextField_first (hcur : cur.rest = byte '"' :: rest) :
    ∃ next, cur.nextField false = .ok (true, next) ∧ next.rest = byte '"' :: rest := by
  have hskip := Cursor.skipSpace_rest_cons hcur (by decide)
  refine ⟨_, ?_, hskip⟩
  unfold Cursor.nextField
  dsimp only
  rw [Cursor.peek_of_rest hskip]
  rfl

theorem nextField_later (hcur : cur.rest = byte ',' :: byte '"' :: rest) :
    ∃ next, cur.nextField true = .ok (true, next) ∧ next.rest = byte '"' :: rest := by
  have hskip := Cursor.skipSpace_rest_cons hcur (by decide)
  have hskip' := Cursor.skipSpace_rest_cons (Cursor.advance_rest hskip) (by decide)
  refine ⟨_, ?_, hskip'⟩
  unfold Cursor.nextField
  dsimp only
  rw [Cursor.peek_of_rest hskip]
  dsimp only
  rw [if_neg (by decide), if_neg (by decide), if_pos rfl, Cursor.peek_of_rest hskip']
  rfl

theorem readColon_rest (hcur : cur.rest = byte ':' :: rest) :
    ∃ after, cur.readColon = .ok after ∧ after.rest = rest := by
  have hskip := Cursor.skipSpace_rest_cons hcur (by decide)
  refine ⟨_, ?_, Cursor.advance_rest hskip⟩
  unfold Cursor.readColon
  dsimp only
  rw [Cursor.peek_of_rest hskip]
  dsimp only
  rw [if_pos rfl]

/-- A field before which the cursor stands is read. -/
theorem readFieldsFrom_step (fuel : Nat) (fields : Fields Value) {started : Bool}
    (hread : Reads readItem field.2) (hends : Ends rest)
    (hnext : cur.nextField started = .ok (true, next))
    (hrest : next.rest = Text.encode (Value.fieldChars field) ++ rest) :
    ∃ after, readFieldsFrom readItem (fuel + 1) started fields cur =
      readFieldsFrom readItem fuel true (fields.insert field.1 field.2) after ∧
        after.rest = rest := by
  rw [encode_fieldChars, List.cons_append] at hrest
  obtain ⟨c₁, hname, hrest₁⟩ := takes_readString field.1
    (byte ':' :: (Text.encode field.2.jsonChars ++ rest)) _
    ((Cursor.advance_rest hrest).trans (by simp))
  obtain ⟨c₂, hcolon, hrest₂⟩ := readColon_rest hrest₁
  obtain ⟨after, hitem, hafter⟩ := hread rest (fun _ => hends) c₂ hrest₂
  refine ⟨after, ?_, hafter⟩
  rw [readFieldsFrom, hnext, ok_bind]
  dsimp only
  rw [hname, ok_bind]
  dsimp only
  rw [hcolon, ok_bind, hitem, ok_bind]

/-- The text of the fields after the first. -/
def laterFields (fields : Fields Value) : List UInt8 :=
  Text.encode (fields.flatMap fun field => ',' :: Value.fieldChars field)

theorem laterFields_cons (field : String × Value) (fields : Fields Value) :
    laterFields (field :: fields) =
      byte ',' :: (Text.encode (Value.fieldChars field) ++ laterFields fields) := by
  unfold laterFields
  rw [List.flatMap_cons, List.cons_append, encode_cons_of_ascii (by decide), Text.encode_append]

/-- No number goes on after a field. -/
theorem ends_laterFields (fields : Fields Value) (rest : List UInt8) :
    Ends (laterFields fields ++ byte '\x7d' :: rest) := by
  cases fields with
  | nil => exact stops_cons.2 (by decide)
  | cons field fields =>
    rw [laterFields_cons, List.cons_append]
    exact stops_cons.2 (by decide)

/-- The fields after those read so far are read to the closing brace. Their names ascend, so each
is set at the end. -/
theorem readFieldsFrom_later (hread : ∀ field ∈ fields, Reads readItem field.2) (fuel : Nat)
    (before : Fields Value) (hascending : Fields.Ascending (before ++ fields))
    (hfuel : (laterFields fields).length < fuel)
    (hcur : cur.rest = laterFields fields ++ byte '\x7d' :: rest) :
    ∃ after, readFieldsFrom readItem fuel true before cur = .ok (before ++ fields, after) ∧
      after.rest = rest := by
  induction fields generalizing fuel before cur with
  | nil =>
    obtain ⟨fuel, rfl⟩ := Nat.exists_eq_succ_of_ne_zero (Nat.ne_of_gt (Nat.zero_lt_of_lt hfuel))
    obtain ⟨next, hnext, hrest⟩ := nextField_close true hcur
    refine ⟨next.advance, ?_, Cursor.advance_rest hrest⟩
    rw [readFieldsFrom, hnext, List.append_nil]
    rfl
  | cons field fields ih =>
    obtain ⟨fuel, rfl⟩ := Nat.exists_eq_succ_of_ne_zero (Nat.ne_of_gt (Nat.zero_lt_of_lt hfuel))
    rw [laterFields_cons, List.length_cons, List.length_append] at hfuel
    rw [laterFields_cons, List.cons_append, List.append_assoc] at hcur
    have hquote := encode_fieldChars field
    obtain ⟨next, hnext, hrest⟩ := nextField_later (hcur.trans (by rw [hquote, List.cons_append]))
    rw [← List.cons_append, ← hquote] at hrest
    obtain ⟨mid, hmid, hmidrest⟩ := readFieldsFrom_step fuel before
      (hread field List.mem_cons_self) (ends_laterFields fields _) hnext hrest
    rw [List.append_cons] at hascending
    have hlast : before.insert field.1 field.2 = before ++ [field] :=
      Fields.insert_last (hascending.sublist (List.Sublist.map _ (List.sublist_append_left _ _)))
    obtain ⟨after, hafter, hafterrest⟩ := ih (fun w hw => hread w (List.mem_cons_of_mem field hw))
      fuel _ hascending (by omega) hmidrest
    refine ⟨after, ?_, hafterrest⟩
    rw [hmid, hlast, hafter, ← List.append_cons]

/-- The text of fields is taken as the fields, if the text of each value is taken as the value. -/
theorem takes_readFields (hread : ∀ field ∈ fields, Reads readItem field.2)
    (hascending : Fields.Ascending fields) (rest : List UInt8) :
    Takes (readFields readItem) (Text.encode (Value.jsonFields fields) ++ [byte '\x7d']) fields
      rest := by
  intro cur hcur
  unfold readFields
  cases fields with
  | nil =>
    obtain ⟨next, hnext, hrest⟩ := nextField_close false hcur
    refine ⟨next.advance, ?_, Cursor.advance_rest hrest⟩
    rw [readFieldsFrom, hnext]
    rfl
  | cons field fields =>
    have hlength := congrArg List.length hcur
    rw [Value.jsonFields_cons, Text.encode_append] at hcur hlength
    rw [List.append_assoc, List.append_assoc] at hcur
    have hquote := encode_fieldChars field
    obtain ⟨next, hnext, hrest⟩ := nextField_first (hcur.trans (by rw [hquote, List.cons_append]))
    rw [← List.cons_append, ← hquote] at hrest
    obtain ⟨mid, hmid, hmidrest⟩ := readFieldsFrom_step cur.rest.length []
      (hread field List.mem_cons_self) (ends_laterFields fields rest) hnext hrest
    have hfuel : (laterFields fields).length < cur.rest.length := by
      unfold laterFields
      simp only [List.length_append, List.length_cons] at hlength
      omega
    obtain ⟨after, hafter, hafterrest⟩ := readFieldsFrom_later
      (fun w hw => hread w (List.mem_cons_of_mem field hw)) cur.rest.length [field] hascending hfuel
      hmidrest
    exact ⟨after, hmid.trans hafter, hafterrest⟩

theorem reads_object (hread : ∀ field ∈ fields, Reads readItem field.2)
    (hascending : Fields.Ascending fields) :
    Reads (readValueWith (some readItem)) (.object fields) := by
  intro rest _ cur hcur
  have hbytes : Text.encode (Value.object fields).jsonChars =
      byte '\x7b' :: (Text.encode (Value.jsonFields fields) ++ [byte '\x7d']) := by
    show Text.encode ('\x7b' :: (Value.jsonFields fields ++ ['\x7d'])) = _
    rw [encode_cons_of_ascii (by decide), Text.encode_append]
    rfl
  rw [hbytes, List.cons_append] at hcur
  have hskip := Cursor.skipSpace_rest_cons hcur (by decide)
  obtain ⟨after, hfields, hrest⟩ := takes_readFields hread hascending rest _
    (Cursor.advance_rest hskip)
  refine ⟨after, ?_, hrest⟩
  unfold readValueWith
  dsimp only
  rw [Cursor.peek_of_rest hskip]
  dsimp only
  rw [if_neg (by decide), if_neg (by decide), if_neg (by decide), if_neg (by decide),
    if_neg (by decide), if_neg (by decide), if_neg (by decide), if_pos rfl, hfields]
  rfl

/-! ## Documents -/

/-- The text of a value is taken as the value, if its brackets nest no deeper than they may. -/
theorem reads_readValue (limit : Nat) (hvalid : v.Valid) (hdepth : v.depth ≤ limit) :
    Reads (readValue limit) v := by
  induction limit generalizing v with
  | zero =>
    show Reads (readValueWith none) v
    cases v with
    | null => exact reads_null
    | bool truth => exact reads_bool truth
    | number n => exact reads_number n
    | string s => exact reads_string s
    | array items => exact absurd hdepth (Nat.not_succ_le_zero _)
    | object fields => exact absurd hdepth (Nat.not_succ_le_zero _)
  | succ limit ih =>
    show Reads (readValueWith (some (readValue limit))) v
    cases v with
    | null => exact reads_null
    | bool truth => exact reads_bool truth
    | number n => exact reads_number n
    | string s => exact reads_string s
    | array items =>
      have hitems := Value.depthItems_le_iff.1 (Nat.le_of_succ_le_succ hdepth)
      exact reads_array fun w hw => ih (Value.validItems_iff.1 hvalid w hw) (hitems w hw)
    | object fields =>
      have hfields := Value.depthFields_le_iff.1 (Nat.le_of_succ_le_succ hdepth)
      exact reads_object (fun field hfield => ih (Value.validFields_iff.1 hvalid.2 field hfield)
        (hfields field hfield)) hvalid.1

/-- The text of a value is a document of the value. -/
theorem readDocument_jsonChars (hvalid : v.Valid) (hdepth : v.depth ≤ depthLimit) :
    readDocument v.jsonChars = .ok v := by
  obtain ⟨after, hread, hrest⟩ := reads_readValue depthLimit hvalid hdepth [] (fun _ => stops_nil)
    (.ofText (Text.encode v.jsonChars)) (List.append_nil _).symm
  have hpeek : after.skipSpace.peek = none := by
    unfold Cursor.peek
    rw [Cursor.skipSpace_rest (hrest ▸ stops_nil), hrest]
    rfl
  unfold readDocument readWithin
  rw [hread, ok_bind]
  dsimp only
  rw [hpeek]
  rfl

/-- A text that goes on after a value with more than blanks is no document. -/
theorem readDocument_append (hvalid : v.Valid) (hdepth : v.depth ≤ depthLimit)
    (hkind : v.kind ≠ .number) {more : List Char}
    (hmore : ∃ b ∈ Text.encode more, isSpace b = false) :
    ∃ e, readDocument (v.jsonChars ++ more) = .error e := by
  obtain ⟨after, hread, hrest⟩ := reads_readValue depthLimit hvalid hdepth (Text.encode more)
    (fun h => absurd h hkind) (.ofText (Text.encode (v.jsonChars ++ more)))
    (Text.encode_append _ _)
  have hpeek : after.skipSpace.peek ≠ none := by
    unfold Cursor.peek Cursor.skipSpace
    rw [Cursor.skipRun_rest, hrest, Ne, List.head?_eq_none_iff, List.dropWhile_eq_nil_iff]
    intro hall
    obtain ⟨b, hb, hspace⟩ := hmore
    rw [hall b hb] at hspace
    cases hspace
  unfold readDocument readWithin
  rw [hread, ok_bind]
  dsimp only
  cases hnext : after.skipSpace.peek with
  | none => exact absurd hnext hpeek
  | some b => exact ⟨_, rfl⟩

end RecordFlow.Json
