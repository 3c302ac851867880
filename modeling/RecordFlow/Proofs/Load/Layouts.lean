import RecordFlow.Proofs.Json.Document
import RecordFlow.Proofs.Load.Lines
import RecordFlow.Proofs.Value.Order

/-!
# Line by line or as an array

Objects are loaded alike from a text with one of them on a line (`Load.ByLine`) and from the text of
an array of them (`Load.ofJson_byLine`). A text of one line is read as the document it is, a longer
one line by line, since a document does not go on after its first line. Of the reader and the writer
of documents no more is used than `Json.CodecLaws` says.
-/

namespace RecordFlow

/-! ## Readers and writers -/

/-- What is relied on of a reader of documents and of a writer that puts no blanks between the parts
of a value. -/
structure Json.CodecLaws (read : List Char → Except ReadError Value) (write : Value → List Char) :
    Prop where
  /-- Reading back what is written of a value gives the value. A reader may round decimals, so this
  is asked for only if it holds of each number in the value. -/
  reads_back {v : Value} (hvalid : v.Valid) (hdepth : v.depth ≤ depthLimit)
    (hnumbers : ∀ n ∈ v.numbers, read (write (.number n)) = .ok (.number n)) :
    read (write v) = .ok v
  /-- What is written is one line. -/
  feed_not_mem (v : Value) : '\n' ∉ write v
  /-- An object that more than blanks follow is no document. -/
  rejects_more {v : Value} (hobject : v.kind = .object) (hvalid : v.Valid)
    (hdepth : v.depth ≤ depthLimit) {more : List Char} (hmore : ¬ Text.Blank more) :
    ∃ e, read (write v ++ more) = .error e
  /-- Arrays stand in brackets. -/
  brackets (items : List Value) : ∃ inner, write (.array items) = '[' :: (inner ++ [']'])
  /-- Objects stand in braces. -/
  braces (fields : Fields Value) : ∃ inner, write (.object fields) = '\x7b' :: (inner ++ ['\x7d'])

/-- The laws hold of the reader and the writer of this library. -/
theorem Json.codecLaws_readDocument : CodecLaws readDocument Value.jsonChars where
  reads_back hvalid hdepth _ := readDocument_jsonChars hvalid hdepth
  feed_not_mem := Value.feed_not_mem_jsonChars
  rejects_more hobject hvalid hdepth more hmore := by
    obtain ⟨c, hc, hblank⟩ := Text.exists_of_not_blank hmore
    obtain ⟨b, hb⟩ := List.exists_mem_of_ne_nil _ (Text.encodeChar_ne_nil c)
    exact readDocument_append hvalid hdepth (by rw [hobject]; decide)
      ⟨b, List.mem_flatMap.2 ⟨c, hc, hb⟩, isSpace_of_mem_encodeChar hblank b hb⟩
  brackets items := ⟨Value.jsonItems items, rfl⟩
  braces fields := ⟨Value.jsonFields fields, rfl⟩

namespace Load

/-! ## Texts -/

/-- Blanks within a line. -/
def Spaces (text : List Char) : Prop := Text.Blank text ∧ '\n' ∉ text

instance (text : List Char) : Decidable (Spaces text) :=
  instDecidableAnd

/-- The end of a line. -/
inductive LineEnd : List Char → Prop where
  | feed : LineEnd ['\n']
  | returnFeed : LineEnd ['\r', '\n']

/-- The values stand in the text on a line each, in order, with blanks around them and blank lines
anywhere. The last line may lack its end. -/
inductive ByLine (write : Value → List Char) : List Value → List Char → Prop where
  | nothing {blank : List Char} (hblank : Spaces blank) : ByLine write [] blank
  | last {v : Value} {before after : List Char} (hbefore : Spaces before) (hafter : Spaces after) :
    ByLine write [v] (before ++ write v ++ after)
  | blank {records : List Value} {blank ending text : List Char} (hblank : Spaces blank)
    (hend : LineEnd ending) (h : ByLine write records text) :
    ByLine write records (blank ++ ending ++ text)
  | line {v : Value} {records : List Value} {before after ending text : List Char}
    (hbefore : Spaces before) (hafter : Spaces after) (hend : LineEnd ending)
    (h : ByLine write records text) :
    ByLine write (v :: records) (before ++ write v ++ after ++ ending ++ text)

variable {read : List Char → Except Json.ReadError Value} {write : Value → List Char}
variable {v : Value} {records : List Value} {text more before after ending : List Char}

/-- The end of a line is a line feed after what is left of the line. -/
theorem LineEnd.exists_spaces (h : LineEnd ending) :
    ∃ rest, ending = rest ++ ['\n'] ∧ Spaces rest := by
  cases h with
  | feed => exact ⟨[], rfl, by decide⟩
  | returnFeed => exact ⟨['\r'], rfl, by decide⟩

theorem LineEnd.blank (h : LineEnd ending) : Text.Blank ending := by
  cases h <;> decide

theorem Spaces.append (hbefore : Spaces before) (hafter : Spaces after) :
    Spaces (before ++ after) :=
  ⟨Text.blank_append_iff.2 ⟨hbefore.1, hafter.1⟩,
    fun h => (List.mem_append.1 h).elim hbefore.2 hafter.2⟩

/-! ## Objects as text -/

section Objects

variable (hlaws : Json.CodecLaws read write) (hobject : v.kind = .object)
include hlaws hobject

/-- The text of an object starts and ends with braces. -/
theorem write_of_object : ∃ inner, write v = '\x7b' :: (inner ++ ['\x7d']) := by
  cases v with
  | object fields => exact hlaws.braces fields
  | _ => cases hobject

theorem write_ne_nil_of_object : write v ≠ [] := by
  obtain ⟨inner, htext⟩ := write_of_object hlaws hobject
  rw [htext]
  exact List.cons_ne_nil _ _

theorem trim_of_object : Text.trim (write v) = write v := by
  obtain ⟨inner, htext⟩ := write_of_object hlaws hobject
  rw [htext, Text.trim_of_ends (by decide) (by decide)]

theorem not_blank_of_object : ¬ Text.Blank (write v) := by
  rw [← Text.trim_eq_nil_iff, trim_of_object hlaws hobject]
  exact write_ne_nil_of_object hlaws hobject

/-- The blanks around the text of an object are trimmed. -/
theorem trim_around (hbefore : Text.Blank before) (hafter : Text.Blank after) :
    Text.trim (before ++ write v ++ after) = write v := by
  rw [Text.trim_append_blank hafter, Text.trim_blank_append hbefore,
    trim_of_object hlaws hobject]

/-- Nothing is trimmed between the text of an object and the end of what follows. -/
theorem trim_append_of_object (hmore : ¬ Text.Blank more) :
    Text.trim (write v ++ more) = write v ++ Text.trimEnd more := by
  have hstart : Text.trimStart (write v ++ more) = write v ++ more := by
    obtain ⟨inner, htext⟩ := write_of_object hlaws hobject
    rw [htext, List.cons_append, Text.trimStart_cons (by decide)]
  unfold Text.trim
  rw [hstart, Text.trimEnd_append hmore]

/-- An object alone is read as the document that it is. -/
theorem jsonRecords_single (hread : read (write v) = .ok v) (hbefore : Text.Blank before)
    (hafter : Text.Blank after) : jsonRecords read (before ++ write v ++ after) = .ok [v] := by
  unfold jsonRecords
  dsimp only
  rw [trim_around hlaws hobject hbefore hafter,
    if_neg (write_ne_nil_of_object hlaws hobject), hread]
  cases v with
  | object fields => rfl
  | _ => cases hobject

/-- A text that goes on after an object is no document. -/
theorem exists_error_of_more (hvalid : v.Valid) (hdepth : v.depth ≤ Json.depthLimit)
    (hbefore : Text.Blank before) (hmore : ¬ Text.Blank more) :
    ∃ e, read (Text.trim (before ++ (write v ++ more))) = .error e := by
  rw [Text.trim_blank_append hbefore, trim_append_of_object hlaws hobject hmore]
  refine hlaws.rejects_more hobject hvalid hdepth fun hblank => ?_
  obtain ⟨c, hc, hc'⟩ := Text.exists_of_not_blank hmore
  rw [hblank c (Text.mem_trimEnd hc hc')] at hc'
  cases hc'

end Objects

/-! ## Lines of a text -/

/-- A text by lines is blank only if it holds no values. -/
theorem ByLine.blank_iff (h : ByLine write records text) (hlaws : Json.CodecLaws read write)
    (hobjects : ∀ v ∈ records, v.kind = .object) : Text.Blank text ↔ records = [] := by
  induction h with
  | nothing hblank => exact iff_of_true hblank.1 rfl
  | last _ _ =>
    have hobject := hobjects _ List.mem_cons_self
    refine iff_of_false (fun hblank => not_blank_of_object hlaws hobject ?_) (List.cons_ne_nil _ _)
    exact (Text.blank_append_iff.1 (Text.blank_append_iff.1 hblank).1).2
  | blank hblank hend _ ih =>
    rw [Text.blank_append_iff, ← ih hobjects]
    exact ⟨And.right, fun h => ⟨Text.blank_append_iff.2 ⟨hblank.1, hend.blank⟩, h⟩⟩
  | line _ _ _ _ _ =>
    have hobject := hobjects _ List.mem_cons_self
    refine iff_of_false (fun hblank => not_blank_of_object hlaws hobject ?_) (List.cons_ne_nil _ _)
    simp only [Text.blank_append_iff] at hblank
    exact hblank.1.1.1.2

/-- The first value of a text by lines stands after blanks, and only blanks follow the last one. -/
theorem ByLine.exists_first (h : ByLine write (v :: records) text)
    (hlaws : Json.CodecLaws read write) (hobjects : ∀ w ∈ v :: records, w.kind = .object) :
    ∃ before tail, text = before ++ (write v ++ tail) ∧ Text.Blank before ∧
      (Text.Blank tail ↔ records = []) := by
  generalize hall : v :: records = all at h
  induction h with
  | nothing _ => cases hall
  | last hbefore hafter =>
    cases hall
    refine ⟨_, _, List.append_assoc _ _ _, hbefore.1, iff_of_true hafter.1 rfl⟩
  | blank hblank hend _ ih =>
    obtain ⟨before, tail, htext, hbefore, htail⟩ := ih hall
    refine ⟨_ ++ before, tail, ?_, Text.blank_append_iff.2
      ⟨Text.blank_append_iff.2 ⟨hblank.1, hend.blank⟩, hbefore⟩, htail⟩
    rw [htext, List.append_assoc, List.append_assoc, List.append_assoc]
  | @line w _ before after ending text hbefore hafter hend hrest _ =>
    cases hall
    refine ⟨before, after ++ ending ++ text, by simp only [List.append_assoc], hbefore.1, ?_⟩
    rw [Text.blank_append_iff, Text.blank_append_iff,
      hrest.blank_iff hlaws fun w hw => hobjects w (List.mem_cons_of_mem v hw)]
    exact ⟨And.right, fun h => ⟨⟨hafter.1, hend.blank⟩, h⟩⟩

/-- The trimmed lines that are not blank are the texts of the values. -/
theorem ByLine.documents (h : ByLine write records text) (hlaws : Json.CodecLaws read write)
    (hobjects : ∀ v ∈ records, v.kind = .object) (hread : ∀ v ∈ records, read (write v) = .ok v) :
    Documents read ((Text.splitOn '\n' text).map Text.trim) records := by
  induction h with
  | nothing hblank =>
    rw [Text.splitOn_of_not_mem hblank.2, List.map_singleton, Text.trim_eq_nil_iff.2 hblank.1]
    exact List.Forall₂.nil
  | @last v before after hbefore hafter =>
    have hline : '\n' ∉ before ++ write v ++ after := by
      simp [hbefore.2, hafter.2, hlaws.feed_not_mem v]
    have hobject := hobjects v List.mem_cons_self
    rw [Text.splitOn_of_not_mem hline, List.map_singleton,
      trim_around hlaws hobject hbefore.1 hafter.1]
    exact (documents_cons (write_ne_nil_of_object hlaws hobject)).2
      ⟨v, [], hread v List.mem_cons_self, List.Forall₂.nil, rfl⟩
  | @blank records blank ending text hblank hend _ ih =>
    obtain ⟨rest, rfl, hrest⟩ := hend.exists_spaces
    have hspaces := hblank.append hrest
    rw [← List.append_assoc, List.append_assoc, List.singleton_append, Text.splitOn_append_cons,
      Text.splitOn_of_not_mem hspaces.2, List.singleton_append, List.map_cons,
      Text.trim_eq_nil_iff.2 hspaces.1, documents_nil_cons]
    exact ih hobjects hread
  | @line v records before after ending text hbefore hafter hend _ ih =>
    obtain ⟨rest, rfl, hrest⟩ := hend.exists_spaces
    have hspaces := hafter.append hrest
    have hline : '\n' ∉ before ++ write v ++ (after ++ rest) := by
      simp [hbefore.2, hafter.2, hrest.2, hlaws.feed_not_mem v]
    obtain ⟨hobject, hobjects'⟩ := List.forall_mem_cons.1 hobjects
    obtain ⟨hdocument, hread'⟩ := List.forall_mem_cons.1 hread
    rw [← List.append_assoc, List.append_assoc _ after, List.append_assoc _ _ text,
      List.singleton_append, Text.splitOn_append_cons, Text.splitOn_of_not_mem hline,
      List.singleton_append, List.map_cons, trim_around hlaws hobject hbefore.1 hspaces.1]
    exact (documents_cons (write_ne_nil_of_object hlaws hobject)).2
      ⟨v, records, hdocument, ih hobjects' hread', rfl⟩

/-! ## Loading -/

/-- What is loaded depends on the records of the text only. -/
theorem ofJson_congr (h : jsonRecords read text = jsonRecords read more) (schema : Option Schema) :
    ofJson read schema text = ofJson read schema more := by
  unfold ofJson
  rw [h]

theorem jsonRecords_array (hlaws : Json.CodecLaws read write)
    (hread : read (write (.array records)) = .ok (.array records)) :
    jsonRecords read (write (.array records)) = .ok records := by
  obtain ⟨inner, htext⟩ := hlaws.brackets records
  have htrim : Text.trim (write (.array records)) = write (.array records) := by
    rw [htext, Text.trim_of_ends (by decide) (by decide)]
  unfold jsonRecords
  dsimp only
  rw [htrim, if_neg (by rw [htext]; exact List.cons_ne_nil _ _), hread]

/-- Objects on lines are the records of the text. -/
theorem ByLine.jsonRecords (h : ByLine write records text) (hlaws : Json.CodecLaws read write)
    (hne : records ≠ []) (hobjects : ∀ v ∈ records, v.kind = .object)
    (hvalid : ∀ v ∈ records, v.Valid) (hdepth : ∀ v ∈ records, v.depth ≤ Json.depthLimit)
    (hread : ∀ v ∈ records, read (write v) = .ok v) : jsonRecords read text = .ok records := by
  cases records with
  | nil => exact absurd rfl hne
  | cons v records =>
    have hobject := hobjects v List.mem_cons_self
    obtain ⟨before, tail, htext, hbefore, htail⟩ := h.exists_first hlaws hobjects
    by_cases hsingle : records = []
    · subst hsingle
      rw [htext, ← List.append_assoc]
      exact jsonRecords_single hlaws hobject (hread v List.mem_cons_self) hbefore (htail.2 rfl)
    · have hblank : ¬ Text.Blank text := by
        rw [h.blank_iff hlaws hobjects]
        exact List.cons_ne_nil v records
      have hwhole : ∃ e, read (Text.trim text) = .error e := by
        rw [htext]
        exact exists_error_of_more hlaws hobject (hvalid v List.mem_cons_self)
          (hdepth v List.mem_cons_self) hbefore fun hrest => hsingle (htail.1 hrest)
      obtain ⟨m, hlines⟩ := Text.map_trim_splitOn text
      rw [jsonRecords_of_no_document hblank hwhole, lineRecords_eq_ok_iff, documents_trim,
        ← documents_blank_lines 0 m]
      have hdocuments := h.documents hlaws hobjects hread
      rw [hlines] at hdocuments
      exact hdocuments

/-- Objects are loaded alike from a text with one of them on a line and from the text of an array of
them, under any schema, if the reader and the writer keep to the laws and the numbers in the objects
are read back. -/
theorem ofJson_byLine (hlaws : Json.CodecLaws read write) (hne : records ≠ [])
    (hobjects : ∀ v ∈ records, v.kind = .object) (hvalid : ∀ v ∈ records, v.Valid)
    (hdepth : ∀ v ∈ records, v.depth < Json.depthLimit)
    (hnumbers : ∀ v ∈ records, ∀ n ∈ v.numbers, read (write (.number n)) = .ok (.number n))
    (h : ByLine write records text) :
    let array := write (.array records)
    (ofJson read none text).2 = .ok records ∧ (ofJson read none array).2 = .ok records ∧
      ∀ schema, ofJson read schema text = ofJson read schema array := by
  intro array
  have hread : ∀ v ∈ records, read (write v) = .ok v := fun v hv =>
    hlaws.reads_back (hvalid v hv) (hdepth v hv).le (hnumbers v hv)
  have htext := h.jsonRecords hlaws hne hobjects hvalid (fun v hv => (hdepth v hv).le) hread
  have harray : jsonRecords read array = .ok records := by
    refine jsonRecords_array hlaws (hlaws.reads_back (Value.validItems_iff.2 hvalid) ?_ ?_)
    · exact Nat.succ_le_succ (Value.depthItems_le_iff.2 fun v hv => Nat.le_of_lt_succ (hdepth v hv))
    · intro n hn
      obtain ⟨v, hv, hn⟩ := Value.mem_numbersOfItems.1 hn
      exact hnumbers v hv n hn
  rw [ofJson_none_snd, ofJson_none_snd]
  exact ⟨htext, harray, ofJson_congr (htext.trans harray.symm)⟩

/-- Two objects on lines that end in both ways, the last one in none, with blank lines and
spaces. -/
theorem ofJson_byLine_of_two_lines :
    let read := Json.readDocument
    let write := Value.jsonChars
    let first := Value.object [("a", .number (.int (-1) (by decide)))]
    let second := Value.object [("b", .array [.bool true, .string "\n"]), ("c", .null)]
    let text := "\r\n \x7b\"a\":-1\x7d\t\r\n\n\x7b\"b\":[true,\"\\n\"],\"c\":null\x7d".toList
    Json.CodecLaws read write ∧ ByLine write [first, second] text ∧
      (ofJson read none text).2 = .ok [first, second] ∧
      (ofJson read none (write (.array [first, second]))).2 = .ok [first, second] ∧
      ∀ schema, ofJson read schema text = ofJson read schema (write (.array [first, second])) := by
  intro read write first second text
  have hlaws : Json.CodecLaws read write := Json.codecLaws_readDocument
  have htext : text = [] ++ ['\r', '\n'] ++ ([' '] ++ write first ++ ['\t'] ++ ['\r', '\n'] ++
      ([] ++ ['\n'] ++ ([] ++ write second ++ []))) := by
    dsimp +zetaDelta only
    decide
  have hlines : ByLine write [first, second] text := by
    rw [htext]
    exact .blank (by decide) .returnFeed (.line (by decide) (by decide) .returnFeed
      (.blank (by decide) .feed (.last (by decide) (by decide))))
  have hobjects : ∀ v ∈ [first, second], v.kind = .object :=
    List.forall_mem_cons.2 ⟨rfl, List.forall_mem_singleton.2 rfl⟩
  have hnames : ["b", "c"].Pairwise (· < ·) := by decide
  have hvalid : ∀ v ∈ [first, second], v.Valid :=
    List.forall_mem_cons.2 ⟨⟨List.pairwise_singleton _ _, trivial, trivial⟩,
      List.forall_mem_singleton.2 ⟨hnames, ⟨trivial, trivial, trivial⟩, trivial, trivial⟩⟩
  have hdepth : ∀ v ∈ [first, second], v.depth < Json.depthLimit :=
    List.forall_mem_cons.2 ⟨show 1 < 127 by decide,
      List.forall_mem_singleton.2 (show 2 < 127 by decide)⟩
  have hnumbers : ∀ v ∈ [first, second], ∀ n ∈ v.numbers,
      read (write (.number n)) = .ok (.number n) :=
    fun _ _ n _ => Json.readDocument_jsonChars trivial (Nat.zero_le _)
  exact ⟨hlaws, hlines, ofJson_byLine hlaws (List.cons_ne_nil _ _) hobjects hvalid hdepth hnumbers
    hlines⟩

end Load

end RecordFlow
