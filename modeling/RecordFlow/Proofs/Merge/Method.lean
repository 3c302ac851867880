import RecordFlow.Merge.Method
import RecordFlow.Proofs.Attempts
import RecordFlow.Proofs.Text.Words

/-!
# The grammar of merge methods

A text names a merge method exactly if it renders two keywords, the second of them not `stack`, and
else the first reason against it is reported (`Method.Refuses`): the number of the words, the first
word that is no keyword, the stacking of unmatched rows. The text of a method names it
(`Method.parse_of_grammar`).
-/

namespace RecordFlow.Merge

/-! ## Keywords -/

namespace Token

/-- The keywords of the grammar. -/
def keywords : List String := ["both", "thob", "left", "right", "null", "stack"]

variable {t : Token} {word : String} {e : Error}

theorem mem_keywords_iff : word ∈ keywords ↔ ∃ t : Token, word = t.name := by
  constructor
  · intro h
    have hall : ∀ w ∈ keywords, ∃ t ∈ all, w = t.name := by decide
    obtain ⟨t, -, ht⟩ := hall word h
    exact ⟨t, ht⟩
  · rintro ⟨t, rfl⟩
    cases t <;> decide

theorem name_injective : Function.Injective name := by
  intro t u h
  cases t <;> cases u <;> first | rfl | exact absurd h (by decide)

theorem ofName?_name (t : Token) : ofName? t.name = some t := by
  cases t <;> rfl

theorem parse_name (t : Token) : parse t.name = .ok t := by
  unfold parse
  rw [ofName?_name]

theorem parse_of_not_mem (h : word ∉ keywords) :
    parse word = .error (.unknownMergeKeyword word) := by
  have hnone : ofName? word = none := by
    refine List.find?_eq_none.2 fun t _ ht => h (mem_keywords_iff.2 ⟨t, ?_⟩)
    exact (beq_iff_eq.1 ht).symm
  unfold parse
  rw [hnone]

theorem isWord_name (t : Token) : Text.IsWord t.name.toList := by
  have hnone : t.name.toList.all (fun c => !Text.isBlank c) = true := by cases t <;> rfl
  refine ⟨by cases t <;> decide, fun c hc => ?_⟩
  have hc' : (!Text.isBlank c) = true := List.all_eq_true.1 hnone c hc
  rwa [Bool.not_eq_true'] at hc'

end Token

namespace Method

open Token (keywords)

/-! ## Words of a text -/

/-- The words of a text, as texts. -/
def wordsOf (text : String) : List String := (Text.words text.toList).map String.ofList

variable {text a b : String} {words : List String} {m : Method} {e : Error}

theorem renders_iff :
    Text.Renders (words.map String.toList) text.toList ↔ words = wordsOf text := by
  have hback : (words.map String.toList).map String.ofList = words := by
    rw [List.map_map]
    exact List.map_id'' (fun _ => String.ofList_toList) words
  have hforth : (wordsOf text).map String.toList = Text.words text.toList := by
    unfold wordsOf
    rw [List.map_map]
    exact List.map_id'' (fun _ => String.toList_ofList) _
  rw [← Text.words_eq_iff]
  constructor
  · intro h
    unfold wordsOf
    rw [h, hback]
  · rintro rfl
    exact hforth.symm

/-- The text of a method is its two keywords. -/
theorem wordsOf_text (m : Method) : wordsOf m.text = [m.onMatched.name, m.onUnmatched.name] := by
  refine (renders_iff.1 ?_).symm
  have htext : m.text.toList =
      [] ++ m.onMatched.name.toList ++ ' ' :: ([] ++ m.onUnmatched.name.toList) := by
    unfold text
    rw [String.toList_append, String.toList_append, List.append_assoc]
    rfl
  rw [htext]
  exact .word Text.blank_nil m.onMatched.isWord_name rfl
    (.last Text.blank_nil m.onUnmatched.isWord_name)

/-! ## Reading words -/

theorem parse_of_two (h : wordsOf text = [a, b]) :
    parse text = (do
      let onMatched ← Token.parse a
      let onUnmatched ← Token.parse b
      ofTokens onMatched onUnmatched) := by
  obtain ⟨w, v, hwords, rfl, rfl⟩ : ∃ w v, Text.words text.toList = [w, v] ∧
      String.ofList w = a ∧ String.ofList v = b := by
    unfold wordsOf at h
    match hwords : Text.words text.toList, h with
    | [w, v], h =>
      rw [List.map_cons, List.map_cons, List.map_nil] at h
      cases h
      exact ⟨w, v, rfl, rfl, rfl⟩
  unfold parse
  rw [hwords]

theorem parse_of_length (h : (wordsOf text).length ≠ 2) :
    parse text = .error (.malformedMergeMethod text) := by
  unfold wordsOf at h
  rw [List.length_map] at h
  unfold parse
  match hwords : Text.words text.toList, h with
  | [w, v], h => exact absurd rfl h
  | [], _ => rfl
  | [w], _ => rfl
  | w :: v :: u :: rest, _ => rfl

theorem ofTokens_eq_ok_iff {onMatched onUnmatched : Token} :
    ofTokens onMatched onUnmatched = .ok m ↔
      m.onMatched = onMatched ∧ m.onUnmatched = onUnmatched := by
  unfold ofTokens
  split_ifs with h
  · constructor
    · rintro ⟨⟩
      exact ⟨rfl, rfl⟩
    · rintro ⟨rfl, rfl⟩
      rfl
  · refine iff_of_false nofun ?_
    rintro ⟨-, rfl⟩
    exact h m.onUnmatched_ne_stack

/-! ## The grammar -/

/-- Why words name no method: there are not two of them, or the first that is no keyword, or that
unmatched rows cannot be stacked. -/
inductive Refuses (text : String) : List String → Error → Prop where
  | count {words : List String} (h : words.length ≠ 2) :
    Refuses text words (.malformedMergeMethod text)
  | matched {a b : String} (h : a ∉ keywords) : Refuses text [a, b] (.unknownMergeKeyword a)
  | unmatched {a b : String} (ha : a ∈ keywords) (h : b ∉ keywords) :
    Refuses text [a, b] (.unknownMergeKeyword b)
  | stack {a : String} (ha : a ∈ keywords) : Refuses text [a, "stack"] .stackOnUnmatched

theorem parse_of_refuses (h : Refuses text (wordsOf text) e) : parse text = .error e := by
  generalize hwords : wordsOf text = words at h
  cases h with
  | count h => exact parse_of_length (hwords ▸ h)
  | matched h =>
    rw [parse_of_two hwords, Token.parse_of_not_mem h]
    rfl
  | unmatched ha h =>
    obtain ⟨t, rfl⟩ := Token.mem_keywords_iff.1 ha
    rw [parse_of_two hwords, Token.parse_name, Token.parse_of_not_mem h]
    rfl
  | stack ha =>
    obtain ⟨t, rfl⟩ := Token.mem_keywords_iff.1 ha
    rw [parse_of_two hwords, Token.parse_name]
    rfl

theorem parse_of_keywords (h : wordsOf text = [m.onMatched.name, m.onUnmatched.name]) :
    parse text = .ok m := by
  rw [parse_of_two h, Token.parse_name, Token.parse_name]
  exact ofTokens_eq_ok_iff.2 ⟨rfl, rfl⟩

/-- Every list of words is that of a method, or there is a reason why it is none. -/
theorem keywords_or_refuses (text : String) (words : List String) :
    (∃ m : Method, words = [m.onMatched.name, m.onUnmatched.name]) ∨ ∃ e, Refuses text words e := by
  by_cases hlength : words.length = 2
  · obtain ⟨a, b, rfl⟩ := List.length_eq_two.1 hlength
    by_cases ha : a ∈ keywords
    · by_cases hb : b ∈ keywords
      · obtain ⟨t, rfl⟩ := Token.mem_keywords_iff.1 ha
        obtain ⟨u, rfl⟩ := Token.mem_keywords_iff.1 hb
        by_cases hstack : u = .stack
        · subst hstack
          exact .inr ⟨_, .stack ha⟩
        · exact .inl ⟨⟨t, u, hstack⟩, rfl⟩
      · exact .inr ⟨_, .unmatched ha hb⟩
    · exact .inr ⟨_, .matched ha⟩
  · exact .inr ⟨_, .count hlength⟩

theorem parse_eq_ok_iff :
    parse text = .ok m ↔ wordsOf text = [m.onMatched.name, m.onUnmatched.name] := by
  refine ⟨fun h => ?_, parse_of_keywords⟩
  rcases keywords_or_refuses text (wordsOf text) with ⟨n, hn⟩ | ⟨e, he⟩
  · cases h.symm.trans (parse_of_keywords hn)
    exact hn
  · cases h.symm.trans (parse_of_refuses he)

theorem parse_eq_error_iff : parse text = .error e ↔ Refuses text (wordsOf text) e := by
  refine ⟨fun h => ?_, parse_of_refuses⟩
  rcases keywords_or_refuses text (wordsOf text) with ⟨n, hn⟩ | ⟨e', he⟩
  · cases h.symm.trans (parse_of_keywords hn)
  · cases h.symm.trans (parse_of_refuses he)
    exact he

/-- **The grammar of merge methods.** A text renders one list of words, with blanks of any kind and
number around them. It names a method exactly if these are two keywords of which the second is not
`stack`, and the method is the one of these keywords; its text is the two with a space between them,
and names it again. Any other text is refused with the first reason against its words. -/
theorem parse_of_grammar (text : String) :
    ∃ words : List String,
      (∀ others : List String,
        Text.Renders (others.map String.toList) text.toList ↔ others = words) ∧
      ((∃ m, parse text = .ok m) ↔
        ∃ a b, words = [a, b] ∧ a ∈ keywords ∧ b ∈ keywords ∧ b ≠ "stack") ∧
      (∀ m, parse text = .ok m ↔ words = [m.onMatched.name, m.onUnmatched.name]) ∧
      (∀ m : Method, m.text = m.onMatched.name ++ " " ++ m.onUnmatched.name ∧
        parse m.text = .ok m) ∧
      ∀ e, parse text = .error e ↔ Refuses text words e := by
  refine ⟨wordsOf text, fun _ => renders_iff, ?_, fun m => parse_eq_ok_iff,
    fun m => ⟨rfl, parse_of_keywords (wordsOf_text m)⟩, fun e => parse_eq_error_iff⟩
  simp only [parse_eq_ok_iff]
  constructor
  · rintro ⟨m, hm⟩
    refine ⟨_, _, hm, Token.mem_keywords_iff.2 ⟨_, rfl⟩, Token.mem_keywords_iff.2 ⟨_, rfl⟩, ?_⟩
    exact fun hstack => m.onUnmatched_ne_stack (Token.name_injective hstack)
  · rintro ⟨a, b, hwords, ha, hb, hstack⟩
    obtain ⟨t, rfl⟩ := Token.mem_keywords_iff.1 ha
    obtain ⟨u, rfl⟩ := Token.mem_keywords_iff.1 hb
    exact ⟨⟨t, u, fun hu => hstack (congrArg Token.name hu)⟩, hwords⟩

/-- Any blanks stand around keywords, and the text of the method has one space. -/
example : (parse "\u3000stack\n\tboth ").map Method.text = .ok "stack both" := by rfl

end Method

end RecordFlow.Merge
