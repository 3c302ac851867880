import RecordFlow.Proofs.Text.Blank

/-!
# Words of a text

A text renders a list of words if it is made of them, with blanks around them and at least one blank
between two of them (`Text.Renders`). Cutting a text at its blanks gives the only words that it
renders (`Text.words_eq_iff`).
-/

namespace RecordFlow.Text

/-- A word is not empty and holds no blank. -/
def IsWord (word : List Char) : Prop := word ≠ [] ∧ ∀ c ∈ word, isBlank c = false

/-- The text is made of the words in their order and of blanks, one at least between two words. -/
inductive Renders : List (List Char) → List Char → Prop where
  | blank {text : List Char} (h : Blank text) : Renders [] text
  | last {before word : List Char} (hbefore : Blank before) (hword : IsWord word) :
    Renders [word] (before ++ word)
  | word {before word rest : List Char} {c : Char} {words : List (List Char)}
    (hbefore : Blank before) (hword : IsWord word) (hc : isBlank c = true)
    (hrest : Renders words rest) : Renders (word :: words) (before ++ word ++ c :: rest)

variable {text word more rest blank : List Char} {c : Char} {ws : List (List Char)}

/-! ## Cutting -/

theorem wordsFrom_nil_cons (h : isBlank c = true) :
    wordsFrom [] (c :: rest) = wordsFrom [] rest := by
  rw [wordsFrom, if_pos h, if_pos rfl]

theorem wordsFrom_cons_blank (hne : word ≠ []) (h : isBlank c = true) :
    wordsFrom word (c :: rest) = word :: wordsFrom [] rest := by
  rw [wordsFrom, if_pos h, if_neg hne]

theorem wordsFrom_cons (h : isBlank c = false) :
    wordsFrom word (c :: rest) = wordsFrom (word ++ [c]) rest := by
  rw [wordsFrom, if_neg (by simp [h])]

/-- Blanks before a text do not matter. -/
theorem words_blank_append (h : Blank blank) : words (blank ++ text) = words text := by
  induction blank with
  | nil => rfl
  | cons c blank ih =>
    obtain ⟨hc, hblank⟩ := List.forall_mem_cons.1 h
    exact (wordsFrom_nil_cons hc).trans (ih hblank)

/-- Characters that are not blank go on with the word begun. -/
theorem wordsFrom_append (h : ∀ c ∈ more, isBlank c = false) :
    wordsFrom word (more ++ rest) = wordsFrom (word ++ more) rest := by
  induction more generalizing word with
  | nil => rw [List.nil_append, List.append_nil]
  | cons c more ih =>
    obtain ⟨hc, hmore⟩ := List.forall_mem_cons.1 h
    rw [List.cons_append, wordsFrom_cons hc, ih hmore, ← List.append_cons]

theorem words_of_isWord (h : IsWord word) : words word = [word] := by
  have happend : wordsFrom [] (word ++ []) = wordsFrom ([] ++ word) [] := wordsFrom_append h.2
  rw [List.append_nil, List.nil_append] at happend
  exact happend.trans (if_neg h.1)

theorem words_append_blank (h : IsWord word) (hc : isBlank c = true) :
    words (word ++ c :: rest) = word :: words rest :=
  (wordsFrom_append h.2).trans (wordsFrom_cons_blank h.1 hc)

/-! ## The words that a text renders -/

theorem Renders.blank_cons (hc : isBlank c = true) (h : Renders ws text) :
    Renders ws (c :: text) := by
  cases h with
  | blank h => exact .blank (List.forall_mem_cons.2 ⟨hc, h⟩)
  | last hbefore hword => exact .last (List.forall_mem_cons.2 ⟨hc, hbefore⟩) hword
  | word hbefore hword hd hrest =>
    exact .word (List.forall_mem_cons.2 ⟨hc, hbefore⟩) hword hd hrest

/-- The words of a text, after a word begun, are rendered by the text after that word. -/
theorem renders_wordsFrom (h : ∀ c ∈ word, isBlank c = false) :
    Renders (wordsFrom word text) (word ++ text) := by
  induction text generalizing word with
  | nil =>
    rw [List.append_nil, wordsFrom]
    split_ifs with hnil
    · exact .blank (hnil ▸ blank_nil)
    · have hlast : Renders [word] ([] ++ word) := .last blank_nil ⟨hnil, h⟩
      exact hlast
  | cons c rest ih =>
    cases hc : isBlank c with
    | true =>
      have hrest : Renders (wordsFrom [] rest) rest := ih (List.forall_mem_nil _)
      by_cases hnil : word = []
      · subst hnil
        rw [wordsFrom_nil_cons hc]
        exact hrest.blank_cons hc
      · rw [wordsFrom_cons_blank hnil hc]
        have hword : Renders (word :: wordsFrom [] rest) ([] ++ word ++ c :: rest) :=
          .word blank_nil ⟨hnil, h⟩ hc hrest
        exact hword
    | false =>
      rw [wordsFrom_cons hc, List.append_cons word c rest]
      exact ih (List.forall_mem_append.2 ⟨h, List.forall_mem_singleton.2 hc⟩)

/-- The words that a text is cut into are the only ones that it renders. -/
theorem words_eq_iff : words text = ws ↔ Renders ws text := by
  constructor
  · rintro rfl
    have hwords : Renders (wordsFrom [] text) ([] ++ text) :=
      renders_wordsFrom (List.forall_mem_nil _)
    exact hwords
  · intro h
    induction h with
    | @blank text h =>
      rw [← List.append_nil text, words_blank_append h]
      rfl
    | last hbefore hword => rw [words_blank_append hbefore, words_of_isWord hword]
    | word hbefore hword hc _ ih =>
      rw [List.append_assoc, words_blank_append hbefore, words_append_blank hword hc, ih]

end RecordFlow.Text
