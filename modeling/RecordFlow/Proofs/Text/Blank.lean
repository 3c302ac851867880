import Mathlib.Data.List.TakeWhile
import RecordFlow.Text.Blank

/-!
# Trimmed text

Trimming takes blanks from the ends of a text and nothing else (`Text.exists_trim`), so blanks put
before or after a text do not matter (`Text.trim_blank_append`, `Text.trim_append_blank`).
-/

namespace RecordFlow.Text

/-- Every character of the text is blank. -/
def Blank (text : List Char) : Prop := ∀ c ∈ text, isBlank c = true

instance (text : List Char) : Decidable (Blank text) :=
  List.decidableBAll (isBlank · = true) text

variable {text blank rest : List Char} {c : Char}

theorem blank_nil : Blank [] := List.forall_mem_nil _

theorem blank_append_iff : Blank (text ++ rest) ↔ Blank text ∧ Blank rest :=
  List.forall_mem_append

theorem exists_of_not_blank (h : ¬ Blank text) : ∃ c ∈ text, isBlank c = false := by
  simpa [Blank] using h

/-! ## The two ends -/

theorem trimStart_eq_nil_iff : trimStart text = [] ↔ Blank text := List.dropWhile_eq_nil_iff

theorem trimEnd_eq_nil_iff : trimEnd text = [] ↔ Blank text := by
  unfold trimEnd Blank
  rw [List.reverse_eq_nil_iff, List.dropWhile_eq_nil_iff]
  simp only [List.mem_reverse]

theorem trimStart_blank_append (h : Blank blank) : trimStart (blank ++ text) = trimStart text :=
  List.dropWhile_append_of_pos h

theorem trimEnd_append_blank (h : Blank blank) : trimEnd (text ++ blank) = trimEnd text := by
  unfold trimEnd
  rw [List.reverse_append, List.dropWhile_append_of_pos]
  exact fun c hc => h c (List.mem_reverse.1 hc)

/-- Past a character that is not blank, nothing is trimmed at the start. -/
theorem trimStart_append (h : ¬ Blank text) :
    trimStart (text ++ rest) = trimStart text ++ rest := by
  have hne : trimStart text ≠ [] := fun hnil => h (trimStart_eq_nil_iff.1 hnil)
  unfold trimStart at hne ⊢
  rw [List.dropWhile_append, if_neg (by simpa using hne)]

theorem trimEnd_append (h : ¬ Blank rest) : trimEnd (text ++ rest) = text ++ trimEnd rest := by
  have hne : rest.reverse.dropWhile isBlank ≠ [] := by
    intro hnil
    refine h (trimEnd_eq_nil_iff.1 ?_)
    unfold trimEnd
    rw [hnil]
    rfl
  unfold trimEnd
  rw [List.reverse_append, List.dropWhile_append, if_neg (by simpa using hne), List.reverse_append,
    List.reverse_reverse]

theorem trimStart_cons (h : isBlank c = false) : trimStart (c :: rest) = c :: rest :=
  List.dropWhile_cons_of_neg (by simp [h])

theorem trimEnd_concat (h : isBlank c = false) : trimEnd (text ++ [c]) = text ++ [c] := by
  have hblank : ¬ Blank [c] := fun hall => by simpa [h] using hall c List.mem_cons_self
  rw [trimEnd_append hblank]
  unfold trimEnd
  simp [h]

/-- A character that is not blank is not trimmed. -/
theorem mem_trimEnd (hc : c ∈ text) (hblank : isBlank c = false) : c ∈ trimEnd text := by
  have hparts : text.reverse.takeWhile isBlank ++ text.reverse.dropWhile isBlank = text.reverse :=
    List.takeWhile_append_dropWhile
  rw [← List.mem_reverse, ← hparts, List.mem_append] at hc
  unfold trimEnd
  rw [List.mem_reverse]
  refine hc.resolve_left fun htake => ?_
  rw [List.mem_takeWhile_imp htake] at hblank
  cases hblank

/-! ## Both ends -/

theorem blank_takeWhile (text : List Char) : Blank (text.takeWhile isBlank) :=
  fun _ => List.mem_takeWhile_imp

theorem trim_eq_nil_iff : trim text = [] ↔ Blank text := by
  unfold trim
  rw [trimEnd_eq_nil_iff]
  constructor
  · intro h
    have hparts : text.takeWhile isBlank ++ trimStart text = text := List.takeWhile_append_dropWhile
    rw [← hparts]
    exact blank_append_iff.2 ⟨blank_takeWhile text, h⟩
  · intro h
    rw [trimStart_eq_nil_iff.2 h]
    exact blank_nil

theorem trim_blank_append (h : Blank blank) : trim (blank ++ text) = trim text := by
  unfold trim
  rw [trimStart_blank_append h]

theorem trim_append_blank (h : Blank blank) : trim (text ++ blank) = trim text := by
  by_cases htext : Blank text
  · rw [trim_eq_nil_iff.2 htext, trim_eq_nil_iff.2 (blank_append_iff.2 ⟨htext, h⟩)]
  · unfold trim
    rw [trimStart_append htext, trimEnd_append_blank h]

/-- A text is what is left of it when trimmed, between blanks. -/
theorem exists_trim (text : List Char) :
    ∃ after, text = text.takeWhile isBlank ++ trim text ++ after ∧ Blank after := by
  refine ⟨((trimStart text).reverse.takeWhile isBlank).reverse, ?_, ?_⟩
  · have hend : trimEnd (trimStart text) ++ ((trimStart text).reverse.takeWhile isBlank).reverse =
        trimStart text := by
      unfold trimEnd
      rw [← List.reverse_append, List.takeWhile_append_dropWhile, List.reverse_reverse]
    unfold trim
    rw [List.append_assoc, hend]
    exact List.takeWhile_append_dropWhile.symm
  · intro c hc
    exact List.mem_takeWhile_imp (List.mem_reverse.1 hc)

/-- A text that neither starts nor ends with a blank is as it is when trimmed. -/
theorem trim_of_ends {d : Char} (hc : isBlank c = false) (hd : isBlank d = false) :
    trim (c :: (text ++ [d])) = c :: (text ++ [d]) := by
  unfold trim
  rw [trimStart_cons hc, ← List.cons_append, trimEnd_concat hd]

end RecordFlow.Text
