import Mathlib.Data.List.TakeWhile
import RecordFlow.Text.Split

/-!
# Split text

What cutting a text at a separator does to its parts (`Text.splitOn_append_cons`), and where it is
cut at its last separator (`Text.splitLast?_append_cons`).
-/

namespace RecordFlow.Text

variable {sep : Char} {text before after : List Char}

/-! ## All separators -/

theorem splitOn_eq (sep : Char) (text : List Char) : splitOn sep text = text.splitOn sep := by
  unfold List.splitOn
  induction text with
  | nil => rfl
  | cons c text ih =>
    rw [splitOn, List.splitOnP_cons_eq_if_modifyHead, ih]
    simp only [beq_iff_eq]
    split_ifs
    · rfl
    · cases hpieces : List.splitOnP (· == sep) text with
      | nil => exact absurd hpieces (List.splitOnP_ne_nil _ text)
      | cons piece pieces => rfl

theorem splitOn_ne_nil (sep : Char) (text : List Char) : splitOn sep text ≠ [] := by
  rw [splitOn_eq]
  exact List.splitOn_ne_nil sep text

theorem splitOn_of_not_mem (h : sep ∉ text) : splitOn sep text = [text] := by
  rw [splitOn_eq]
  exact List.splitOn_eq_singleton h

/-- A text with a separator is cut into the pieces of what is before and after it. -/
theorem splitOn_append_cons (sep : Char) (before after : List Char) :
    splitOn sep (before ++ sep :: after) = splitOn sep before ++ splitOn sep after := by
  simp only [splitOn_eq]
  exact List.splitOnP_append_cons before after (beq_self_eq_true sep)

/-- Where two texts meet, the last piece of the one and the first of the other become one piece. -/
theorem splitOn_append (sep : Char) (before after : List Char) :
    ∃ init last first rest, splitOn sep before = init ++ [last] ∧ splitOn sep after = first :: rest ∧
      splitOn sep (before ++ after) = init ++ (last ++ first) :: rest := by
  obtain ⟨first, rest, hafter⟩ := List.exists_cons_of_ne_nil (splitOn_ne_nil sep after)
  induction before with
  | nil => exact ⟨[], [], first, rest, rfl, hafter, hafter⟩
  | cons c before ih =>
    obtain ⟨init, last, _, _, hbefore, hother, hboth⟩ := ih
    cases hafter.symm.trans hother
    by_cases hc : c = sep
    · refine ⟨[] :: init, last, first, rest, ?_, hafter, ?_⟩
      · rw [splitOn, if_pos hc, hbefore, List.cons_append]
      · rw [List.cons_append, splitOn, if_pos hc, hboth, List.cons_append]
    · rw [List.cons_append, splitOn, splitOn, if_neg hc, if_neg hc, hbefore, hboth]
      cases init with
      | nil => exact ⟨[], c :: last, first, rest, rfl, hafter, rfl⟩
      | cons piece init => exact ⟨(c :: piece) :: init, last, first, rest, rfl, hafter, rfl⟩

theorem length_splitOn (sep : Char) (text : List Char) :
    (splitOn sep text).length = text.count sep + 1 := by
  induction text with
  | nil => rfl
  | cons c text ih =>
    rw [splitOn]
    split_ifs with hc
    · rw [List.length_cons, ih, hc, List.count_cons_self]
    · rw [List.count_cons_of_ne hc, ← ih]
      cases hpieces : splitOn sep text with
      | nil => exact absurd hpieces (splitOn_ne_nil sep text)
      | cons piece pieces => rfl

/-- The pieces hold nothing but characters of the text. -/
theorem mem_of_mem_splitOn {piece : List Char} {c : Char} (hpiece : piece ∈ splitOn sep text)
    (hc : c ∈ piece) : c ∈ text := by
  induction text generalizing piece with
  | nil =>
    cases List.mem_singleton.1 hpiece
    cases hc
  | cons d text ih =>
    rw [splitOn] at hpiece
    split_ifs at hpiece with hd
    · rcases List.mem_cons.1 hpiece with rfl | hpiece
      · cases hc
      · exact List.mem_cons_of_mem d (ih hpiece hc)
    · cases hpieces : splitOn sep text with
      | nil => exact absurd hpieces (splitOn_ne_nil sep text)
      | cons first pieces =>
        rw [hpieces] at hpiece ih
        rcases List.mem_cons.1 hpiece with rfl | hpiece
        · rcases List.mem_cons.1 hc with rfl | hc
          · exact List.mem_cons_self
          · exact List.mem_cons_of_mem d (ih List.mem_cons_self hc)
        · exact List.mem_cons_of_mem d (ih (List.mem_cons_of_mem first hpiece) hc)

/-! ## The last separator -/

theorem exists_last (h : sep ∈ text) :
    ∃ before after, text = before ++ sep :: after ∧ sep ∉ after := by
  obtain ⟨after, before, hreverse, hafter⟩ := List.eq_append_cons_of_mem (List.mem_reverse.2 h)
  refine ⟨before.reverse, after.reverse, ?_, fun hmem => hafter (List.mem_reverse.1 hmem)⟩
  rw [← text.reverse_reverse, hreverse]
  simp

theorem splitLast?_of_not_mem (h : sep ∉ text) : splitLast? sep text = none := by
  have hdrop : text.reverse.dropWhile (· != sep) = [] := by
    rw [List.dropWhile_eq_nil_iff]
    intro c hc
    simpa using fun heq : c = sep => h (heq ▸ List.mem_reverse.1 hc)
  unfold splitLast?
  dsimp only
  rw [hdrop]

/-- A text is cut at the separator that no other follows. -/
theorem splitLast?_append_cons (h : sep ∉ after) :
    splitLast? sep (before ++ sep :: after) = some (before, after) := by
  have hpass : ∀ c ∈ after.reverse, (c != sep) = true := by
    intro c hc
    simpa using fun heq : c = sep => h (heq ▸ List.mem_reverse.1 hc)
  have hreverse : (before ++ sep :: after).reverse = after.reverse ++ sep :: before.reverse := by
    simp
  unfold splitLast?
  dsimp only
  rw [hreverse, List.dropWhile_append_of_pos hpass, List.takeWhile_append_of_pos hpass]
  simp

end RecordFlow.Text
