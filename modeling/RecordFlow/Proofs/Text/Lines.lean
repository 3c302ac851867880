import RecordFlow.Proofs.Text.Blank
import RecordFlow.Proofs.Text.Split

/-!
# Lines of a trimmed text

Trimming a text drops the blank lines at its ends, one at the start for each line feed there, and
changes the others at their ends only (`Text.map_trim_lines_trim`).
-/

namespace RecordFlow.Text

variable {text blank : List Char}

/-- A carriage return at the end of a line is one of its blanks. -/
theorem trim_dropReturn (line : List Char) : trim (dropReturn line) = trim line := by
  unfold dropReturn
  split
  · rename_i rest hline
    have hconcat : line = rest.reverse ++ ['\r'] := by
      rw [← line.reverse_reverse, hline, List.reverse_cons]
    have hblank : Blank ['\r'] := List.forall_mem_singleton.2 rfl
    rw [hconcat, trim_append_blank hblank]
  · rfl

/-- The trimmed lines are the trimmed pieces between line feeds, but for a blank last one. -/
theorem map_trim_splitOn (text : List Char) :
    ∃ m, (splitOn '\n' text).map trim = (lines text).map trim ++ List.replicate m [] := by
  have hreturns : ∀ pieces : List (List Char),
      (pieces.map dropReturn).map trim = pieces.map trim := by
    intro pieces
    rw [List.map_map]
    exact List.map_congr_left fun piece _ => trim_dropReturn piece
  have hpieces := List.dropLast_concat_getLast (splitOn_ne_nil '\n' text)
  have hlast := List.getLast?_eq_some_getLast (splitOn_ne_nil '\n' text)
  generalize (splitOn '\n' text).getLast (splitOn_ne_nil '\n' text) = last at hpieces hlast
  unfold lines
  dsimp only
  rw [hlast]
  cases last with
  | nil =>
    refine ⟨1, ?_⟩
    dsimp only
    rw [hreturns, List.replicate_one, ← hpieces, List.map_append, List.dropLast_concat]
    rfl
  | cons c rest =>
    refine ⟨0, ?_⟩
    dsimp only
    rw [List.map_append, hreturns, List.replicate_zero, List.append_nil, ← List.map_append, hpieces]

/-- The pieces of a blank text are blank. -/
theorem map_trim_splitOn_blank (h : Blank blank) {pieces : List (List Char)}
    (hpieces : ∀ piece ∈ pieces, piece ∈ splitOn '\n' blank) :
    pieces.map trim = List.replicate pieces.length [] := by
  refine List.eq_replicate_iff.2 ⟨List.length_map _, fun piece hpiece => ?_⟩
  obtain ⟨raw, hraw, rfl⟩ := List.mem_map.1 hpiece
  exact trim_eq_nil_iff.2 fun c hc => h c (mem_of_mem_splitOn (hpieces raw hraw) hc)

/-- Blanks before a text add blank lines at its start, one for each line feed. -/
theorem map_trim_splitOn_blank_append (h : Blank blank) (text : List Char) :
    (splitOn '\n' (blank ++ text)).map trim =
      List.replicate (blank.count '\n') [] ++ (splitOn '\n' text).map trim := by
  obtain ⟨init, last, first, rest, hblank, htext, hboth⟩ := splitOn_append '\n' blank text
  have hlast : Blank last := fun c hc =>
    h c (mem_of_mem_splitOn (hblank ▸ List.mem_append_right init List.mem_cons_self) hc)
  have hlength : init.length = blank.count '\n' := by
    have hpieces := length_splitOn '\n' blank
    rw [hblank, List.length_append] at hpieces
    exact Nat.succ_injective hpieces
  rw [hboth, htext, List.map_append, List.map_cons, trim_blank_append hlast, ← hlength,
    map_trim_splitOn_blank h fun piece hpiece => hblank ▸ List.mem_append_left [last] hpiece]
  rfl

/-- Blanks after a text add blank lines at its end. -/
theorem map_trim_splitOn_append_blank (h : Blank blank) (text : List Char) :
    ∃ m, (splitOn '\n' (text ++ blank)).map trim =
      (splitOn '\n' text).map trim ++ List.replicate m [] := by
  obtain ⟨init, last, first, rest, htext, hblank, hboth⟩ := splitOn_append '\n' text blank
  have hfirst : Blank first := fun c hc =>
    h c (mem_of_mem_splitOn (hblank ▸ List.mem_cons_self) hc)
  refine ⟨rest.length, ?_⟩
  rw [hboth, htext, List.map_append, List.map_cons, trim_append_blank hfirst,
    map_trim_splitOn_blank h fun piece hpiece => hblank ▸ List.mem_cons_of_mem first hpiece]
  simp

/-- The line feeds among the blanks that a text starts with. -/
def leadingFeeds (text : List Char) : Nat := (text.takeWhile isBlank).count '\n'

/-- The lines of a trimmed text are those of the text, trimmed and without the first blank ones, up
to blank lines at the end. -/
theorem map_trim_lines_trim (text : List Char) :
    ∃ m n, (lines text).map trim ++ List.replicate m [] =
      List.replicate (leadingFeeds text) [] ++ (lines (trim text)).map trim ++
        List.replicate n [] := by
  obtain ⟨after, htext, hafter⟩ := exists_trim text
  obtain ⟨m, hm⟩ := map_trim_splitOn text
  obtain ⟨n, hn⟩ := map_trim_splitOn (trim text)
  obtain ⟨k, hk⟩ := map_trim_splitOn_append_blank hafter (text.takeWhile isBlank ++ trim text)
  refine ⟨m, n + k, ?_⟩
  rw [← hm]
  conv => lhs; rw [htext]
  rw [hk, map_trim_splitOn_blank_append (blank_takeWhile text), hn,
    ← List.replicate_append_replicate]
  simp only [List.append_assoc]
  rfl

end RecordFlow.Text
