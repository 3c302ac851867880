/-!
# Splitting text

Text is cut at a separator, at line ends, or at its last separator. Joining the pieces of
`splitOn` with the separator gives the text back.
-/

namespace RecordFlow.Text

/-- The pieces of a text between the separators: one more than there are separators. -/
def splitOn (sep : Char) : List Char → List (List Char)
  | [] => [[]]
  | c :: rest =>
    if c = sep then [] :: splitOn sep rest
    else
      match splitOn sep rest with
      | [] => [[c]]
      | piece :: pieces => (c :: piece) :: pieces

/-- The text before the last separator and the text after it, if there is one. -/
def splitLast? (sep : Char) (text : List Char) : Option (List Char × List Char) :=
  let reversed := text.reverse
  match reversed.dropWhile (· != sep) with
  | [] => none
  | _ :: before => some (before.reverse, (reversed.takeWhile (· != sep)).reverse)

/-- A line without the carriage return that it may end in. -/
def dropReturn (line : List Char) : List Char :=
  match line.reverse with
  | '\r' :: rest => rest.reverse
  | _ => line

/-- The lines of a text, which end at a line feed or at a carriage return and a line feed. A text
that ends in a line feed has no further line after it, and a carriage return that no line feed
follows belongs to its line. -/
def lines (text : List Char) : List (List Char) :=
  let pieces := splitOn '\n' text
  let ended := pieces.dropLast.map dropReturn
  match pieces.getLast? with
  | some (c :: rest) => ended ++ [c :: rest]
  | _ => ended

end RecordFlow.Text
