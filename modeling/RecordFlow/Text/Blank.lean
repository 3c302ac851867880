/-!
# Blank characters

The characters with the Unicode property `White_Space`, and what is done with them: trimming a
text at both ends (`trim`) and cutting it into words (`words`).
-/

namespace RecordFlow.Text

/-- The characters of the Unicode property `White_Space`. -/
def isBlank (c : Char) : Bool :=
  let n := c.toNat
  (0x09 ≤ n && n ≤ 0x0D) || n == 0x20 || n == 0x85 || n == 0xA0 || n == 0x1680 ||
    (0x2000 ≤ n && n ≤ 0x200A) || n == 0x2028 || n == 0x2029 || n == 0x202F || n == 0x205F ||
    n == 0x3000

/-- The text from its first character that is not blank on. -/
def trimStart (text : List Char) : List Char := text.dropWhile isBlank

/-- The text up to its last character that is not blank. -/
def trimEnd (text : List Char) : List Char := (text.reverse.dropWhile isBlank).reverse

/-- The text without the blank characters at its ends. -/
def trim (text : List Char) : List Char := trimEnd (trimStart text)

/-- The longest runs of characters that are not blank, with a word begun already. -/
def wordsFrom (word : List Char) : List Char → List (List Char)
  | [] => if word = [] then [] else [word]
  | c :: rest =>
    if isBlank c then
      if word = [] then wordsFrom [] rest else word :: wordsFrom [] rest
    else wordsFrom (word ++ [c]) rest

/-- The longest runs of characters that are not blank, in order. -/
def words (text : List Char) : List (List Char) := wordsFrom [] text

end RecordFlow.Text
