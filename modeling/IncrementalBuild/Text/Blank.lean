/-!
# White space, lines and words

The characters with the property *White_Space*, and what the build reads by
them: trimmed texts, the lines of a text and the words of a line.
-/

namespace IncrementalBuild.Text

/-- **The characters with the property White_Space.** -/
def isBlank (c : Char) : Bool :=
  let n := c.toNat
  (9 ≤ n && n ≤ 13) || n == 0x20 || n == 0x85 || n == 0xA0 || n == 0x1680
    || (0x2000 ≤ n && n ≤ 0x200A) || n == 0x2028 || n == 0x2029 || n == 0x202F
    || n == 0x205F || n == 0x3000

/-- Drops the blanks at the end. -/
def trimEndChars (cs : List Char) : List Char := (cs.reverse.dropWhile isBlank).reverse

/-- Drops the blanks at both ends. -/
def trimChars (cs : List Char) : List Char := trimEndChars (cs.dropWhile isBlank)

/-- A text without the blanks at both ends. -/
def trim (s : String) : String := String.ofList (trimChars s.toList)

/-- A text without the blanks at its end. -/
def trimEnd (s : String) : String := String.ofList (trimEndChars s.toList)

/-- Cuts characters into lines, each with its line feed taken off and, if it
had one, a carriage return before it. A line feed at the very end opens no
further line. The first argument holds the current line in reverse. -/
def linesAfter (current : List Char) : List Char → List (List Char)
  | [] => if current.isEmpty then [] else [current.reverse]
  | c :: rest =>
    if c = '\n' then
      (match current with
        | '\r' :: line => line.reverse
        | line => line.reverse) :: linesAfter [] rest
    else linesAfter (c :: current) rest

/-- The lines of a text. -/
def lines (s : String) : List String := (linesAfter [] s.toList).map String.ofList

/-- Cuts characters into the runs between blanks. The first argument holds the
current run in reverse. -/
def wordsAfter (current : List Char) : List Char → List (List Char)
  | [] => if current.isEmpty then [] else [current.reverse]
  | c :: rest =>
    if isBlank c then
      if current.isEmpty then wordsAfter [] rest
      else current.reverse :: wordsAfter [] rest
    else wordsAfter (c :: current) rest

/-- The runs of characters between blanks. -/
def words (s : String) : List String := (wordsAfter [] s.toList).map String.ofList

end IncrementalBuild.Text
