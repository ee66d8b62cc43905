import IncrementalBuild.Text.Printable

/-!
# Quoted texts

A text as it is shown inside quotation marks: marks, backslashes and the usual
controls get a backslash, and a character that could not be seen is written as
its code point. A path inside quotation marks escapes the apostrophe too.
-/

namespace IncrementalBuild.Text

/-- A number in lower-case hexadecimal, without leading zeros. -/
def hexText (n : Nat) : String := String.ofList (Nat.toDigits 16 n)

/-- A character as it stands between quotation marks. -/
def escapeChar (c : Char) : String :=
  if c = '\x00' then "\\0"
  else if c = '\t' then "\\t"
  else if c = '\n' then "\\n"
  else if c = '\r' then "\\r"
  else if c = '"' then "\\\""
  else if c = '\\' then "\\\\"
  else if isGraphemeExtender c || !isPrintable c then
    "\\u\x7b" ++ hexText c.toNat ++ "\x7d"
  else String.singleton c

/-- **A text between quotation marks.** -/
def quoted (s : String) : String :=
  "\"" ++ String.join (s.toList.map escapeChar) ++ "\""

/-- A path between quotation marks, apostrophes escaped as well. -/
def quotedPath (s : String) : String :=
  "\"" ++ String.join (s.toList.map (fun c => if c = '\'' then "\\'" else escapeChar c))
    ++ "\""

end IncrementalBuild.Text
