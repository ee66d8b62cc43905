import IncrementalBuild.Text.Quoted

/-!
# JSON values

The values of the JSON format, close to how they are written: a number is its
literal, an object the list of its fields in the order and number in which
they stand, and a string whose escapes name half of a surrogate pair is well
formed but has no text.

Values are printed with two spaces of indentation for each level, one element
or field to a line, and an empty list or object on one line.
-/

namespace IncrementalBuild.Json

/-- The text of a string literal, where it has one. -/
abbrev Text? := Option String

/-- A JSON value. -/
inductive Value where
  | null
  | bool (value : Bool)
  | number (literal : String)
  | string (text : Text?)
  | array (items : List Value)
  | object (fields : List (Text? × Value))
  deriving Inhabited

/-- The value of a text. -/
def Value.ofText (s : String) : Value := .string (some s)

/-- The list of some values. -/
def Value.ofTexts (l : List String) : Value := .array (l.map .ofText)

/-- An object of fields with texts as names. -/
def Value.ofFields (l : List (String × Value)) : Value :=
  .object (l.map fun f => (some f.1, f.2))

/-- A text or nothing. -/
def Value.ofText? : Option String → Value
  | some s => .ofText s
  | none => .null

/-! ## Printing -/

/-- A character inside a string literal. -/
def escape (c : Char) : String :=
  if c = '"' then "\\\""
  else if c = '\\' then "\\\\"
  else if c = '\n' then "\\n"
  else if c = '\r' then "\\r"
  else if c = '\t' then "\\t"
  else if c.toNat = 8 then "\\b"
  else if c.toNat = 12 then "\\f"
  else if c.toNat < 16 then "\\u000" ++ Text.hexText c.toNat
  else if c.toNat < 32 then "\\u00" ++ Text.hexText c.toNat
  else String.singleton c

/-- A string literal. -/
def literal : Text? → String
  | some s => "\"" ++ String.join (s.toList.map escape) ++ "\""
  | none => "\"\\ud800\""

/-- A line feed and the indentation of a level. -/
def newLine (level : Nat) : String :=
  "\n" ++ String.ofList (List.replicate (2 * level) ' ')

mutual

/-- A value as it is printed at a level. -/
def Value.printAt (level : Nat) : Value → String
  | .null => "null"
  | .bool true => "true"
  | .bool false => "false"
  | .number literal => literal
  | .string text => literal text
  | .array [] => "[]"
  | .array (v :: rest) =>
    "[" ++ newLine (level + 1) ++ v.printAt (level + 1) ++ printItems (level + 1) rest
      ++ newLine level ++ "]"
  | .object [] => "\x7b\x7d"
  | .object ((name, v) :: rest) =>
    "\x7b" ++ newLine (level + 1) ++ literal name ++ ": " ++ v.printAt (level + 1)
      ++ printFields (level + 1) rest ++ newLine level ++ "\x7d"

/-- The elements of a list after the first. -/
def printItems (level : Nat) : List Value → String
  | [] => ""
  | v :: rest => "," ++ newLine level ++ v.printAt level ++ printItems level rest

/-- The fields of an object after the first. -/
def printFields (level : Nat) : List (Text? × Value) → String
  | [] => ""
  | (name, v) :: rest =>
    "," ++ newLine level ++ literal name ++ ": " ++ v.printAt level ++ printFields level rest

end

/-- **A value as it is printed.** -/
def Value.print (v : Value) : String := v.printAt 0

end IncrementalBuild.Json
