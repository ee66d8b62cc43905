import IncrementalBuild.Toml.Scalar

/-!
# Reading TOML

A document is read line by line into statements. Lists and tables in braces
may run over several lines, with comments and a comma after the last element;
keys are bare or quoted, with dots between their parts; and strings come in
four kinds, with escapes or without, on one line or on several.
-/

namespace IncrementalBuild.Toml

/-! ## Blanks, comments and lines -/

def isSpace (c : Char) : Bool := c == ' ' || c == '\t'

/-- Whether a character may stand in a comment or, as itself, in a string. -/
def isTextChar (c : Char) : Bool := c == '\t' || (32 ≤ c.toNat && c.toNat ≠ 127)

def skipSpaces (cs : List Char) : List Char := cs.dropWhile isSpace

/-- Drops a line break in front. -/
def afterBreak? : List Char → Option (List Char)
  | '\n' :: rest => some rest
  | '\r' :: '\n' :: rest => some rest
  | _ => none

/-- Drops blanks and a comment in front. -/
def skipComment (cs : List Char) : List Char :=
  match skipSpaces cs with
  | '#' :: rest => rest.dropWhile isTextChar
  | cs => cs

/-- Passes over the end of a line, which the end of the document is as
well. -/
def endLine (cs : List Char) : Option (List Char) :=
  match skipComment cs with
  | [] => some []
  | rest => afterBreak? rest

/-- Drops blanks, comments and line breaks in front. -/
def skipLines (inComment : Bool) : List Char → Option (List Char)
  | [] => some []
  | '\n' :: rest => skipLines false rest
  | '\r' :: '\n' :: rest => skipLines false rest
  | c :: rest =>
    if inComment then if isTextChar c then skipLines true rest else none
    else if isSpace c then skipLines false rest
    else if c = '#' then skipLines true rest
    else some (c :: rest)

/-! ## Strings -/

/-- The character that a letter stands for after a backslash. -/
def simpleEscape? (c : Char) : Option Char :=
  match c with
  | '"' => some '"'
  | '\\' => some '\\'
  | 'b' => some '\x08'
  | 'e' => some '\x1b'
  | 'f' => some '\x0c'
  | 'n' => some '\n'
  | 'r' => some '\r'
  | 't' => some '\t'
  | _ => none

/-- How many hexadecimal digits a letter calls for after a backslash. -/
def codeLength? (c : Char) : Option Nat :=
  match c with
  | 'x' => some 2
  | 'u' => some 4
  | 'U' => some 8
  | _ => none

/-- The character with a number, if there is one. -/
def charOf? (n : Nat) : Option Char := if n.isValidChar then some (Char.ofNat n) else none

/-- The character that an escape stands for, after its backslash. -/
def readEscape : List Char → Option (Char × List Char)
  | [] => none
  | c :: rest =>
    match codeLength? c with
    | none => (simpleEscape? c).map (·, rest)
    | some n =>
      if rest.length < n then none
      else ((Text.number? 16 (rest.take n)).bind charOf?).map (·, rest.drop n)

/-- An escape takes characters away. -/
theorem length_le_of_readEscape {cs rest : List Char} {c : Char}
    (h : readEscape cs = some (c, rest)) : rest.length ≤ cs.length := by
  unfold readEscape at h
  split at h
  · simp at h
  · split at h
    · obtain ⟨e, _, he⟩ := Option.map_eq_some_iff.1 h
      rw [← (Prod.mk.inj he).2]
      simp
    · split at h
      · simp at h
      · obtain ⟨e, _, he⟩ := Option.map_eq_some_iff.1 h
        rw [← (Prod.mk.inj he).2, List.length_drop, List.length_cons]
        omega

/-- The rest of a string with escapes, on one line. -/
def readBasic (cs : List Char) : Option (List Char × List Char) :=
  match cs with
  | [] => none
  | c :: rest =>
    if c = '"' then some ([], rest)
    else if c = '\\' then
      match h : readEscape rest with
      | none => none
      | some (e, after) =>
        have : after.length < rest.length + 1 :=
          Nat.lt_succ_of_le (length_le_of_readEscape h)
        (readBasic after).map fun (text, rest) => (e :: text, rest)
    else if isTextChar c then (readBasic rest).map fun (text, rest) => (c :: text, rest)
    else none
  termination_by cs.length

/-- The rest of a string without escapes, on one line. -/
def readLiteral : List Char → Option (List Char × List Char)
  | [] => none
  | c :: rest =>
    if c = '\'' then some ([], rest)
    else if isTextChar c then (readLiteral rest).map fun (text, rest) => (c :: text, rest)
    else none

/-- The end of a string on several lines, in front of some marks: up to two
marks more than the three that end it belong to the string. -/
def endMarks (mark : Char) (cs : List Char) : Option (List Char × List Char) :=
  let marks := cs.takeWhile (· = mark)
  if marks.length ≤ 5 then some (marks.drop 3, cs.drop marks.length) else none

/-- Whether three marks stand in front. -/
def atMarks (mark : Char) (cs : List Char) : Bool := cs.take 3 == [mark, mark, mark]

/-- Whether a backslash is followed by nothing but the end of its line. -/
def endsLine (cs : List Char) : Bool := (afterBreak? (skipSpaces cs)).isSome

/-- The rest of a string with escapes, on several lines. A backslash at the
end of a line takes the line break with it, and all blanks and line breaks
after it. -/
def readLongBasic (dropBlanks : Bool) (cs : List Char) : Option (List Char × List Char) :=
  match cs with
  | [] => none
  | c :: rest =>
    if dropBlanks && (isSpace c || c = '\n' || (c = '\r' && rest.head? == some '\n')) then
      readLongBasic true rest
    else if atMarks '"' (c :: rest) then endMarks '"' (c :: rest)
    else if c = '\\' then
      if endsLine rest then readLongBasic true rest
      else
        match h : readEscape rest with
        | none => none
        | some (e, after) =>
          have : after.length < rest.length + 1 :=
            Nat.lt_succ_of_le (length_le_of_readEscape h)
          (readLongBasic false after).map fun (text, rest) => (e :: text, rest)
    else if isTextChar c || c = '\n' || (c = '\r' && rest.head? == some '\n') then
      (readLongBasic false rest).map fun (text, rest) => (c :: text, rest)
    else none
  termination_by cs.length

/-- The rest of a string without escapes, on several lines. -/
def readLongLiteral : List Char → Option (List Char × List Char)
  | [] => none
  | c :: rest =>
    if atMarks '\'' (c :: rest) then endMarks '\'' (c :: rest)
    else if isTextChar c || c = '\n' || (c = '\r' && rest.head? == some '\n') then
      (readLongLiteral rest).map fun (text, rest) => (c :: text, rest)
    else none

/-- Drops the line break that may follow the marks of a string. -/
def skipBreak (cs : List Char) : List Char := (afterBreak? cs).getD cs

/-- A string, if one stands in front. -/
def readString : List Char → Option (String × List Char)
  | '"' :: '"' :: '"' :: rest => text (readLongBasic false (skipBreak rest))
  | '"' :: rest => text (readBasic rest)
  | '\'' :: '\'' :: '\'' :: rest => text (readLongLiteral (skipBreak rest))
  | '\'' :: rest => text (readLiteral rest)
  | _ => none
where
  /-- The characters of a string as a text. -/
  text (r : Option (List Char × List Char)) : Option (String × List Char) :=
    r.map fun (chars, rest) => (String.ofList chars, rest)

/-! ## Keys -/

/-- A character of a key without quotation marks. -/
def isKeyChar (c : Char) : Bool := c.isAlphanum || c == '_' || c == '-'

/-- One part of a key. -/
def readPart : List Char → Option (String × List Char)
  | '"' :: rest => (readBasic rest).map fun (part, rest) => (String.ofList part, rest)
  | '\'' :: rest => (readLiteral rest).map fun (part, rest) => (String.ofList part, rest)
  | cs =>
    match cs.takeWhile isKeyChar with
    | [] => none
    | part => some (String.ofList part, cs.dropWhile isKeyChar)

/-- A key of at most so many parts, and the characters after it and after the
blanks behind it. -/
def readKey (fuel : Nat) (cs : List Char) : Option (List String × List Char) :=
  match fuel with
  | 0 => none
  | fuel + 1 => do
    let (part, rest) ← readPart (skipSpaces cs)
    match skipSpaces rest with
    | '.' :: rest => do
      let (parts, rest) ← readKey fuel rest
      return (part :: parts, rest)
    | rest => return ([part], rest)

/-! ## Values -/

mutual

/-- A value, of at most so many levels, with at most so many parts. -/
def readValue (fuel depth : Nat) (cs : List Char) : Option (Value × List Char) :=
  match fuel with
  | 0 => none
  | fuel + 1 =>
    match cs with
    | '"' :: _ => (readString cs).map fun (text, rest) => (.text text, rest)
    | '\'' :: _ => (readString cs).map fun (text, rest) => (.text text, rest)
    | '[' :: rest =>
      match depth with
      | 0 => none
      | depth + 1 => (readItems fuel depth rest).map fun (items, rest) => (.array items, rest)
    | '\x7b' :: rest =>
      match depth with
      | 0 => none
      | depth + 1 => do
        let (assignments, rest) ← readFields fuel depth rest
        return (.table .inline (← Fields.ofAssignments assignments), rest)
    | _ => readScalar cs

/-- The elements of a list that are still to come, and its end. -/
def readItems (fuel depth : Nat) (cs : List Char) : Option (List Value × List Char) :=
  match fuel with
  | 0 => none
  | fuel + 1 => do
    match ← skipLines false cs with
    | ']' :: rest => return ([], rest)
    | cs =>
      let (v, rest) ← readValue fuel depth cs
      match ← skipLines false rest with
      | ',' :: rest =>
        let (items, rest) ← readItems fuel depth rest
        return (v :: items, rest)
      | ']' :: rest => return ([v], rest)
      | _ => none

/-- A key, an equals sign and a value. -/
def readAssignment (fuel depth : Nat) (cs : List Char) :
    Option ((List String × Value) × List Char) :=
  match fuel with
  | 0 => none
  | fuel + 1 => do
    match ← readKey (cs.length + 1) cs with
    | (path, '=' :: rest) =>
      let (v, rest) ← readValue fuel depth (skipSpaces rest)
      return ((path, v), rest)
    | _ => none

/-- The fields of a table in braces that are still to come, and its end. -/
def readFields (fuel depth : Nat) (cs : List Char) :
    Option (List (List String × Value) × List Char) :=
  match fuel with
  | 0 => none
  | fuel + 1 => do
    match ← skipLines false cs with
    | '\x7d' :: rest => return ([], rest)
    | cs =>
      let (f, rest) ← readAssignment fuel depth cs
      match ← skipLines false rest with
      | ',' :: rest =>
        let (fields, rest) ← readFields fuel depth rest
        return (f :: fields, rest)
      | '\x7d' :: rest => return ([f], rest)
      | _ => none

end

/-! ## Documents -/

/-- How many levels of lists and tables a value may have. -/
def deepest : Nat := 80

/-- A statement up to the end of its line. -/
def readStatement (cs : List Char) : Option (Statement × List Char) := do
  let fuel := 2 * cs.length + 2
  let (statement, rest) ← match cs with
    | '[' :: '[' :: rest =>
      match readKey fuel rest with
      | some (path, ']' :: ']' :: rest) => some (.entry path, rest)
      | _ => none
    | '[' :: rest =>
      match readKey fuel rest with
      | some (path, ']' :: rest) => some (.table path, rest)
      | _ => none
    | _ => (readAssignment fuel deepest cs).map fun ((path, v), rest) => (.assign path v, rest)
  return (statement, ← endLine rest)

/-- At most so many statements, up to the end of the document. -/
def readStatements (fuel : Nat) (cs : List Char) : Option (List Statement) :=
  match fuel with
  | 0 => none
  | fuel + 1 => do
    match ← skipLines false cs with
    | [] => return []
    | cs =>
      let (statement, rest) ← readStatement cs
      return statement :: (← readStatements fuel rest)

/-- Drops the mark that tells the order of bytes, which may stand in front. -/
def skipByteOrderMark : List Char → List Char
  | '\ufeff' :: rest => rest
  | cs => cs

/-- **The tables that a document holds.** -/
def read? (text : String) : Option Fields := do
  let cs := skipByteOrderMark text.toList
  Fields.ofStatements (← readStatements (cs.length + 1) cs)

end IncrementalBuild.Toml
