import IncrementalBuild.Shell

/-!
# Words and operators of a script

A script is cut into words, operators and redirections. Quotation marks of
both kinds, backslashes, dollar signs and accents belong to words; what stands
between parentheses or braces behind a dollar sign is kept as it is and read
when the word is expanded.
-/

namespace IncrementalBuild.Shell

/-- A word, an operator or a redirection. -/
inductive Token where
  | word (parts : Word)
  /-- An operator, of which the end of a line is one. -/
  | operator (text : String)
  | redirect (descriptor : Option Nat) (direction : Direction)

def isSpace (c : Char) : Bool := c == ' ' || c == '\t'

/-- Whether a character ends a word. -/
def isBoundary (c : Char) : Bool :=
  isSpace c || c == '\n' || c == ';' || c == '&' || c == '|' || c == '<' || c == '>'
    || c == '(' || c == ')'

def isNameStart (c : Char) : Bool := c.isAlpha || c == '_'

def isNameChar (c : Char) : Bool := c.isAlphanum || c == '_'

/-- Whether characters are a name. -/
def isName : Bytes → Bool
  | [] => false
  | c :: rest => isNameStart c && rest.all isNameChar

/-- Whether a character is a parameter by itself. -/
def isSpecialParameter (c : Char) : Bool :=
  c.isDigit || c == '@' || c == '*' || c == '#' || c == '?' || c == '$' || c == '!' || c == '-'

/-- What stands up to the closing mark of some opening one, and what comes
after it. Inside quotation marks, marks do not count. -/
def readEnclosed (opening closing : Char) (depth : Nat) (quote : Option Char) :
    Bytes → Option (Bytes × Bytes)
  | [] => none
  | '\\' :: c :: rest =>
    (readEnclosed opening closing depth quote rest).map fun (b, rest) => ('\\' :: c :: b, rest)
  | c :: rest =>
    let more (depth : Nat) (quote : Option Char) : Option (Bytes × Bytes) :=
      (readEnclosed opening closing depth quote rest).map fun (b, rest) => (c :: b, rest)
    match quote with
    | some q => more depth (if c = q then none else some q)
    | none =>
      if c = '\'' || c = '"' then more depth (some c)
      else if c = closing then
        match depth with
        | 0 => some ([], rest)
        | depth + 1 => more depth none
      else if c = opening then more (depth + 1) none
      else more depth none

/-- What stands up to the closing accent, with the backslashes taken off that
protect accents, dollar signs and backslashes. -/
def readAccents : Bytes → Option (Bytes × Bytes)
  | [] => none
  | '`' :: rest => some ([], rest)
  | '\\' :: c :: rest =>
    (readAccents rest).map fun (b, rest) =>
      (if c = '`' || c = '$' || c = '\\' then c :: b else '\\' :: c :: b, rest)
  | c :: rest => (readAccents rest).map fun (b, rest) => (c :: b, rest)

/-- What stands behind a dollar sign. One that nothing stands behind is
itself. -/
def readDollar (quoted : Bool) : Bytes → Option (Part × Bytes)
  | '(' :: rest =>
    (readEnclosed '(' ')' 0 none rest).map fun (b, rest) =>
      (.expansion quoted (.command b), rest)
  | '\x7b' :: rest =>
    (readEnclosed '\x7b' '\x7d' 0 none rest).map fun (b, rest) =>
      (.expansion quoted (.parameter b), rest)
  | c :: rest =>
    if isNameStart c then
      some (.expansion quoted (.parameter (c :: rest.takeWhile isNameChar)),
        rest.dropWhile isNameChar)
    else if isSpecialParameter c then some (.expansion quoted (.parameter [c]), rest)
    else some (.text quoted ['$'], c :: rest)
  | [] => some (.text quoted ['$'], [])

/-- The rest of a word, of at most so many parts. A word between quotation
marks goes up to the closing one; another one up to a boundary, if boundaries
count. -/
def readParts (fuel : Nat) (inQuotes bounded : Bool) (cs : Bytes) : Option (Word × Bytes) :=
  match fuel with
  | 0 => none
  | fuel + 1 =>
    let more (p : Part) (rest : Bytes) : Option (Word × Bytes) :=
      (readParts fuel inQuotes bounded rest).map fun (parts, rest) => (p :: parts, rest)
    match cs with
    | [] => if inQuotes then none else some ([], [])
    | '$' :: rest => (readDollar inQuotes rest).bind fun (p, rest) => more p rest
    | '`' :: rest =>
      (readAccents rest).bind fun (b, rest) => more (.expansion inQuotes (.command b)) rest
    | '\\' :: '\n' :: rest => readParts fuel inQuotes bounded rest
    | '\\' :: c :: rest =>
      if inQuotes && !(c = '$' || c = '`' || c = '"' || c = '\\') then
        more (.text true ['\\', c]) rest
      else more (.text true [c]) rest
    | c :: rest =>
      if inQuotes then
        if c = '"' then some ([], rest) else more (.text true [c]) rest
      else if c = '"' then
        (readParts fuel true false rest).bind fun (parts, rest) =>
          (readParts fuel false bounded rest).map fun (after, rest) =>
            ((if parts.isEmpty then [.text true []] else parts) ++ after, rest)
      else if c = '\'' then
        let inner := rest.takeWhile (· ≠ '\'')
        match rest.drop inner.length with
        | [] => none
        | _ :: rest => more (.text true inner) rest
      else if bounded && isBoundary c then some ([], c :: rest)
      else
        let run := (c :: rest).takeWhile fun c =>
          !(isBoundary c || c = '$' || c = '`' || c = '\\' || c = '"' || c = '\'')
        if run.isEmpty then more (.text false [c]) rest
        else more (.text false run) ((c :: rest).drop run.length)

/-- A redirection, after the descriptor it may name. -/
def readRedirect (descriptor : Option Nat) : Bytes → Option (Token × Bytes)
  | '>' :: '>' :: rest => some (.redirect descriptor .append, rest)
  | '>' :: '&' :: rest => some (.redirect descriptor .duplicate, rest)
  | '<' :: '&' :: rest => some (.redirect (some (descriptor.getD 0)) .duplicate, rest)
  | '>' :: '|' :: rest => some (.redirect descriptor .output, rest)
  | '>' :: rest => some (.redirect descriptor .output, rest)
  | '<' :: rest => some (.redirect (some (descriptor.getD 0)) .input, rest)
  | _ => none

/-- The lines up to one that holds nothing but a delimiter, and what follows
it. Tabs in front of lines may be dropped. -/
def readLines (fuel : Nat) (dropTabs : Bool) (delimiter cs : Bytes) : Bytes × Bytes :=
  match fuel with
  | 0 => ([], cs)
  | n + 1 =>
    if cs.isEmpty then ([], [])
    else
      let raw := cs.takeWhile (· ≠ '\n')
      let rest := cs.drop (raw.length + 1)
      let line := if dropTabs then raw.dropWhile (· = '\t') else raw
      if line = delimiter then ([], rest)
      else
        let (more, rest) := readLines n dropTabs delimiter rest
        (line ++ '\n' :: more, rest)

/-- Protects the quotation marks of a text that is read as if it stood between
them. -/
def protectMarks : Bytes → Bytes
  | [] => []
  | '\\' :: '"' :: rest => '\\' :: '\\' :: '\\' :: '"' :: protectMarks rest
  | '\\' :: c :: rest => '\\' :: c :: protectMarks rest
  | '"' :: rest => '\\' :: '"' :: protectMarks rest
  | c :: rest => c :: protectMarks rest

/-- The text that follows the current line up to a delimiter, and the script
without it. Where no part of the delimiter is quoted, the text is expanded. -/
def readText (dropTabs : Bool) (cs : Bytes) : Option (Word × Bytes) :=
  match readParts (cs.length + 1) false true (cs.dropWhile isSpace) with
  | none => none
  | some (parts, rest) =>
    let literal : Part → Bytes := fun
      | .text _ value => value
      | .expansion _ _ => []
    let quoted : Part → Bool := fun
      | .text quoted _ => quoted
      | .expansion _ _ => false
    let line := rest.takeWhile (· ≠ '\n')
    let below := rest.drop (line.length + 1)
    let (body, after) := readLines (below.length + 1) dropTabs (parts.flatMap literal) below
    let rest := line ++ '\n' :: after
    if parts.any quoted then some ([.text true body], rest)
    else
      (readParts (2 * body.length + 2) true false (protectMarks body ++ ['"'])).map
        fun (w, _) => (w, rest)

/-- The operators, longer ones before those they begin with. -/
def operators : List String := [";;", "&&", "||", ";", "&", "|", "(", ")", "\n"]

/-- The operator in front. -/
def readOperator (cs : Bytes) : Option (Token × Bytes) :=
  operators.findSome? fun o =>
    if o.toList.isPrefixOf cs then some (.operator o, cs.drop o.length) else none

/-- A word, or the descriptor before a redirection. -/
def readWord (cs : Bytes) : Option (Token × Bytes) :=
  match readParts (cs.length + 1) false true cs with
  | some ([.text false digits], '<' :: rest) => numbered digits ('<' :: rest)
  | some ([.text false digits], '>' :: rest) => numbered digits ('>' :: rest)
  | r => r.map fun (parts, rest) => (.word parts, rest)
where
  /-- A redirection of the descriptor that digits name. -/
  numbered (digits rest : Bytes) : Option (Token × Bytes) :=
    match digits with
    | [d] =>
      if d.isDigit then readRedirect (some (d.toNat - '0'.toNat)) rest
      else some (.word [.text false digits], rest)
    | _ => some (.word [.text false digits], rest)

/-- The tokens in front: one, or a redirection with its text. -/
def readToken (cs : Bytes) : Option (List Token × Bytes) :=
  let withText (dropTabs : Bool) (rest : Bytes) : Option (List Token × Bytes) :=
    (readText dropTabs rest).map fun (w, rest) => ([.redirect (some 0) .text, .word w], rest)
  match cs with
  | '<' :: '<' :: '-' :: rest => withText true rest
  | '<' :: '<' :: rest => withText false rest
  | _ =>
    (((readRedirect none cs).or (readOperator cs)).or (readWord cs)).map
      fun (t, rest) => ([t], rest)

/-- Drops blanks, comments and broken line ends in front. -/
def skipBlanks (inComment : Bool) : Bytes → Bytes
  | [] => []
  | '\\' :: '\n' :: rest =>
    if inComment then '\n' :: rest else skipBlanks false rest
  | c :: rest =>
    if inComment then if c = '\n' then c :: rest else skipBlanks true rest
    else if isSpace c then skipBlanks false rest
    else if c = '#' then skipBlanks true rest
    else c :: rest

/-- At most so many tokens, each with the number of its line, and whether they
are all there are. -/
def readTokens (fuel line : Nat) (cs : Bytes) : List (Nat × Token) × Bool :=
  match fuel with
  | 0 => ([], false)
  | n + 1 =>
    let found := skipBlanks false cs
    let line := line + newlines cs found
    if found.isEmpty then ([], true)
    else
      match readToken found with
      | none => ([], false)
      | some (ts, after) =>
        let (more, complete) := readTokens n (line + newlines found after) after
        (ts.map (Prod.mk line) ++ more, complete)
where
  /-- How many line ends were passed over. -/
  newlines (before after : Bytes) : Nat := before.count '\n' - after.count '\n'

/-- **The tokens of a script**, and whether they are all of it. A script that
ends inside a word has those in front of it. -/
def tokens (script : Bytes) : List (Nat × Token) × Bool :=
  readTokens (script.length + 1) 1 script

end IncrementalBuild.Shell
