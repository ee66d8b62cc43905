import IncrementalBuild.Shell.Token

/-!
# Reading scripts

The words and operators of a script are put together into statements. A word
opens or closes a statement only where a command could stand and only if no
part of it is quoted.
-/

namespace IncrementalBuild.Shell

/-- The tokens that are still to be read. -/
abbrev Tokens := List (Nat × Token)

/-- The text of a word without quotation marks and expansions. -/
def plainText? : Word → Option Bytes
  | [.text false value] => some value
  | _ => none

/-- The words that mean something where a command could stand. -/
def reservedWords : List String :=
  ["if", "then", "elif", "else", "fi", "while", "until", "for", "in", "do", "done", "case",
    "esac", "\x7b", "\x7d", "!"]

/-- The reserved word in front. -/
def reserved? : Tokens → Option String
  | (_, .word parts) :: _ =>
    (plainText? parts).bind fun b => reservedWords.find? (·.toList = b)
  | _ => none

/-- The operator in front. -/
def operator? : Tokens → Option String
  | (_, .operator text) :: _ => some text
  | _ => none

/-- Drops a reserved word in front. -/
def expectReserved (word : String) (ts : Tokens) : Option Tokens :=
  if reserved? ts = some word then some ts.tail else none

/-- Drops ends of lines in front. -/
def skipNewlines (ts : Tokens) : Tokens := ts.dropWhile fun t =>
  match t.2 with
  | .operator text => text == "\n"
  | _ => false

/-- Drops what may stand between statements. -/
def skipSeparators (ts : Tokens) : Tokens := ts.dropWhile fun t =>
  match t.2 with
  | .operator text => text == "\n" || text == ";" || text == "&"
  | _ => false

/-- Whether a list of statements ends here. -/
def endsList (ts : Tokens) : Bool :=
  match reserved? ts with
  | some word => ["then", "elif", "else", "fi", "do", "done", "esac", "\x7d"].contains word
  | none =>
    match operator? ts with
    | some text => text == ")" || text == ";;"
    | none => ts.isEmpty

/-- The name and the value of a word that is an assignment. -/
def assignment? (parts : Word) : Option (Bytes × Word) :=
  match parts with
  | .text false value :: rest =>
    let name := value.takeWhile (· ≠ '=')
    match value.drop name.length with
    | _ :: first => if isName name then some (name, .text false first :: rest) else none
    | [] => none
  | _ => none

/-- The redirections in front. -/
def readRedirections : Tokens → List Redirection × Tokens
  | (_, .redirect descriptor direction) :: (_, .word target) :: rest =>
    let (more, rest) := readRedirections rest
    (⟨descriptor.getD 1, direction, target⟩ :: more, rest)
  | ts => ([], ts)

/-- A simple command, the parts of which may stand in any order but that
assignments come before words. -/
def readSimple (assignments : List (Bytes × Word)) (words : List Word)
    (redirections : List Redirection) (line : Nat) : Tokens → Statement × Tokens
  | (_, .redirect descriptor direction) :: (_, .word target) :: rest =>
    readSimple assignments words (⟨descriptor.getD 1, direction, target⟩ :: redirections) line
      rest
  | (_, .word parts) :: rest =>
    match words, assignment? parts with
    | [], some a => readSimple (a :: assignments) words redirections line rest
    | _, _ => readSimple assignments (parts :: words) redirections line rest
  | ts => (.simple line assignments.reverse words.reverse redirections.reverse, ts)

/-- The words up to the end of a line or a semicolon. -/
def readWords : Tokens → List Word × Tokens
  | (_, .word parts) :: rest =>
    let (more, rest) := readWords rest
    (parts :: more, rest)
  | ts => ([], ts)

/-- The patterns of a case, and what follows its parenthesis. -/
def readPatterns : Tokens → Option (List Word × Tokens)
  | (_, .word parts) :: (_, .operator "|") :: rest =>
    (readPatterns rest).map fun (more, rest) => (parts :: more, rest)
  | (_, .word parts) :: (_, .operator ")") :: rest => some ([parts], rest)
  | _ => none

mutual

/-- Statements up to the end of their list. -/
def readList (fuel : Nat) (ts : Tokens) : Option (List Statement × Tokens) :=
  match fuel with
  | 0 => none
  | fuel + 1 =>
    let ts := skipSeparators ts
    if endsList ts then some ([], ts)
    else do
      let (first, ts) ← readChain fuel ts
      let (rest, ts) ← readList fuel ts
      return (first :: rest, ts)

/-- Statements that depend on how the ones before them ended. -/
def readChain (fuel : Nat) (ts : Tokens) : Option (Statement × Tokens) :=
  match fuel with
  | 0 => none
  | fuel + 1 => do
    let (first, ts) ← readPipe fuel ts
    readLinks fuel first ts

/-- What follows a statement in its chain. -/
def readLinks (fuel : Nat) (first : Statement) (ts : Tokens) : Option (Statement × Tokens) :=
  match fuel with
  | 0 => none
  | fuel + 1 =>
    match operator? ts with
    | some "&&" => do
      let (second, ts) ← readPipe fuel (skipNewlines ts.tail)
      readLinks fuel (.both first second) ts
    | some "||" => do
      let (second, ts) ← readPipe fuel (skipNewlines ts.tail)
      readLinks fuel (.either first second) ts
    | _ => some (first, ts)

/-- Commands each of which reads what the one before it writes. -/
def readPipe (fuel : Nat) (ts : Tokens) : Option (Statement × Tokens) :=
  match fuel with
  | 0 => none
  | fuel + 1 =>
    match expectReserved "!" ts with
    | some ts => (readPipe fuel ts).map fun (s, ts) => (.negated s, ts)
    | none => do
      let (first, ts) ← readCommand fuel ts
      match operator? ts with
      | some "|" =>
        let (second, ts) ← readPipe fuel (skipNewlines ts.tail)
        return (.pipe first second, ts)
      | _ => return (first, ts)

/-- A command, with the redirections behind it. -/
def readCommand (fuel : Nat) (ts : Tokens) : Option (Statement × Tokens) :=
  match fuel with
  | 0 => none
  | fuel + 1 =>
    let line := (ts.head?.map (·.1)).getD 0
    let redirect (r : Statement × Tokens) : Statement × Tokens :=
      match readRedirections r.2 with
      | ([], ts) => (r.1, ts)
      | (redirections, ts) => (.redirected line r.1 redirections, ts)
    match reserved? ts with
    | some "if" => (readBranch fuel ts.tail).map redirect
    | some "while" => (readLoop fuel false ts.tail).map redirect
    | some "until" => (readLoop fuel true ts.tail).map redirect
    | some "for" => (readEach fuel ts.tail).map redirect
    | some "case" => (readChoice fuel ts.tail).map redirect
    | some "\x7b" => do
      let (body, ts) ← readList fuel ts.tail
      return redirect (.group false body, ← expectReserved "\x7d" ts)
    | some _ => none
    | none =>
      match operator? ts with
      | some "(" => do
        let (body, ts) ← readList fuel ts.tail
        if operator? ts = some ")" then return redirect (.group true body, ts.tail) else none
      | some _ => none
      | none =>
        match ts with
        | [] => none
        | (_, .word name) :: (_, .operator "(") :: (_, .operator ")") :: rest => do
          let (body, rest) ← readCommand fuel (skipNewlines rest)
          return (.define (← plainText? name) body, rest)
        | ts => some (readSimple [] [] [] line ts)

/-- The rest of a branch after its first word. -/
def readBranch (fuel : Nat) (ts : Tokens) : Option (Statement × Tokens) :=
  match fuel with
  | 0 => none
  | fuel + 1 => do
    let (condition, ts) ← readList fuel ts
    let (body, ts) ← readList fuel (← expectReserved "then" ts)
    match reserved? ts with
    | some "elif" =>
      let (otherwise, ts) ← readBranch fuel ts.tail
      return (.branch condition body [otherwise], ts)
    | some "else" =>
      let (otherwise, ts) ← readList fuel ts.tail
      return (.branch condition body otherwise, ← expectReserved "fi" ts)
    | _ => return (.branch condition body [], ← expectReserved "fi" ts)

/-- The statements between `do` and `done`. -/
def readBody (fuel : Nat) (ts : Tokens) : Option (List Statement × Tokens) :=
  match fuel with
  | 0 => none
  | fuel + 1 => do
    let (body, ts) ← readList fuel (← expectReserved "do" (skipSeparators ts))
    return (body, ← expectReserved "done" ts)

/-- The rest of a loop with a condition. -/
def readLoop (fuel : Nat) (negated : Bool) (ts : Tokens) : Option (Statement × Tokens) :=
  match fuel with
  | 0 => none
  | fuel + 1 => do
    let (condition, ts) ← readList fuel ts
    let (body, ts) ← readBody fuel ts
    return (.loop negated condition body, ts)

/-- The rest of a loop over words. -/
def readEach (fuel : Nat) (ts : Tokens) : Option (Statement × Tokens) :=
  match fuel with
  | 0 => none
  | fuel + 1 =>
    match ts with
    | (_, .word parts) :: ts => do
      let name ← plainText? parts
      let (words, ts) := match expectReserved "in" (skipNewlines ts) with
        | some ts =>
          let (words, ts) := readWords ts
          (some words, ts)
        | none => (none, ts)
      let (body, ts) ← readBody fuel ts
      return (.each name words body, ts)
    | _ => none

/-- The rest of a choice by patterns. -/
def readChoice (fuel : Nat) (ts : Tokens) : Option (Statement × Tokens) :=
  match fuel with
  | 0 => none
  | fuel + 1 =>
    match ts with
    | (_, .word parts) :: ts => do
      let (cases, ts) ← readCases fuel (← expectReserved "in" (skipNewlines ts))
      return (.choose parts cases, ts)
    | _ => none

/-- The cases of a choice, and its end. -/
def readCases (fuel : Nat) (ts : Tokens) :
    Option (List (List Word × List Statement) × Tokens) :=
  match fuel with
  | 0 => none
  | fuel + 1 =>
    let ts := skipNewlines ts
    match expectReserved "esac" ts with
    | some ts => some ([], ts)
    | none => do
      let (patterns, ts) ← readPatterns (if operator? ts = some "(" then ts.tail else ts)
      let (body, ts) ← readList fuel ts
      let (rest, ts) ← readCases fuel (if operator? ts = some ";;" then ts.tail else ts)
      return ((patterns, body) :: rest, ts)

end

/-- At most so many statements of a script, and whether they are all of it. A
script that is not well formed has those in front of its first fault. -/
def readAll (fuel : Nat) (ts : Tokens) : List Statement × Bool :=
  match fuel with
  | 0 => ([], false)
  | n + 1 =>
    match skipSeparators ts with
    | [] => ([], true)
    | ts =>
      match readChain (8 * ts.length + 8) ts with
      | none => ([], false)
      | some (first, rest) =>
        let (more, complete) := readAll n rest
        (first :: more, complete)

/-- The tokens of complete lines. -/
def completeLines (ts : Tokens) : Tokens := (ts.reverse.dropWhile fun t =>
  match t.2 with
  | .operator text => text != "\n"
  | _ => true).reverse

/-- **The statements of a script**, and whether they are all of it. -/
def statements (script : Bytes) : List Statement × Bool :=
  let (found, complete) := tokens script
  let ts := if complete then found else completeLines found
  let (body, wellFormed) := readAll (ts.length + 1) ts
  (body, complete && wellFormed)

end IncrementalBuild.Shell
