import IncrementalBuild.Shell.Arithmetic
import IncrementalBuild.Shell.Pattern
import IncrementalBuild.Shell.Session
import IncrementalBuild.Shell.Token

/-!
# Expanding words

Before a command is carried out its words are expanded: parameters are
replaced by their values and scripts behind a dollar sign by what they write.
What comes of an expansion outside of quotation marks is cut into words at the
characters of `IFS`, and words that are patterns are replaced by the paths
they stand for.

What an expansion leaves is a list of atoms. An atom knows how its character
came into the word, since that decides what may still happen to it.
-/

namespace IncrementalBuild.Shell

/-- How a character came into a word. -/
inductive Origin where
  | written
  | expanded
  | quoted
  deriving DecidableEq

/-- What an expanded word is made of. -/
inductive Atom where
  | char (origin : Origin) (c : Char)
  /-- Something that was quoted, and may be empty. -/
  | mark
  /-- The border between two arguments. -/
  | border

/-- Runs a script, and gives what it writes. -/
abbrev Substitution := Session → Bytes → Bytes × Session

namespace Atom

/-- The atoms of a value. -/
def ofValue (quoted : Bool) (b : Bytes) : List Atom :=
  if quoted then .mark :: b.map (.char .quoted) else b.map (.char .expanded)

/-- Atoms as they come of an expansion: what was written counts as expanded. -/
def asExpanded (atoms : List Atom) : List Atom := atoms.map fun
  | .char .written c => .char .expanded c
  | a => a

/-- The characters of atoms as one word. -/
def text (atoms : List Atom) : Bytes := atoms.filterMap fun
  | .char _ c => some c
  | .mark => none
  | .border => some ' '

/-- The characters of atoms as a pattern. -/
def pattern (atoms : List Atom) : Pattern := Pattern.ofChars (atoms.filterMap fun
  | .char origin c => some ⟨origin = .quoted, c⟩
  | .mark => none
  | .border => some ⟨true, ' '⟩)

end Atom

/-! ## Parameters -/

/-- A number in decimal digits. -/
def numeral (n : Nat) : Bytes := Nat.toDigits 10 n

/-- The name of a parameter, and what is to be done with its value. -/
def splitParameter : Bytes → Bytes × Bytes
  | [] => ([], [])
  | c :: rest =>
    if isNameStart c then (c :: rest.takeWhile isNameChar, rest.dropWhile isNameChar)
    else if c.isDigit then (c :: rest.takeWhile Char.isDigit, rest.dropWhile Char.isDigit)
    else ([c], rest)

/-- The value of a parameter, if it is set. -/
def Session.value? (s : Session) (name : Bytes) : Option Bytes :=
  match name with
  | ['#'] => some (numeral s.args.length)
  | ['?'] => some (numeral s.status)
  | ['$'] => some Session.processNumber
  | ['0'] => some s.name
  | ['@'] | ['*'] =>
    if s.args.isEmpty then none else some ([' '].intercalate s.args)
  | c :: _ =>
    if c.isDigit then s.args[(String.ofList name).toNat?.getD 0 - 1]?
    else s.getVariable? name
  | [] => none

/-- The characters at which words are cut. -/
def Session.separators (s : Session) : Bytes :=
  (s.getVariable? "IFS".toList).getD [' ', '\t', '\n']

/-- The atoms of all arguments: word by word, or between quotation marks and
behind a `*` as one word. -/
def Session.argumentAtoms (s : Session) (quoted joined : Bool) : List Atom :=
  if quoted && joined then
    Atom.ofValue true ((s.separators.take 1).intercalate s.args)
  else [Atom.border].intercalate (s.args.map (Atom.ofValue quoted))

/-! ## Words -/

/-- Expands the parts of a word one after the other. -/
def expandEach (one : Session → Part → List Atom × Session) (s : Session) (w : Word) :
    List Atom × Session :=
  w.foldl (fun (atoms, s) p =>
    let (more, s) := one s p
    (atoms ++ more, s)) ([], s)

/-- The word that stands behind the name of a parameter. -/
def innerWord (quoted : Bool) (b : Bytes) : Word :=
  if quoted then ((readParts (b.length + 2) true false (b ++ ['"'])).map (·.1)).getD []
  else ((readParts (b.length + 1) false false b).map (·.1)).getD []

/-- Expands a parameter, where `expand` expands the words inside. -/
def expandParameter (expand : Session → Word → List Atom × Session) (s : Session)
    (quoted : Bool) (content : Bytes) : List Atom × Session :=
  let (name, treatment) := splitParameter content
  let value := s.value? name
  let cut (how : Pattern → Bytes → Bytes) (word : Bytes) : List Atom × Session :=
    let (atoms, s) := expand s (innerWord false word)
    (Atom.ofValue quoted (how (Atom.pattern atoms) (value.getD [])), s)
  -- Whether the value counts, where an empty one may count or not.
  let there (emptyCounts : Bool) : Bool :=
    match value with
    | some v => emptyCounts || !v.isEmpty
    | none => false
  let kept : List Atom × Session :=
    if value.isNone && s.strictNames && name ≠ ['@'] && name ≠ ['*'] then
      ([], { s.complain 2 s!"{name.shown}: parameter not set" with flow := .exited })
    else (Atom.ofValue quoted (value.getD []), s)
  let otherwise (word : Bytes) : List Atom × Session :=
    let (atoms, s) := expand s (innerWord quoted word)
    (Atom.asExpanded atoms, s)
  let assigned (word : Bytes) : List Atom × Session :=
    let (atoms, s) := otherwise word
    (Atom.ofValue quoted (Atom.text atoms), s.setVariable name (Atom.text atoms))
  let refused (word : Bytes) : List Atom × Session :=
    let (atoms, s) := otherwise word
    let message := if word.isEmpty then "parameter not set" else (Atom.text atoms).shown
    ([], { s.complain 2 s!"{name.shown}: {message}" with flow := .exited })
  match name, treatment with
  | ['@'], [] => (s.argumentAtoms quoted false, s)
  | ['*'], [] => (s.argumentAtoms quoted true, s)
  | _, [] => kept
  | _, ':' :: '-' :: word => if there false then kept else otherwise word
  | _, '-' :: word => if there true then kept else otherwise word
  | _, ':' :: '=' :: word => if there false then kept else assigned word
  | _, '=' :: word => if there true then kept else assigned word
  | _, ':' :: '?' :: word => if there false then kept else refused word
  | _, '?' :: word => if there true then kept else refused word
  | _, ':' :: '+' :: word => if there false then otherwise word else ([], s)
  | _, '+' :: word => if there true then otherwise word else ([], s)
  | _, '%' :: '%' :: word => cut (Pattern.cutBack · true) word
  | _, '%' :: word => cut (Pattern.cutBack · false) word
  | ['#'], _ =>
    (Atom.ofValue quoted (numeral ((s.value? treatment).getD []).length), s)
  | _, '#' :: '#' :: word => cut (Pattern.cutFront · true) word
  | _, '#' :: word => cut (Pattern.cutFront · false) word
  | _, _ => ([], { s.complain 2 "Bad substitution" with flow := .exited })

/-- The number that a variable holds. One that is not set counts as zero. -/
def Session.numberIn? (s : Session) (name : Bytes) : Option Int :=
  Arithmetic.evaluate? (fun _ => none) ((s.value? name).getD [])

/-- What stands between the double parentheses of an expression. -/
def expression? (script : Bytes) : Option Bytes :=
  match script, script.getLast? with
  | '(' :: rest, some ')' => some rest.dropLast
  | _, _ => none

/-- Calculates an expression. -/
def calculate (s : Session) (quoted : Bool) (b : Bytes) : List Atom × Session :=
  match Arithmetic.evaluate? s.numberIn? b with
  | some n => (Atom.ofValue quoted (toString n).toList, s)
  | none =>
    ([], { s.complain 2 s!"arithmetic expression: {b.shown}" with flow := .exited })

/-- Expands one part of a word, in which words may be nested so many levels
deep. -/
def expandPart (substitute : Substitution) : Nat → Session → Part → List Atom × Session
  | _, s, .text quoted value =>
    (if quoted then Atom.ofValue true value else value.map (.char .written), s)
  | 0, s, .expansion _ _ => ([], s)
  | n + 1, s, .expansion quoted (.command script) =>
    match expression? script with
    | some b =>
      let (atoms, s) := expandEach (expandPart substitute n) s (innerWord true b)
      calculate s quoted (Atom.text atoms)
    | none =>
      let (output, s) := substitute s script
      (Atom.ofValue quoted (output.reverse.dropWhile (· = '\n')).reverse, s)
  | n + 1, s, .expansion quoted (.parameter content) =>
    expandParameter (expandEach (expandPart substitute n)) s quoted content

/-- How deep words may be nested. -/
def nesting : Nat := 100

/-- The atoms of a word. -/
def expandWord (substitute : Substitution) (s : Session) (w : Word) : List Atom × Session :=
  expandEach (expandPart substitute nesting) s w

/-! ## Cutting into words -/

/-- Words that are being cut out of atoms. -/
structure Cutting where
  /-- The words that are complete, the last one first. -/
  complete : List (List PatternChar)
  /-- The word that has begun, its last character first. -/
  begun : Option (List PatternChar)
  /-- Whether the last word was ended by a blank, so that a separator that is
  none may follow and belongs to it. -/
  endedByBlank : Bool

namespace Cutting

/-- Ends the word that has begun, if there is one. -/
def close (c : Cutting) (byBlank : Bool) : Cutting :=
  match c.begun with
  | some word => ⟨word.reverse :: c.complete, none, byBlank⟩
  | none => { c with endedByBlank := byBlank && c.endedByBlank }

/-- Takes one atom in. -/
def take (separators : Bytes) (c : Cutting) (a : Atom) : Cutting :=
  let keep (x : PatternChar) : Cutting :=
    { c with begun := some (x :: c.begun.getD []), endedByBlank := false }
  match a with
  | .mark => { c with begun := some (c.begun.getD []) }
  | .border => c.close true
  | .char .quoted x => keep ⟨true, x⟩
  | .char .written x => keep ⟨false, x⟩
  | .char .expanded x =>
    if !separators.contains x then keep ⟨false, x⟩
    else if x = ' ' || x = '\t' || x = '\n' then
      match c.begun with
      | some _ => c.close true
      | none => c
    else
      match c.begun with
      | some _ => c.close false
      | none =>
        if c.endedByBlank then { c with endedByBlank := false }
        else { c with complete := [] :: c.complete }

end Cutting

/-- The words that atoms are cut into. -/
def wordsOf (separators : Bytes) (atoms : List Atom) : List (List PatternChar) :=
  ((atoms.foldl (Cutting.take separators) ⟨[], none, false⟩).close false).complete.reverse

/-! ## Paths -/

/-- Characters cut at slashes. -/
def atSlashes : List PatternChar → List (List PatternChar)
  | [] => [[]]
  | c :: rest =>
    if c.char = '/' then [] :: atSlashes rest
    else
      match atSlashes rest with
      | first :: more => (c :: first) :: more
      | [] => [[c]]

/-- The names in the directory that a path leads to, hidden ones only if they
are wanted. -/
def namesBelow (d : Disk) (above : Bytes) (hidden : Bool) : List Bytes :=
  match d.find (Session.pathOf (if above.isEmpty then ['.'] else above)) with
  | .ok (place, .directory) =>
    ((d.namesIn place).map Bytes.ofText).filter fun b => hidden || b.head? ≠ some '.'
  | _ => []

/-- The paths that the components of a pattern stand for, behind what leads to
them. -/
def pathsFor (d : Disk) : Bytes → List (List PatternChar) → List Bytes
  | above, [] => [above]
  | above, c :: rest =>
    let slash := if rest.isEmpty then [] else ['/']
    let p := Pattern.ofChars c
    if p.isActive then
      ((namesBelow d above (p.head? = some (.literal '.'))).filter p.accepts).flatMap fun name =>
        pathsFor d (above ++ name ++ slash) rest
    else pathsFor d (above ++ c.map (·.char) ++ slash) rest

/-- The words that a word stands for: the paths it describes, or itself if
there are none. -/
def paths (d : Disk) (word : List PatternChar) : List Bytes :=
  let found :=
    if (Pattern.ofChars word).isActive then
      (pathsFor d [] (atSlashes word)).filter fun b => (d.named? (Session.pathOf b)).isSome
    else []
  if found.isEmpty then [word.map (·.char)] else found

/-! ## Whole words -/

/-- The text of a word, which is not cut. -/
def expandText (substitute : Substitution) (s : Session) (w : Word) : Bytes × Session :=
  let (atoms, s) := expandWord substitute s w
  (Atom.text atoms, s)

/-- The pattern that a word writes. -/
def expandPattern (substitute : Substitution) (s : Session) (w : Word) : Pattern × Session :=
  let (atoms, s) := expandWord substitute s w
  (Atom.pattern atoms, s)

/-- **The words that come of words.** -/
def expandWords (substitute : Substitution) (s : Session) (ws : List Word) :
    List Bytes × Session :=
  ws.foldl (fun (found, s) w =>
    let (atoms, s) := expandWord substitute s w
    (found ++ (wordsOf s.separators atoms).flatMap (paths s.disk), s)) ([], s)

end IncrementalBuild.Shell
