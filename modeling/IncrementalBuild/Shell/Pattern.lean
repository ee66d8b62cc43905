import IncrementalBuild.Shell

/-!
# Patterns of a script

A pattern describes words: a `*` stands for any characters, a `?` for one, and
characters between brackets for one of them. What was quoted stands for
itself. Patterns choose among the cases of a statement, and they cut
beginnings and ends off values.
-/

namespace IncrementalBuild.Shell

/-- A character of a word, and whether it was quoted. -/
structure PatternChar where
  quoted : Bool
  char : Char
  deriving DecidableEq

/-- One part of a pattern. -/
inductive PatternPart where
  | literal (c : Char)
  | anyChar
  | anyChars
  /-- One character of some ranges, or one of none of them. -/
  | oneOf (negated : Bool) (ranges : List (Char × Char))
  deriving DecidableEq

/-- **A pattern.** -/
abbrev Pattern := List PatternPart

namespace Pattern

/-! ## Reading -/

/-- The ranges up to a closing bracket, which stands for itself where it comes
first, and what follows. -/
def readRanges (first : Bool) :
    List PatternChar → Option (List (Char × Char) × List PatternChar)
  | [] => none
  | c :: rest =>
    if c = ⟨false, ']'⟩ && !first then some ([], rest)
    else
      let single : Option (List (Char × Char) × List PatternChar) :=
        (readRanges false rest).map fun (rs, rest) => ((c.char, c.char) :: rs, rest)
      match rest with
      | ⟨false, '-'⟩ :: high :: rest =>
        if high = ⟨false, ']'⟩ then single
        else (readRanges false rest).map fun (rs, rest) => ((c.char, high.char) :: rs, rest)
      | _ => single

/-- What stands behind an opening bracket, if it is closed. -/
def readSet : List PatternChar → Option (PatternPart × List PatternChar)
  | ⟨false, '!'⟩ :: rest => (readRanges true rest).map fun (rs, rest) => (.oneOf true rs, rest)
  | ⟨false, '^'⟩ :: rest => (readRanges true rest).map fun (rs, rest) => (.oneOf true rs, rest)
  | rest => (readRanges true rest).map fun (rs, rest) => (.oneOf false rs, rest)

/-- At most so many parts of a pattern. -/
def readParts : Nat → List PatternChar → Pattern
  | 0, _ => []
  | _ + 1, [] => []
  | n + 1, ⟨false, '*'⟩ :: rest => .anyChars :: readParts n rest
  | n + 1, ⟨false, '?'⟩ :: rest => .anyChar :: readParts n rest
  | n + 1, ⟨false, '['⟩ :: rest =>
    match readSet rest with
    | some (set, rest) => set :: readParts n rest
    | none => .literal '[' :: readParts n rest
  | n + 1, c :: rest => .literal c.char :: readParts n rest

/-- **The pattern that characters write.** -/
def ofChars (cs : List PatternChar) : Pattern := readParts cs.length cs

/-- Whether a pattern stands for more than one word. -/
def isActive (p : Pattern) : Bool := p.any fun
  | .literal _ => false
  | _ => true

/-! ## Matching -/

/-- The lengths of the beginnings of a word, the shortest first. -/
def cuts (b : Bytes) : List Nat := List.range (b.length + 1)

/-- **Whether a pattern stands for a whole word.** -/
def accepts : Pattern → Bytes → Bool
  | [], b => b.isEmpty
  | .anyChars :: p, b => (cuts b).any fun n => accepts p (b.drop n)
  | .literal c :: p, b =>
    match b with
    | [] => false
    | d :: b => c == d && accepts p b
  | .anyChar :: p, b =>
    match b with
    | [] => false
    | _ :: b => accepts p b
  | .oneOf negated ranges :: p, b =>
    match b with
    | [] => false
    | d :: b => (negated != ranges.any fun (low, high) => low ≤ d && d ≤ high) && accepts p b

/-! ## Cutting -/

/-- A word without a beginning that a pattern stands for: the longest one, or
else the shortest. -/
def cutFront (p : Pattern) (longest : Bool) (b : Bytes) : Bytes :=
  let order := if longest then (cuts b).reverse else cuts b
  match order.find? fun n => p.accepts (b.take n) with
  | some n => b.drop n
  | none => b

/-- A word without an end that a pattern stands for: the longest one, or else
the shortest. -/
def cutBack (p : Pattern) (longest : Bool) (b : Bytes) : Bytes :=
  let order := if longest then cuts b else (cuts b).reverse
  match order.find? fun n => p.accepts (b.drop n) with
  | some n => b.take n
  | none => b

end Pattern

end IncrementalBuild.Shell
