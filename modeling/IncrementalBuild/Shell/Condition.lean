import IncrementalBuild.Shell.Session
import IncrementalBuild.Text.Numeral

/-!
# Conditions

The conditions that a script can test: of one word, whether it is empty or
what it names on the disk; of two words, how they compare as texts or as
numbers; and what is composed of such conditions. How many words there are
decides how they are read.
-/

namespace IncrementalBuild.Shell.Condition

/-- The number that a word writes. -/
def number? (b : Bytes) : Option Int :=
  let digits (cs : Bytes) : Option Nat := if cs.isEmpty then none else Text.number? 10 cs
  match b with
  | '-' :: rest => (digits rest).map fun n => -(n : Int)
  | '+' :: rest => (digits rest).map fun n => (n : Int)
  | _ => (digits b).map fun n => (n : Int)

/-- A condition on one word. -/
def unary? (d : Disk) (operator : String) (word : Bytes) : Option Bool :=
  let named := d.named? (Session.pathOf word)
  match operator with
  | "-n" => some !word.isEmpty
  | "-z" => some word.isEmpty
  | "-e" | "-r" | "-w" => some (named.isSome || word = Session.nullFile)
  | "-f" => some (match named with
    | some (.file _ _) => true
    | _ => false)
  | "-d" => some (named.any DiskEntry.isDirectory)
  | "-x" => some (match named with
    | some (.file _ executable) => executable
    | some .directory => true
    | none => false)
  | "-s" => some (match named with
    | some (.file content _) => content.size ≠ 0
    | some .directory => true
    | none => false)
  | "-h" | "-L" | "-t" | "-p" | "-S" | "-b" | "-c" => some false
  | _ => none

/-- How numbers are compared by an operator. -/
def comparison? (operator : String) : Option (Int → Int → Bool) :=
  match operator with
  | "-eq" => some fun m n => m == n
  | "-ne" => some fun m n => m != n
  | "-lt" => some fun m n => m < n
  | "-le" => some fun m n => m ≤ n
  | "-gt" => some fun m n => n < m
  | "-ge" => some fun m n => n ≤ m
  | _ => none

/-- A condition on two words, or why it is none. -/
def binary? (left : Bytes) (operator : String) (right : Bytes) :
    Option (Except String Bool) :=
  match operator with
  | "=" => some (.ok (left = right))
  | "!=" => some (.ok (left ≠ right))
  | "<" => some (.ok (left < right))
  | ">" => some (.ok (right < left))
  | _ => (comparison? operator).map fun compare =>
    match number? left, number? right with
    | some m, some n => .ok (compare m n)
    | none, _ => .error s!"Illegal number: {left.shown}"
    | _, none => .error s!"Illegal number: {right.shown}"

/-- Words cut at the first one that is an operator. -/
def cutAt? (operator : String) (words : List Bytes) : Option (List Bytes × List Bytes) :=
  match words.span (·.shown ≠ operator) with
  | (before, _ :: after) => some (before, after)
  | (_, []) => none

/-- Whether words hold as a condition of at most so many parts, or why they
are none. -/
def evaluate (d : Disk) : Nat → List Bytes → Except String Bool
  | 0, _ => .error "too many arguments"
  | n + 1, words =>
    let composed : Except String Bool :=
      match cutAt? "-o" words, cutAt? "-a" words with
      | some (first, second), _ => do
        let a ← evaluate d n first
        let b ← evaluate d n second
        return a || b
      | none, some (first, second) => do
        let a ← evaluate d n first
        let b ← evaluate d n second
        return a && b
      | none, none =>
        match words with
        | ['!'] :: rest => (evaluate d n rest).map (!·)
        | _ =>
          let second : Bytes := words.getD 1 []
          .error s!"{second.shown}: unexpected operator"
    match words with
    | [] => .ok false
    | [word] => .ok !word.isEmpty
    | [first, word] =>
      if first = ['!'] then .ok word.isEmpty
      else
        match unary? d first.shown word with
        | some holds => .ok holds
        | none => .error s!"{first.shown}: unexpected operator"
    | [left, operator, right] =>
      match binary? left operator.shown right with
      | some result => result
      | none =>
        if left = ['('] && right = [')'] then evaluate d n [operator] else composed
    | _ => composed

/-- **Whether words hold as a condition**, or why they are none. -/
def holds (d : Disk) (words : List Bytes) : Except String Bool :=
  evaluate d (words.length + 1) words

end IncrementalBuild.Shell.Condition
