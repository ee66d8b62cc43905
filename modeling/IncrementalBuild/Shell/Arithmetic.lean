import IncrementalBuild.Shell.Token
import IncrementalBuild.Text.Numeral

/-!
# Arithmetic

The expressions that a script calculates with: whole numbers and names of
variables, the operators from `||`, which binds most loosely, to the signs,
and parentheses. A comparison gives one or zero.
-/

namespace IncrementalBuild.Shell.Arithmetic

/-- A part of an expression. -/
inductive Token where
  | number (n : Int)
  | name (b : Bytes)
  | operator (text : String)
  deriving DecidableEq

/-- The operators, longer ones before those they begin with. -/
def operators : List String :=
  ["||", "&&", "==", "!=", "<=", ">=", "<<", ">>", "|", "^", "&", "<", ">", "+", "-", "*", "/",
    "%", "!", "~", "(", ")"]

/-- The number that digits write; a zero in front makes them octal, and `0x`
hexadecimal. -/
def literal? (b : Bytes) : Option Nat :=
  match b with
  | '0' :: 'x' :: rest => Text.number? 16 rest
  | '0' :: rest => Text.number? 8 rest
  | _ => Text.number? 10 b

/-- At most so many parts of an expression. -/
def tokens? : Nat → Bytes → Option (List Token)
  | 0, _ => none
  | _, [] => some []
  | n + 1, c :: rest =>
    if isSpace c || c = '\n' then tokens? n rest
    else if isNameChar c then
      let run := (c :: rest).takeWhile isNameChar
      let token := if c.isDigit then (literal? run).map fun k => .number k else some (.name run)
      do return (← token) :: (← tokens? n ((c :: rest).drop run.length))
    else
      match operators.find? (·.toList.isPrefixOf (c :: rest)) with
      | some o => (tokens? n ((c :: rest).drop o.length)).map (.operator o :: ·)
      | none => none

/-- The operators by how they bind, the loosest first. -/
def levels : List (List String) :=
  [["||"], ["&&"], ["|"], ["^"], ["&"], ["==", "!="], ["<=", ">=", "<", ">"], ["<<", ">>"],
    ["+", "-"], ["*", "/", "%"]]

/-- The truth of a condition as a number. -/
def ofBool (b : Bool) : Int := if b then 1 else 0

/-- A number in sixty-four bits, one of which is the sign. -/
def wrap (n : Int) : Int := n.bmod UInt64.size

/-- The bits of two numbers, combined. -/
def onBits (f : Nat → Nat → Nat) (m n : Int) : Int :=
  wrap (f (m % UInt64.size).toNat (n % UInt64.size).toNat)

/-- What an operator makes of two numbers. Nothing comes of a division by
zero. -/
def result? (operator : String) (m n : Int) : Option Int :=
  match operator with
  | "||" => some (ofBool (m ≠ 0 || n ≠ 0))
  | "&&" => some (ofBool (m ≠ 0 && n ≠ 0))
  | "|" => some (onBits Nat.lor m n)
  | "^" => some (onBits Nat.xor m n)
  | "&" => some (onBits Nat.land m n)
  | "==" => some (ofBool (m = n))
  | "!=" => some (ofBool (m ≠ n))
  | "<=" => some (ofBool (m ≤ n))
  | ">=" => some (ofBool (n ≤ m))
  | "<" => some (ofBool (m < n))
  | ">" => some (ofBool (n < m))
  | "<<" => some (wrap (m * Nat.pow 2 (n % 64).toNat))
  | ">>" => some (m >>> (n % 64).toNat)
  | "+" => some (wrap (m + n))
  | "-" => some (wrap (m - n))
  | "*" => some (wrap (m * n))
  | "/" => if n = 0 then none else some (wrap (m.tdiv n))
  | "%" => if n = 0 then none else some (m.tmod n)
  | _ => none

/-- What is still to be read of an expression, behind the value of its
beginning. -/
abbrev Parsed := Option (Int × List Token)

/-- Reads a sign, a number, a variable or parentheses, where `inside` reads
what stands between those. -/
def readOperand (value : Bytes → Option Int) (inside : List Token → Parsed) :
    List Token → Parsed
  | .number n :: rest => some (n, rest)
  | .name b :: rest => (value b).map fun n => (n, rest)
  | .operator "(" :: rest =>
    match inside rest with
    | some (n, .operator ")" :: rest) => some (n, rest)
    | _ => none
  | .operator "-" :: rest =>
    (readOperand value inside rest).map fun (n, rest) => (wrap (-n), rest)
  | .operator "+" :: rest => readOperand value inside rest
  | .operator "!" :: rest =>
    (readOperand value inside rest).map fun (n, rest) => (ofBool (n = 0), rest)
  | .operator "~" :: rest =>
    (readOperand value inside rest).map fun (n, rest) => (-n - 1, rest)
  | _ => none

/-- Goes on with at most so many operands behind a value, as long as operators
of one level stand between them. -/
def readChain (operand : List Token → Parsed) (level : List String) :
    Nat → Int → List Token → Parsed
  | n + 1, m, .operator o :: rest =>
    if level.contains o then do
      let (k, rest) ← operand rest
      readChain operand level n (← result? o m k) rest
    else some (m, .operator o :: rest)
  | _, m, rest => some (m, rest)

/-- Reads an expression of some levels. -/
def readLevels (operand : List Token → Parsed) : List (List String) → List Token → Parsed
  | [], ts => operand ts
  | level :: tighter, ts => do
    let (m, rest) ← readLevels operand tighter ts
    readChain (readLevels operand tighter) level ts.length m rest

/-- Reads an expression with parentheses nested at most so deep. -/
def readExpression (value : Bytes → Option Int) : Nat → List Token → Parsed
  | 0, _ => none
  | n + 1, ts => readLevels (readOperand value (readExpression value n)) levels ts

/-- **The value of an expression**, where `value` gives the values of
variables. An empty expression is zero. -/
def evaluate? (value : Bytes → Option Int) (b : Bytes) : Option Int :=
  match tokens? (b.length + 1) b with
  | none => none
  | some [] => some 0
  | some ts =>
    match readExpression value (ts.length + 1) ts with
    | some (n, []) => some n
    | _ => none

end IncrementalBuild.Shell.Arithmetic
