/-!
# Numerals

The number that ASCII digits write in a base of up to sixteen. The digits
beyond nine are letters, of either case.
-/

namespace IncrementalBuild.Text

/-- The value of a digit. -/
def digitValue? (c : Char) : Option Nat :=
  if '0' ≤ c ∧ c ≤ '9' then some (c.toNat - '0'.toNat)
  else if 'a' ≤ c ∧ c ≤ 'f' then some (c.toNat - 'a'.toNat + 10)
  else if 'A' ≤ c ∧ c ≤ 'F' then some (c.toNat - 'A'.toNat + 10)
  else none

/-- Whether a character is a digit of a base. -/
def isDigitOf (base : Nat) (c : Char) : Bool :=
  match digitValue? c with
  | some d => d < base
  | none => false

/-- **The number that digits write in a base**, if all of them are digits of
it. No digits at all write zero. -/
def number? (base : Nat) (cs : List Char) : Option Nat :=
  cs.foldlM (fun n c => if isDigitOf base c then (digitValue? c).map (base * n + ·) else none) 0

end IncrementalBuild.Text
