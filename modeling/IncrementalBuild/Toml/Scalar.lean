import IncrementalBuild.Text.Numeral
import IncrementalBuild.Toml

/-!
# Numbers, dates and times

What a value written without quotation marks stands for: a truth value, a
whole number in one of four bases, a number with a fraction or an exponent, or
a point in time. Digits may be grouped with single underscores, and a decimal
number has no leading zeros.
-/

namespace IncrementalBuild.Toml

/-! ## Numbers -/

/-- One digit or more, with single underscores between digits. -/
def isGrouped (isDigit : Char → Bool) : List Char → Bool
  | [] => false
  | [c] => isDigit c
  | c :: '_' :: rest => isDigit c && isGrouped isDigit rest
  | c :: rest => isDigit c && isGrouped isDigit rest

/-- The number that grouped digits write in a base. -/
def grouped? (base : Nat) (cs : List Char) : Option Nat :=
  if isGrouped (Text.isDigitOf base) cs then Text.number? base (cs.filter (· ≠ '_')) else none

/-- Whether digits write a whole number without leading zeros. -/
def isWhole (digits : List Char) : Bool :=
  isGrouped Char.isDigit digits && (digits.head? != some '0' || digits.length == 1)

/-- The sign of a number, and the characters after it. -/
def splitSign : List Char → Option Char × List Char
  | '+' :: rest => (some '+', rest)
  | '-' :: rest => (some '-', rest)
  | cs => (none, cs)

/-- Whether a whole number is not too far from zero to be written: one below
zero has 127 bits, any other one has 128. -/
def fitsInteger (n : Int) : Bool :=
  if n < 0 then n.natAbs ≤ Nat.pow 2 127 else n.natAbs < Nat.pow 2 128

/-- The whole number that characters write. -/
def integer? (cs : List Char) : Option Int :=
  match cs with
  | '0' :: 'x' :: digits => (grouped? 16 digits).map Int.ofNat
  | '0' :: 'o' :: digits => (grouped? 8 digits).map Int.ofNat
  | '0' :: 'b' :: digits => (grouped? 2 digits).map Int.ofNat
  | _ =>
    let (sign, digits) := splitSign cs
    if isWhole digits then
      (grouped? 10 digits).map fun n => if sign = some '-' then -(n : Int) else n
    else none

/-- The whole number that characters write, if it is not too far from zero. -/
def boundedInteger? (cs : List Char) : Option Int :=
  (integer? cs).filter fitsInteger

/-- The exponent that characters write, after its letter. -/
def exponent? (cs : List Char) : Option Int :=
  let (sign, digits) := splitSign cs
  (grouped? 10 digits).map fun n => if sign = some '-' then -(n : Int) else n

/-- Whether a character begins an exponent. -/
def isExponentMark (c : Char) : Bool := c == 'e' || c == 'E'

/-- The numbers `m` and `e` for which characters write `m` times the `e`-th
power of ten, with a fraction, with an exponent or with both. -/
def decimal? (cs : List Char) : Option (Nat × Int) :=
  let whole := cs.takeWhile fun c => c.isDigit || c == '_'
  if isWhole whole then
    match cs.drop whole.length with
    | [] => none
    | c :: rest =>
      if c = '.' then
        let fraction := rest.takeWhile fun c => !isExponentMark c
        let places := (fraction.filter (· ≠ '_')).length
        match grouped? 10 fraction, grouped? 10 (whole ++ fraction), rest.drop fraction.length with
        | some _, some m, [] => some (m, -places)
        | some _, some m, _ :: digits => (exponent? digits).map fun e => (m, e - places)
        | _, _, _ => none
      else if isExponentMark c then do return (← grouped? 10 whole, ← exponent? rest)
      else none
  else none

/-- The least whole number that is too great for a floating-point number of
sixty-four bits: half a unit above the greatest one. -/
def floatBound : Nat := Nat.pow 2 1024 - Nat.pow 2 970

/-- Whether `m` times the `e`-th power of ten is not too great for a
floating-point number. How many digits it has before the point decides unless
these are about as many as those of the bound. -/
def fitsFloat (m : Nat) (e : Int) : Bool :=
  let size := ((Nat.toDigits 10 m).length : Int) + e
  if m = 0 || size < 300 then true
  else if 310 < size then false
  else if 0 ≤ e then m * Nat.pow 10 e.toNat < floatBound
  else m < floatBound * Nat.pow 10 (-e).toNat

/-- Whether characters write a floating-point number, by digits or as one of
the two that no digits write. -/
def isFloat (cs : List Char) : Bool :=
  let body := (splitSign cs).2
  body == "inf".toList || body == "nan".toList ||
    match decimal? body with
    | some (m, e) => fitsFloat m e
    | none => false

/-! ## Points in time -/

/-- A number of so many decimal digits, and the characters after it. -/
def digits? (count : Nat) (cs : List Char) : Option (Nat × List Char) :=
  if cs.length < count then none
  else (Text.number? 10 (cs.take count)).map (·, cs.drop count)

/-- The number of days in a month. -/
def daysIn (year month : Nat) : Nat :=
  if month = 2 then
    if year % 4 = 0 && (year % 100 ≠ 0 || year % 400 = 0) then 29 else 28
  else if month = 4 || month = 6 || month = 9 || month = 11 then 30
  else 31

/-- Passes over a date. -/
def afterDate? (cs : List Char) : Option (List Char) := do
  let (year, cs) ← digits? 4 cs
  let '-' :: cs := cs | none
  let (month, cs) ← digits? 2 cs
  let '-' :: cs := cs | none
  let (day, cs) ← digits? 2 cs
  if 1 ≤ month && month ≤ 12 && 1 ≤ day && day ≤ daysIn year month then some cs else none

/-- Passes over the fraction of a second, if there is one. -/
def afterFraction? : List Char → Option (List Char)
  | '.' :: c :: rest => if c.isDigit then some (rest.dropWhile Char.isDigit) else none
  | '.' :: [] => none
  | cs => some cs

/-- Passes over a time of day. The seconds may be left out. -/
def afterTime? (cs : List Char) : Option (List Char) := do
  let (hour, cs) ← digits? 2 cs
  let ':' :: cs := cs | none
  let (minute, cs) ← digits? 2 cs
  if 23 < hour || 59 < minute then none
  else
    match cs with
    | ':' :: cs => do
      let (second, cs) ← digits? 2 cs
      if 60 < second then none else afterFraction? cs
    | cs => some cs

/-- Whether characters say nothing, or how far the time is from the world's. -/
def isOffset (cs : List Char) : Bool :=
  match cs with
  | [] => true
  | [c] => c == 'Z' || c == 'z'
  | sign :: rest =>
    (sign == '+' || sign == '-') &&
      match digits? 2 rest with
      | some (hour, ':' :: rest) =>
        match digits? 2 rest with
        | some (minute, []) => hour ≤ 23 && minute ≤ 59
        | _ => false
      | _ => false

/-- Whether characters are a date, a time of day, or both. -/
def isMoment (cs : List Char) : Bool :=
  match afterDate? cs with
  | some [] => true
  | some (c :: rest) =>
    (c == 'T' || c == 't' || c == ' ') &&
      match afterTime? rest with
      | some rest => isOffset rest
      | none => false
  | none => afterTime? cs == some []

/-! ## All of them -/

/-- A character of a value without quotation marks. -/
def isScalarChar (c : Char) : Bool :=
  c.isAlphanum || c == '+' || c == '-' || c == '_' || c == '.' || c == ':'

/-- **The value that characters write without quotation marks.** -/
def scalar? (cs : List Char) : Option Value :=
  if cs = "true".toList then some (.bool true)
  else if cs = "false".toList then some (.bool false)
  else
    match boundedInteger? cs with
    | some n => some (.integer n)
    | none =>
      if isFloat cs then some (.float (String.ofList cs))
      else if isMoment cs then some (.moment (String.ofList cs))
      else none

/-- A value without quotation marks, and the characters after it. A date and a
time of day may have a blank between them. -/
def readScalar (cs : List Char) : Option (Value × List Char) :=
  let word := cs.takeWhile isScalarChar
  match cs.drop word.length with
  | ' ' :: c :: rest =>
    if c.isDigit && afterDate? word == some [] then
      let time := (c :: rest).takeWhile isScalarChar
      (scalar? (word ++ ' ' :: time)).map (·, (c :: rest).drop time.length)
    else (scalar? word).map (·, ' ' :: c :: rest)
  | rest => (scalar? word).map (·, rest)

end IncrementalBuild.Toml
