import IncrementalBuild.Shell
import IncrementalBuild.Text.Numeral

/-!
# Formats

A format is text with escapes and with places for arguments. Each place says
how its argument is shown and how much room it takes. A format is used again
until no argument is left; places without an argument show nothing or zero.
-/

namespace IncrementalBuild.Shell.Format

/-! ## Escapes -/

def isOctal (c : Char) : Bool := '0' ≤ c && c ≤ '7'

/-- The byte that at most three octal digits in front write. -/
def readOctal (cs : Bytes) : Bytes × Bytes :=
  let digits := (cs.take 3).takeWhile isOctal
  ([Char.ofNat ((Text.number? 8 digits).getD 0 % 256)], cs.drop digits.length)

/-- What a backslash stands for with what is behind it. -/
def readEscape : Bytes → Bytes × Bytes
  | 'a' :: rest => (['\x07'], rest)
  | 'b' :: rest => (['\x08'], rest)
  | 'f' :: rest => (['\x0c'], rest)
  | 'n' :: rest => (['\n'], rest)
  | 'r' :: rest => (['\r'], rest)
  | 't' :: rest => (['\t'], rest)
  | 'v' :: rest => (['\x0b'], rest)
  | '\\' :: rest => (['\\'], rest)
  | c :: rest => if isOctal c then readOctal (c :: rest) else (['\\'], c :: rest)
  | [] => (['\\'], [])

/-- An argument with at most so many escapes read, and whether output goes on
after it. -/
def unescape : Nat → Bytes → Bytes × Bool
  | 0, cs => (cs, true)
  | _, [] => ([], true)
  | n + 1, '\\' :: rest =>
    match rest with
    | 'c' :: _ => ([], false)
    | _ =>
      let (b, rest) := match rest with
        | '0' :: digits => readOctal digits
        | _ => readEscape rest
      let (more, goesOn) := unescape n rest
      (b ++ more, goesOn)
  | n + 1, c :: rest =>
    let (more, goesOn) := unescape n rest
    (c :: more, goesOn)

/-- An argument with its escapes read, and whether output goes on after
it. -/
def escaped (b : Bytes) : Bytes × Bool := unescape b.length b

/-! ## Places -/

/-- How an argument is shown. -/
structure Place where
  /-- Whether it stands on the left of its room. -/
  leftward : Bool
  /-- Whether its room is filled with zeros. -/
  zeros : Bool
  /-- What stands in front of a number that has no other sign. -/
  sign : Bytes
  room : Nat
  precision : Option Nat
  conversion : Char

/-- The place behind a percent sign. -/
def readPlace (cs : Bytes) : Option (Place × Bytes) :=
  let flags := cs.takeWhile fun c => c = '-' || c = '0' || c = '+' || c = ' ' || c = '#'
  let cs := cs.drop flags.length
  let room := cs.takeWhile Char.isDigit
  let cs := cs.drop room.length
  let (precision, cs) := match cs with
    | '.' :: rest =>
      let digits := rest.takeWhile Char.isDigit
      (some ((Text.number? 10 digits).getD 0), rest.drop digits.length)
    | _ => (none, cs)
  match cs with
  | [] => none
  | c :: rest =>
    let sign := if flags.contains '+' then ['+'] else if flags.contains ' ' then [' '] else []
    some (⟨flags.contains '-', flags.contains '0', sign, (Text.number? 10 room).getD 0,
      precision, c⟩, rest)

/-- Some bytes in the room of a place. -/
def Place.fill (p : Place) (b : Bytes) : Bytes :=
  let blanks : Bytes := List.replicate (p.room - b.length) ' '
  if p.leftward then b ++ blanks else blanks ++ b

/-- The number that an argument writes, if it writes one. -/
def number? (b : Bytes) : Option Int :=
  let natural (cs : Bytes) : Option Nat := match cs with
    | [] => none
    | '0' :: 'x' :: rest => Text.number? 16 rest
    | '0' :: rest => Text.number? 8 rest
    | _ => Text.number? 10 cs
  match b with
  | [] => some 0
  | '-' :: rest => (natural rest).map fun n => -(n : Int)
  | '+' :: rest => (natural rest).map fun n => (n : Int)
  | ['\'', c] => some c.toNat
  | ['"', c] => some c.toNat
  | _ => (natural b).map fun n => (n : Int)

/-- The digits of a number as a conversion wants them, or nothing where it is
for no numbers. -/
def digits? (conversion : Char) (n : Int) : Option Bytes :=
  let word := (n % UInt64.size).toNat
  match conversion with
  | 'd' | 'i' => some (Nat.toDigits 10 n.natAbs)
  | 'u' => some (Nat.toDigits 10 word)
  | 'o' => some (Nat.toDigits 8 word)
  | 'x' => some (Nat.toDigits 16 word)
  | 'X' => some ((Nat.toDigits 16 word).map Char.toUpper)
  | _ => none

/-- A number in the room of a place, or nothing where the place is for no
numbers. -/
def Place.number? (p : Place) (n : Int) : Option Bytes :=
  (digits? p.conversion n).map fun digits =>
    let sign :=
      if p.conversion ≠ 'd' && p.conversion ≠ 'i' then [] else if n < 0 then ['-'] else p.sign
    let wide :=
      match p.precision with
      | some least => List.replicate (least - digits.length) '0' ++ digits
      | none =>
        if p.zeros && !p.leftward then
          List.replicate (p.room - sign.length - digits.length) '0' ++ digits
        else digits
    p.fill (sign ++ wide)

/-! ## Formatting -/

/-- What is wrong with a format or an argument. -/
inductive Fault where
  | noNumber (arg : Bytes)
  | noConversion (c : Char)
  | unfinished
  deriving DecidableEq

/-- Formatting that is under way. -/
structure Progress where
  output : Bytes
  args : List Bytes
  /-- Whether an argument was asked for. -/
  used : Bool
  goesOn : Bool
  faults : List Fault

/-- Shows the next argument at a place. -/
def Progress.showNext (s : Progress) (p : Place) : Progress :=
  if p.conversion = '%' then { s with output := s.output ++ ['%'] }
  else
    let arg := s.args.head?.getD []
    let s := { s with args := s.args.tail, used := true }
    let cut (b : Bytes) : Bytes := b.take (p.precision.getD b.length)
    match p.conversion with
    | 's' => { s with output := s.output ++ p.fill (cut arg) }
    | 'c' => { s with output := s.output ++ p.fill (arg.take 1) }
    | 'b' =>
      let (b, goesOn) := escaped arg
      { s with output := s.output ++ p.fill (cut b), goesOn }
    | c =>
      match p.number? ((number? arg).getD 0) with
      | none => { s with goesOn := false, faults := s.faults ++ [.noConversion c] }
      | some b =>
        { s with
          output := s.output ++ b
          faults := if (number? arg).isSome then s.faults else s.faults ++ [.noNumber arg] }

/-- Goes through a format of at most so many parts once. -/
def once : Nat → Bytes → Progress → Progress
  | 0, _, s => s
  | _, [], s => s
  | n + 1, '\\' :: rest, s =>
    let (b, rest) := readEscape rest
    once n rest { s with output := s.output ++ b }
  | n + 1, '%' :: rest, s =>
    match readPlace rest with
    | none => { s with goesOn := false, faults := s.faults ++ [.unfinished] }
    | some (p, rest) =>
      let s := s.showNext p
      if s.goesOn then once n rest s else s
  | n + 1, c :: rest, s => once n rest { s with output := s.output ++ [c] }

/-- Goes through a format again, at most so often, until no argument is
left. -/
def again (format : Bytes) : Nat → Progress → Progress
  | 0, s => s
  | n + 1, s =>
    if s.args.isEmpty || !s.used || !s.goesOn then s
    else again format n (once format.length format { s with used := false })

/-- **What a format shows of some arguments**, and what is wrong with them. -/
def apply (format : Bytes) (args : List Bytes) : Bytes × List Fault :=
  let s := again format args.length (once format.length format ⟨[], args, false, true, []⟩)
  (s.output, s.faults)

end IncrementalBuild.Shell.Format
