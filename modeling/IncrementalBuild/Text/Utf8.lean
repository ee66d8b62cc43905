/-!
# UTF-8

Bytes are read as text in two ways: strictly, where the first fault is
reported with its place, and leniently, where every stretch of bytes that
cannot belong to a character becomes one replacement character.

A fault names the longest beginning of a character that the bytes show: a
byte that can begin none counts one, a byte that may not follow ends the
stretch before it, and bytes that stop inside a character are *incomplete*.
-/

namespace IncrementalBuild.Text.Utf8

/-- Why bytes are not UTF-8, and where. -/
inductive Fault where
  /-- The bytes from `start` on begin no character, and `length` of them
  belong together. -/
  | invalid (start length : Nat)
  /-- The bytes end inside the character that begins at `start`. -/
  | incomplete (start : Nat)
  deriving DecidableEq

/-- The text of a fault. -/
def Fault.message : Fault → String
  | invalid start length =>
    s!"invalid utf-8 sequence of {length} bytes from index {start}"
  | incomplete start => s!"incomplete utf-8 byte sequence from index {start}"

/-- What stands at the front of some bytes. -/
inductive Front where
  /-- A character of so many bytes. -/
  | char (c : Char) (length : Nat)
  /-- So many bytes that belong to no character. -/
  | invalid (length : Nat)
  /-- The beginning of a character, and then the end. -/
  | incomplete
  deriving DecidableEq

/-- The continuation bytes that a character's first byte calls for: how many,
and the least and greatest value of the first of them. None for a byte that
begins no character of several bytes. -/
def continuation? (b : UInt8) : Option (Nat × UInt8 × UInt8) :=
  if 0xC2 ≤ b ∧ b ≤ 0xDF then some (1, 0x80, 0xBF)
  else if b = 0xE0 then some (2, 0xA0, 0xBF)
  else if b = 0xED then some (2, 0x80, 0x9F)
  else if 0xE1 ≤ b ∧ b ≤ 0xEF then some (2, 0x80, 0xBF)
  else if b = 0xF0 then some (3, 0x90, 0xBF)
  else if b = 0xF4 then some (3, 0x80, 0x8F)
  else if 0xF1 ≤ b ∧ b ≤ 0xF3 then some (3, 0x80, 0xBF)
  else none

/-- Reads `count` continuation bytes onto the value read so far; `seen` bytes
came before, and the first of the rest must lie between `low` and `high`. -/
def readTail (count seen value : Nat) (low high : UInt8) (bytes : List UInt8) : Front :=
  match count, bytes with
  | 0, _ => .char (Char.ofNat value) seen
  | _ + 1, [] => .incomplete
  | n + 1, b :: rest =>
    if low ≤ b ∧ b ≤ high then
      readTail n (seen + 1) (value * 64 + (b.toNat - 0x80)) 0x80 0xBF rest
    else .invalid seen

/-- What stands at the front of a byte and those after it. -/
def front (b : UInt8) (rest : List UInt8) : Front :=
  if b < 0x80 then .char (Char.ofNat b.toNat) 1
  else
    match continuation? b with
    | none => .invalid 1
    | some (count, low, high) =>
      readTail count 1 (b.toNat % Nat.pow 2 (6 - count)) low high rest

/-- The first fault of some bytes, the first of which has the given index. -/
def firstFault (index : Nat) : List UInt8 → Option Fault
  | [] => none
  | b :: rest =>
    match front b rest with
    | .char _ length => firstFault (index + length) (rest.drop (length - 1))
    | .invalid length => some (.invalid index length)
    | .incomplete => some (.incomplete index)
  termination_by bytes => bytes.length
  decreasing_by simp only [List.length_cons, List.length_drop]; omega

/-- **Strict reading.** -/
def decode (bytes : ByteArray) : Except Fault String :=
  match String.fromUTF8? bytes with
  | some text => .ok text
  | none => .error ((firstFault 0 bytes.data.toList).getD (.incomplete 0))

/-- The characters of some bytes, faults replaced. -/
def lenientChars : List UInt8 → List Char
  | [] => []
  | b :: rest =>
    match front b rest with
    | .char c length => c :: lenientChars (rest.drop (length - 1))
    | .invalid length => Char.ofNat 0xFFFD :: lenientChars (rest.drop (length - 1))
    | .incomplete => [Char.ofNat 0xFFFD]
  termination_by bytes => bytes.length
  decreasing_by all_goals (simp only [List.length_cons, List.length_drop]; omega)

/-- **Lenient reading.** -/
def decodeLenient (bytes : ByteArray) : String :=
  String.ofList (lenientChars bytes.data.toList)

/-- What was written as UTF-8 is read back. -/
theorem decode_toUTF8 (s : String) : decode s.toUTF8 = .ok s := by
  unfold decode
  have h : String.fromUTF8? s.toUTF8 = some s := by
    simp [String.fromUTF8?, String.toUTF8, s.isValidUTF8, String.fromUTF8]
  rw [h]

end IncrementalBuild.Text.Utf8
