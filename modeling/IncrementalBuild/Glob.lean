/-!
# Glob patterns

A glob pattern describes file paths. It is a sequence of tokens, each of
which takes some bytes of the path, and it matches a path when its tokens can
take the whole of it. A `*` and a `?` take slashes like any other byte; a `**`
between slashes stands for any number of directories.

A pattern is matched by following all ways to take the path at once: the
places that the tokens so far can lead to are kept as one mark for each place
between two bytes, and every token moves the marks. So matching takes time in
proportion to the lengths of the pattern and of the path.
-/

namespace IncrementalBuild

/-- One part of a glob pattern. -/
inductive GlobToken where
  | literal (c : Char)
  /-- A `?`: one byte. -/
  | anyByte
  /-- A `*`: any bytes. -/
  | anyBytes
  /-- A `**` in front: any number of directories, or none. -/
  | directoriesBefore
  /-- A `**` between slashes, which it includes. -/
  | directoriesBetween
  /-- A `**` at the end, with the slash before it: everything below. -/
  | everythingBelow
  /-- One byte of a set, or one that is not in it. -/
  | oneOf (negated : Bool) (ranges : List (Char × Char))
  /-- One of several sequences of tokens. -/
  | choice (branches : List (List GlobToken))

/-- **A glob pattern.** -/
structure Glob where
  tokens : List GlobToken

namespace Glob

/-! ## Marks -/

/-- The places in a path that are reached, from before its first byte to
after its last. -/
abbrev Marks := List Bool

/-- Moves every mark over one byte that passes a test. -/
def Marks.step (test : UInt8 → Bool) (path : List UInt8) (m : Marks) : Marks :=
  false :: List.zipWith (fun b marked => marked && test b) path m

/-- Moves every mark over any number of bytes, where `reached` says whether a
place before is marked. -/
def Marks.spreadFrom (reached : Bool) : Marks → Marks
  | [] => []
  | marked :: rest => (reached || marked) :: spreadFrom (reached || marked) rest

/-- Moves every mark over any number of bytes. -/
def Marks.spread (m : Marks) : Marks := spreadFrom false m

/-- The marks of both. -/
def Marks.or (m n : Marks) : Marks := List.zipWith (· || ·) m n

/-- Moves every mark over one slash. -/
def Marks.slash (path : List UInt8) (m : Marks) : Marks :=
  m.step (· == '/'.toUInt8) path

/-! ## Sets of bytes -/

/-- The bytes of a character. -/
def bytesOf (c : Char) : List UInt8 := (String.singleton c).toUTF8.data.toList

/-- The ranges of bytes that a range of characters stands for. The characters
are taken byte by byte, so the range itself lies between the last byte of the
first and the first byte of the last. -/
def byteRanges (r : Char × Char) : List (UInt8 × UInt8) :=
  let single (bytes : List UInt8) : List (UInt8 × UInt8) := bytes.map fun b => (b, b)
  if r.1 = r.2 then single (bytesOf r.1)
  else
    match (bytesOf r.1).getLast?, bytesOf r.2 with
    | some low, high :: rest => single (bytesOf r.1).dropLast ++ (low, high) :: single rest
    | _, _ => []

/-- Whether a byte is in a set. -/
def inRanges (ranges : List (Char × Char)) (b : UInt8) : Bool :=
  (ranges.flatMap byteRanges).any fun (low, high) => low ≤ b && b ≤ high

/-! ## Matching -/

mutual

/-- Whether a token takes nothing whatever the path, since none of its
branches holds anything. -/
def isSilent : GlobToken → Bool
  | .choice branches => allSilent branches
  | _ => false

/-- Whether every sequence of some is silent. -/
def allSilent : List (List GlobToken) → Bool
  | [] => true
  | branch :: rest => isSilentSequence branch && allSilent rest

/-- Whether all tokens of a sequence are silent. -/
def isSilentSequence : List GlobToken → Bool
  | [] => true
  | t :: rest => isSilent t && isSilentSequence rest

end

mutual

/-- Moves the marks over a token. -/
def moveToken (path : List UInt8) (m : Marks) : GlobToken → Marks
  | .literal c => (bytesOf c).foldl (fun m b => m.step (· == b) path) m
  | .anyByte => m.step (fun _ => true) path
  | .anyBytes => m.spread
  | .directoriesBefore => m.or (m.spread.slash path)
  | .directoriesBetween =>
    let below := m.slash path
    below.or (below.spread.slash path)
  | .everythingBelow => (m.slash path).spread
  | .oneOf negated ranges => m.step (fun b => inRanges ranges b != negated) path
  | .choice branches =>
    if allSilent branches then m else moveChoice path m branches

/-- Moves the marks over one of several sequences. A silent one is no
choice. -/
def moveChoice (path : List UInt8) (m : Marks) : List (List GlobToken) → Marks
  | [] => m.map (fun _ => false)
  | branch :: rest =>
    let others := moveChoice path m rest
    if isSilentSequence branch then others
    else (moveTokens path m branch).or others

/-- Moves the marks over a sequence of tokens. -/
def moveTokens (path : List UInt8) (m : Marks) : List GlobToken → Marks
  | [] => m
  | t :: rest => moveTokens path (moveToken path m t) rest

end

/-- Whether the pattern is a `**` and nothing else, which matches every
path. -/
def isEverything (g : Glob) : Bool :=
  match g.tokens with
  | [.directoriesBefore] => true
  | _ => false

/-- **Whether the pattern matches a path.** -/
def accepts (g : Glob) (path : String) : Bool :=
  let bytes := path.toUTF8.data.toList
  g.isEverything
    || (moveTokens bytes (true :: bytes.map (fun _ => false)) g.tokens).getLast? == some true

end Glob

end IncrementalBuild
