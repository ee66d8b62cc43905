import IncrementalBuild.Glob

/-!
# Reading glob patterns

A pattern is read character by character. Between `{` and `}` stand branches,
separated by commas, and such a group may stand inside another. A `**` is
special only where it fills a component: between slashes, or at the beginning
or the end of the pattern or of a branch. Anywhere else it is two `*`.
-/

namespace IncrementalBuild

/-- What is wrong with a glob pattern. -/
inductive GlobFault where
  | unclosedSet
  | invalidRange (first last : Char)
  | unopenedGroup
  | unclosedGroup
  | danglingEscape
  deriving DecidableEq

/-- The text of a fault. -/
def GlobFault.message : GlobFault → String
  | unclosedSet => "unclosed character class; missing ']'"
  | invalidRange first last =>
    "invalid range; '" ++ String.singleton first ++ "' > '" ++ String.singleton last ++ "'"
  | unopenedGroup =>
    "unopened alternate group; missing '\x7b' (maybe escape '\x7d' with '[\x7d]'?)"
  | unclosedGroup =>
    "unclosed alternate group; missing '\x7d' (maybe escape '\x7b' with '[\x7b]'?)"
  | danglingEscape => "dangling '\\'"

/-- A pattern that is none, and why. -/
structure GlobError where
  pattern : String
  fault : GlobFault

/-- The text of a refused pattern. -/
def GlobError.message (e : GlobError) : String :=
  "error parsing glob '" ++ e.pattern ++ "': " ++ e.fault.message

namespace Glob

/-- A set of characters that is being read. -/
structure SetReader where
  negated : Bool
  /-- The ranges so far, the last one first. -/
  ranges : List (Char × Char)
  /-- Whether a hyphen waits for the end of the last range. -/
  inRange : Bool
  /-- Whether nothing was read that belongs to the set. -/
  isFirst : Bool

namespace SetReader

/-- The beginning of a set, which may negate it. -/
def ofFront : List Char → SetReader × List Char
  | c :: rest =>
    if c = '!' || c = '^' then (⟨true, [], false, true⟩, rest)
    else (⟨false, [], false, true⟩, c :: rest)
  | [] => (⟨false, [], false, true⟩, [])

/-- Reads a character as itself, or as the end of the last range. -/
def add (s : SetReader) (c : Char) : Except GlobFault SetReader :=
  match s.inRange, s.ranges with
  | true, (first, _) :: before =>
    if c < first then .error (.invalidRange first c)
    else .ok { s with ranges := (first, c) :: before, inRange := false, isFirst := false }
  | _, ranges => .ok { s with ranges := (c, c) :: ranges, inRange := false, isFirst := false }

/-- The set that was read. A hyphen that waits in vain is one itself. -/
def token (s : SetReader) : GlobToken :=
  .oneOf s.negated (if s.inRange then ('-', '-') :: s.ranges else s.ranges).reverse

/-- Reads a set to its end, with the characters after it. -/
def readOn (s : SetReader) : List Char → Except GlobFault (GlobToken × List Char)
  | [] => .error .unclosedSet
  | c :: rest =>
    if c = ']' && !s.isFirst then .ok (s.token, rest)
    else if c = '-' && !s.isFirst && !s.inRange then readOn { s with inRange := true } rest
    else
      match s.add c with
      | .error e => .error e
      | .ok s => readOn s rest

/-- **Reading a set takes characters away**, at least the one that ends
it. -/
theorem length_lt_of_readOn {s : SetReader} {cs rest : List Char} {t : GlobToken}
    (h : s.readOn cs = .ok (t, rest)) : rest.length < cs.length := by
  induction cs generalizing s with
  | nil => simp [readOn] at h
  | cons c cs ih =>
    unfold readOn at h
    split at h
    · simp only [Except.ok.injEq, Prod.mk.injEq] at h
      rw [← h.2]; simp
    · split at h
      · exact Nat.lt_succ_of_lt (ih h)
      · split at h
        · simp at h
        · exact Nat.lt_succ_of_lt (ih h)

/-- The beginning of a set takes no characters that are not there. -/
theorem length_ofFront_le (cs : List Char) : (ofFront cs).2.length ≤ cs.length := by
  unfold ofFront
  split
  · split <;> simp
  · simp

end SetReader

/-- A group that is being read. -/
structure OpenGroup where
  /-- The tokens before the group, the last one first. -/
  before : List GlobToken
  /-- The branches that have ended, the last one first. -/
  branches : List (List GlobToken)

/-- A pattern that is being read. -/
structure Reader where
  /-- The tokens of the branch so far, the last one first. -/
  tokens : List GlobToken
  /-- The groups around it, the innermost first. -/
  groups : List OpenGroup
  /-- The character read last. -/
  last : Option Char

namespace Reader

def push (r : Reader) (last : Char) (t : GlobToken) : Reader :=
  { r with tokens := t :: r.tokens, last := some last }

/-- Opens a group. -/
def openGroup (r : Reader) : Reader := ⟨[], ⟨r.tokens, []⟩ :: r.groups, some '\x7b'⟩

/-- Ends a branch. Outside a group, a comma is a character like any other. -/
def comma (r : Reader) : Reader :=
  match r.groups with
  | [] => r.push ',' (.literal ',')
  | g :: around =>
    ⟨[], { g with branches := r.tokens.reverse :: g.branches } :: around, some ','⟩

/-- Closes a group. -/
def closeGroup (r : Reader) : Except GlobFault Reader :=
  match r.groups with
  | [] => .error .unopenedGroup
  | g :: around =>
    .ok ⟨.choice (r.tokens.reverse :: g.branches).reverse :: g.before, around, some '\x7d'⟩

/-- Reads a `**` as two `*`. -/
def twoStars (r : Reader) : Reader := (r.push '*' .anyBytes).push '*' .anyBytes

/-- Whether a `**` may begin a component here, where something was read
before. -/
def atComponent (r : Reader) : Bool :=
  r.last == some '/'
    || !r.groups.isEmpty && (r.last == some ',' || r.last == some '\x7b')

/-- Puts a `**` with the slash before it into the place of the token read
last, which is that slash. Next to another `**` it adds nothing. -/
def mergeDirectories (r : Reader) (last : Char) (t : GlobToken) : Reader :=
  match r.tokens with
  | .directoriesBefore :: before => ⟨.directoriesBefore :: before, r.groups, some last⟩
  | .everythingBelow :: before => ⟨.everythingBelow :: before, r.groups, some last⟩
  | _ :: before => ⟨t :: before, r.groups, some last⟩
  | [] => r.push last t

/-- Reads a `**`, with the characters after it. A slash behind it belongs to
it. -/
def stars (r : Reader) (rest : List Char) : Reader × List Char :=
  if r.tokens.isEmpty then
    match rest with
    | [] => (r.push '*' .directoriesBefore, [])
    | '/' :: rest => (r.push '/' .directoriesBefore, rest)
    | _ => (r.twoStars, rest)
  else if !r.atComponent then (r.twoStars, rest)
  else
    match rest with
    | [] => (r.mergeDirectories '*' .everythingBelow, [])
    | '/' :: rest => (r.mergeDirectories '/' .directoriesBetween, rest)
    | c :: _ =>
      if !r.groups.isEmpty && (c = ',' || c = '\x7d') then
        (r.mergeDirectories '*' .everythingBelow, rest)
      else (r.twoStars, rest)

/-- A `**` takes no characters that are not there. -/
theorem length_stars_le (r : Reader) (rest : List Char) :
    (r.stars rest).2.length ≤ rest.length := by
  unfold stars
  split
  · split <;> simp
  · split
    · simp
    · split
      · simp
      · simp
      · split <;> simp

/-- Reads a pattern to its end. -/
def readOn (r : Reader) : List Char → Except GlobFault Glob
  | [] => if r.groups.isEmpty then .ok ⟨r.tokens.reverse⟩ else .error .unclosedGroup
  | '*' :: '*' :: rest =>
    have : (r.stars rest).2.length < rest.length + 2 := by
      have := length_stars_le r rest
      omega
    readOn (r.stars rest).1 (r.stars rest).2
  | '\\' :: rest =>
    match rest with
    | [] => .error .danglingEscape
    | c :: rest => readOn (r.push c (.literal c)) rest
  | '[' :: rest =>
    match h : (SetReader.ofFront rest).1.readOn (SetReader.ofFront rest).2 with
    | .error e => .error e
    | .ok (t, after) =>
      have : after.length < rest.length + 1 := by
        have := SetReader.length_lt_of_readOn h
        have := SetReader.length_ofFront_le rest
        omega
      readOn (r.push ']' t) after
  | c :: rest =>
    if c = '?' then readOn (r.push c .anyByte) rest
    else if c = '*' then readOn (r.push c .anyBytes) rest
    else if c = '\x7b' then readOn r.openGroup rest
    else if c = ',' then readOn r.comma rest
    else if c = '\x7d' then
      match r.closeGroup with
      | .error e => .error e
      | .ok r => readOn r rest
    else readOn (r.push c (.literal c)) rest
  termination_by cs => cs.length

end Reader

/-- **The pattern that a text writes.** -/
def parse (pattern : String) : Except GlobError Glob :=
  ((⟨[], [], none⟩ : Reader).readOn pattern.toList).mapError (⟨pattern, ·⟩)

end Glob

end IncrementalBuild
