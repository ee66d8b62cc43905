/-!
# Paths

A path keeps the text it was written with and is *compared* by its
components: repeated slashes, a trailing slash and inner `.` segments do not
count, so `/p//a`, `/p/./a` and `/p/a/` are one path with three spellings. A
`..` is a component like any other and is never resolved, and a leading `.`
of a relative path stays.

The order on paths is the lexicographic order on components, in which the
root comes first, then `.`, then `..`, then the names. So `/a/b` comes before
`/a-b`, although `-` comes before `/` as a character.

**Every path here is a text.** A file system may hold names whose bytes are no
UTF-8, and a build that meets one does not treat it like the others: its state
cannot be saved, since a state file spells its paths out; a directory with such
a name is searched although it starts with a dot (`InputSelection.isHiddenName`
keeps that branch); and job keys, arguments, glob matches, output stems and
messages show the name with replacement characters, so that two names can read
alike. What is proved about builds is about paths that are texts, as all paths
of a request file and of a state file are.
-/

namespace IncrementalBuild

/-- One step of a path. -/
inductive Component where
  /-- The leading slash of an absolute path. -/
  | root
  /-- A leading `.`. -/
  | current
  /-- A `..`, wherever it stands. -/
  | parent
  | name (text : String)
  deriving DecidableEq, Inhabited

namespace Component

/-- The place of a kind of component in the order. -/
def rank : Component → Nat
  | root => 0
  | current => 1
  | parent => 2
  | name _ => 3

/-- The name of a component, empty for the three that have none. -/
def label : Component → String
  | name text => text
  | _ => ""

instance : Ord Component :=
  ⟨compareLex (compareOn rank) (compareOn label)⟩

instance : Std.TransOrd Component :=
  inferInstanceAs (Std.TransCmp (compareLex (compareOn rank) (compareOn label)))

/-- **Kinds and names tell components apart.** -/
theorem eq_of_rank_of_label {a b : Component} (hr : a.rank = b.rank)
    (hl : a.label = b.label) : a = b := by
  cases a <;> cases b <;> simp_all [rank, label]

instance : Std.LawfulEqOrd Component where
  eq_of_compare {a b} h := by
    have h' : (compareOn rank a b).then (compareOn label a b) = .eq := h
    rw [Ordering.then_eq_eq] at h'
    exact eq_of_rank_of_label (Std.LawfulEqOrd.eq_of_compare h'.1)
      (Std.LawfulEqOrd.eq_of_compare h'.2)

end Component

/-- A path as it was written. -/
structure Path where
  /-- The spelling. -/
  text : String
  deriving Inhabited

namespace Path

/-- A stretch of a path's text between two slashes, with the component it
stands for, if it stands for one. -/
structure Segment where
  text : String
  component : Option Component
  deriving Inhabited

/-- Cuts characters at every slash. -/
def splitSlashes : List Char → List (List Char)
  | [] => [[]]
  | c :: rest =>
    if c = '/' then [] :: splitSlashes rest
    else
      match splitSlashes rest with
      | [] => [[c]]
      | piece :: more => (c :: piece) :: more

/-- What a segment stands for after the first one: nothing where it is empty
or a dot. -/
def innerSegment (text : String) : Segment :=
  if text = "" || text = "." then ⟨text, none⟩
  else if text = ".." then ⟨text, some .parent⟩
  else ⟨text, some (.name text)⟩

/-- The segments of a path. An empty first segment before a slash is the root,
and a dot in first place stays a component. -/
def segments (p : Path) : List Segment :=
  match (splitSlashes p.text.toList).map String.ofList with
  | [] => []
  | [only] => [if only = "." then ⟨only, some .current⟩ else innerSegment only]
  | first :: rest =>
    (if first = "" then ⟨first, some .root⟩
      else if first = "." then ⟨first, some .current⟩
      else innerSegment first) :: rest.map innerSegment

/-- **The components that a path is compared by.** -/
def components (p : Path) : List Component := p.segments.filterMap (·.component)

instance : BEq Path := ⟨fun p q => p.components == q.components⟩

instance : Ord Path := ⟨compareOn components⟩

instance : Std.TransOrd Path :=
  inferInstanceAs (Std.TransCmp (compareOn components))

instance : ToString Path := ⟨text⟩

/-- **Equality of paths is equality of components.** -/
theorem beq_iff {p q : Path} : (p == q) = true ↔ p.components = q.components := by
  show (p.components == q.components) = true ↔ _
  exact beq_iff_eq

/-- The order identifies exactly the equal paths. -/
theorem compare_eq_iff {p q : Path} :
    compare p q = .eq ↔ p.components = q.components := by
  show compare p.components q.components = .eq ↔ _
  exact Std.compare_eq_iff_eq

def isAbsolute (p : Path) : Bool := p.text.startsWith "/"

def isRelative (p : Path) : Bool := !p.isAbsolute

/-- The path `child`, seen from `base`. An absolute path stays as it is, and a
slash is put between the two unless `base` is empty or ends in one. -/
def join (base child : Path) : Path :=
  if child.isAbsolute then child
  else if base.text = "" || base.text.endsWith "/" then ⟨base.text ++ child.text⟩
  else ⟨base.text ++ "/" ++ child.text⟩

/-- The text of consecutive segments of a path. -/
def spelled (segments : List Segment) : String :=
  match segments with
  | [⟨"", some .root⟩] => "/"
  | _ => "/".intercalate (segments.map (·.text))

/-- Drops the segments at the end that stand for nothing. -/
def dropSilentEnd (segments : List Segment) : List Segment :=
  (segments.reverse.dropWhile (·.component.isNone)).reverse

/-- The path without its last component; none for the root and for the empty
path. -/
def parent (p : Path) : Option Path :=
  match (dropSilentEnd p.segments).reverse with
  | [] => none
  | ⟨_, some .root⟩ :: _ => none
  | _ :: before => some ⟨spelled (dropSilentEnd before.reverse)⟩

/-- The last component, where it is a name. -/
def fileName (p : Path) : Option String :=
  match p.components.getLast? with
  | some (.name text) => some text
  | _ => none

/-- A file name up to its last dot. A name whose only dot is its first
character has no part to cut off. -/
def stemOfName (name : String) : String :=
  let reversed := name.toList.reverse
  match reversed.dropWhile (· ≠ '.') with
  | [] => name
  | [_] => name
  | _ :: before => String.ofList before.reverse

/-- The file name without its extension. -/
def fileStem (p : Path) : Option String := p.fileName.map stemOfName

/-- Whether the last components of `p` are those of `suffix`. -/
def endsWith (p suffix : Path) : Bool := suffix.components.isSuffixOf p.components

/-- What is left of the segments once `n` components have been passed. -/
def afterComponents : Nat → List Segment → List Segment
  | 0, segments => segments
  | _ + 1, [] => []
  | n + 1, s :: rest => if s.component.isSome then afterComponents n rest
      else afterComponents (n + 1) rest

/-- The path below `base`, where `base` is a beginning of it. -/
def relativeTo? (p base : Path) : Option Path :=
  if base.components.isPrefixOf p.components then
    let below := afterComponents base.components.length p.segments
    let below := if base.components.isEmpty then below
      else below.dropWhile (·.component.isNone)
    some ⟨spelled (dropSilentEnd below)⟩
  else none

end Path

end IncrementalBuild
