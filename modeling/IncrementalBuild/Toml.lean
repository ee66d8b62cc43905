/-!
# TOML documents

A TOML document is a tree of tables. It is written as a sequence of
statements: a header opens the table, or one more entry of a list of tables,
that the statements after it fill, and an assignment gives a key its value.

A table can come about in four ways, and how it did decides what may still be
added to it: it was implied by the header of a table below it, opened by a
header of its own, made by a dotted key, or written in one piece. No table is
opened twice, and no key is given two values.
-/

namespace IncrementalBuild.Toml

/-- How a table came about. -/
inductive Origin where
  /-- It lies above a table that has a header. -/
  | implied
  /-- It has a header of its own. -/
  | header
  /-- It lies above a key that is written with dots. -/
  | dotted
  /-- It is written in one piece. -/
  | inline
  deriving DecidableEq

/-- The value of a key. Numbers with a fraction and points in time are kept as
they are written. -/
inductive Value where
  | text (value : String)
  | integer (value : Int)
  | float (literal : String)
  | bool (value : Bool)
  | moment (literal : String)
  | array (items : List Value)
  | table (origin : Origin) (fields : List (String × Value))
  /-- A list of tables with headers, the last one first. -/
  | tables (entries : List (List (String × Value)))
  deriving Inhabited

/-- The keys of a table with their values. -/
abbrev Fields := List (String × Value)

/-- A line of a document that says something. -/
inductive Statement where
  /-- The header of a table. -/
  | table (path : List String)
  /-- The header of one more entry of a list of tables. -/
  | entry (path : List String)
  | assign (path : List String) (value : Value)

namespace Fields

/-- Gives a key a value that is made from the one it has, if it has one. -/
def alter (key : String) (f : Option Value → Option Value) : Fields → Option Fields
  | [] => (f none).map fun v => [(key, v)]
  | (k, v) :: rest =>
    if k = key then (f (some v)).map fun v => (k, v) :: rest
    else (alter key f rest).map ((k, v) :: ·)

/-- Changes the table that a path leads to. A list of tables leads to its last
entry, and a table that is missing is implied. -/
def within (f : Fields → Option Fields) : List String → Fields → Option Fields
  | [], fields => f fields
  | key :: path, fields =>
    fields.alter key fun
      | none => (within f path []).map (.table .implied)
      | some (.table .inline _) => none
      | some (.table origin inner) => (within f path inner).map (.table origin)
      | some (.tables (last :: before)) =>
        (within f path last).map fun last => .tables (last :: before)
      | some _ => none

/-- Opens the table with a key. -/
def openTable (key : String) : Fields → Option Fields :=
  alter key fun
    | none => some (.table .header [])
    | some (.table .implied inner) => some (.table .header inner)
    | some _ => none

/-- Begins one more entry of the list of tables with a key. -/
def appendTable (key : String) : Fields → Option Fields :=
  alter key fun
    | none => some (.tables [[]])
    | some (.tables entries) => some (.tables ([] :: entries))
    | some _ => none

/-- Gives a new key its value. The tables that its dots lead through come
about by them, or by a header below them. -/
def assign (value : Value) : List String → Fields → Option Fields
  | [], _ => none
  | [key], fields =>
    fields.alter key fun
      | none => some value
      | some _ => none
  | key :: next :: path, fields =>
    fields.alter key fun
      | none => (assign value (next :: path) []).map (.table .dotted)
      | some (.table .dotted inner) =>
        (assign value (next :: path) inner).map (.table .dotted)
      | some (.table .implied inner) =>
        if path.isEmpty then none
        else (assign value (next :: path) inner).map (.table .implied)
      | some (.tables (last :: before)) =>
        if path.isEmpty then none
        else (assign value (next :: path) last).map fun last => .tables (last :: before)
      | some _ => none

/-- The table of some assignments. -/
def ofAssignments (l : List (List String × Value)) : Option Fields :=
  l.foldlM (fun fields (path, value) => fields.assign value path) []

end Fields

/-- A document that is being put together. -/
structure Draft where
  fields : Fields
  /-- The table that assignments go to. -/
  current : List String

namespace Draft

/-- Goes on with a header, which changes the table above the one it names. -/
def header (d : Draft) (path : List String) (change : String → Fields → Option Fields) :
    Option Draft := do
  let key ← path.getLast?
  return ⟨← d.fields.within (change key) path.dropLast, path⟩

/-- Goes on with a statement. -/
def add (d : Draft) : Statement → Option Draft
  | .table path => d.header path Fields.openTable
  | .entry path => d.header path Fields.appendTable
  | .assign path value => do
    return { d with fields := ← d.fields.within (Fields.assign value path) d.current }

end Draft

/-- **The tables that statements put together**, if no two of them are at
odds. -/
def Fields.ofStatements (l : List Statement) : Option Fields :=
  (l.foldlM Draft.add (⟨[], []⟩ : Draft)).map (·.fields)

end IncrementalBuild.Toml
