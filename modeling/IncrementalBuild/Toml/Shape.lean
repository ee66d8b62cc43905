import IncrementalBuild.Toml

/-!
# Reading TOML values of a known shape

How a value of a known shape is taken from a TOML value. A section is a table
all of whose keys have a meaning, or a list of its values in the order of its
keys, of which the last ones may be missing and what is too much is passed
over. A choice is its name, or a table with nothing but an empty value under
that name.
-/

namespace IncrementalBuild.Toml.Value

/-- The elements of a list. -/
def items? : Value → Option (List Value)
  | .array items => some items
  | .tables entries => some (entries.reverse.map (.table .header))
  | _ => none

/-- **The values of a section** in the order of its keys, each if it is
there. -/
def section? (keys : List String) : Value → Option (List (Option Value))
  | .table _ fields =>
    if fields.all (fun f => keys.contains f.1) then
      some (keys.map fun key => (fields.find? (·.1 = key)).map (·.2))
    else none
  | v => (items? v).map fun items => keys.mapIdx fun i _ => items[i]?

def text? : Value → Option String
  | .text value => some value
  | _ => none

def bool? : Value → Option Bool
  | .bool value => some value
  | _ => none

/-- A natural number below a bound. -/
def natBelow? (bound : Nat) : Value → Option Nat
  | .integer n => if 0 ≤ n && n < bound then some n.toNat else none
  | _ => none

/-- A list of values of one shape. -/
def list? {α : Type} (read : Value → Option α) (v : Value) : Option (List α) :=
  v.items?.bind (·.mapM read)

/-- Whether a value has nothing in it. -/
def isVoid : Value → Bool
  | .array [] => true
  | .table _ [] => true
  | _ => false

/-- A choice with a name. -/
def choice? {α : Type} (ofName? : String → Option α) : Value → Option α
  | .text name => ofName? name
  | .table _ [(name, v)] => if v.isVoid then ofName? name else none
  | _ => none

/-- A value that may be missing. -/
def optional? {α : Type} (read : Value → Option α) : Option Value → Option (Option α)
  | none => some none
  | some v => (read v).map some

/-- A value in whose place something else counts where it is missing. -/
def defaulted? {α : Type} (read : Value → Option α) (default : α) : Option Value → Option α
  | none => some default
  | some v => read v

end IncrementalBuild.Toml.Value
