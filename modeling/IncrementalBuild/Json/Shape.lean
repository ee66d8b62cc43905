import IncrementalBuild.Json.Reader
import IncrementalBuild.OrderedMap

/-!
# Reading values of a known shape

How a value of a known shape is taken from a JSON value. A record may stand as
an object, where fields without a meaning are passed over, a known field
stands at most once and some fields may be missing; or as a list of its fields
in their order, where fields may be missing at the end. A map is an object,
and of equal keys the last one counts.
-/

namespace IncrementalBuild.Json

/-- How a field of a record may be missing. -/
inductive Presence where
  /-- It has to be there. -/
  | required
  /-- It may be missing from an object, but not from a list. -/
  | optional
  /-- It may be missing from either. -/
  | defaulted
  deriving DecidableEq

/-- The value of the field with a name, which may stand at most once. -/
def fieldOf (fields : List (Text? × Value)) (name : String) : Option (Option Value) :=
  match fields.filter (fun f => f.1 == some name) with
  | [] => some none
  | [f] => some (some f.2)
  | _ => none

/-- The fields of a record written as an object. -/
def fieldsOfObject (fields : List (Text? × Value)) (shape : List (String × Presence)) :
    Option (List (Option Value)) :=
  shape.mapM fun (name, presence) => do
    let value ← fieldOf fields name
    if value.isNone && presence == .required then none else some value

/-- The fields of a record written as a list. -/
def fieldsOfList : List Value → List (String × Presence) → Option (List (Option Value))
  | [], [] => some []
  | _ :: _, [] => none
  | v :: items, _ :: shape => (fieldsOfList items shape).map (some v :: ·)
  | [], (_, presence) :: shape =>
    if presence == .defaulted then (fieldsOfList [] shape).map (none :: ·) else none

/-- **The fields of a record**, each with its value if it is there. -/
def Value.record? (v : Value) (shape : List (String × Presence)) :
    Option (List (Option Value)) :=
  match v with
  | .object fields => if fields.all (·.1.isSome) then fieldsOfObject fields shape else none
  | .array items => fieldsOfList items shape
  | _ => none

def Value.text? : Value → Option String
  | .string text => text
  | _ => none

/-- A value, or nothing for `null`. -/
def Value.optional? {α : Type} (read : Value → Option α) : Value → Option (Option α)
  | .null => some none
  | v => (read v).map some

def Value.list? {α : Type} (read : Value → Option α) : Value → Option (List α)
  | .array items => items.mapM read
  | _ => none

/-- A set written as a list. -/
def Value.textSet? (v : Value) : Option (OrderedSet String) :=
  (v.list? Value.text?).map OrderedSet.ofList

/-- A map written as an object. -/
def Value.map? {κ α : Type} [Ord κ] [Std.TransOrd κ] (key : String → κ)
    (read : Value → Option α) : Value → Option (OrderedMap κ α)
  | .object fields =>
    (fields.mapM fun (f : Text? × Value) => do
      let name ← f.1
      let value ← read f.2
      return (key name, value)).map OrderedMap.ofList
  | _ => none

/-- A natural number below a bound, written with digits alone. -/
def Value.natBelow? (bound : Nat) : Value → Option Nat
  | .number literal =>
    match Text.number? 10 literal.toList with
    | some n => if n < bound then some n else none
    | none => none
  | _ => none

end IncrementalBuild.Json
