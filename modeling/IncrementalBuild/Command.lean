import IncrementalBuild.Fingerprint
import IncrementalBuild.Text.Blank
import IncrementalBuild.Text.Quoted

/-!
# Command lines

A command line is a tool and its arguments. Three flags belong to single
inputs of a compilation, each with the argument after it; all other arguments
are shared, and command lines that share them can be merged into one.
-/

namespace IncrementalBuild

/-- A tool and its arguments. -/
structure Command where
  tool : String
  args : List String
  deriving DecidableEq, Inhabited

namespace Command

/-- The flag before a product's path. -/
def outputFlag : String := "-o"

/-- The flag before the path of an input that is to be compiled. -/
def primaryFlag : String := "--primary"

/-- The flag before the path of a dependency record. -/
def recordFlag : String := "--emit-deps"

/-- Whether an argument belongs to single inputs. -/
def isUnitFlag (arg : String) : Bool :=
  arg == outputFlag || arg == primaryFlag || arg == recordFlag

/-- The arguments that directly follow a flag, wherever it stands. -/
def valuesAfter (flag : String) : List String → List String
  | a :: b :: rest =>
    if a == flag then b :: valuesAfter flag (b :: rest) else valuesAfter flag (b :: rest)
  | _ => []

/-- The arguments of a command that directly follow a flag. -/
def valuesOf (c : Command) (flag : String) : List String := valuesAfter flag c.args

/-- Leaves out the flags of single inputs and the argument after each. -/
def withoutUnits : List String → List String
  | [] => []
  | [a] => if isUnitFlag a then [] else [a]
  | a :: b :: rest => if isUnitFlag a then withoutUnits rest else a :: withoutUnits (b :: rest)

/-- Keeps the flags of single inputs that have an argument after them, with
that argument. -/
def onlyUnits : List String → List String
  | [] => []
  | [_] => []
  | a :: b :: rest => if isUnitFlag a then a :: b :: onlyUnits rest else onlyUnits (b :: rest)

/-- The arguments that do not belong to single inputs. -/
def sharedArgs (c : Command) : List String := withoutUnits c.args

/-- **Several commands as one**: the tool and the shared arguments of the
first, then what belongs to the single inputs of each. -/
def merge : List Command → Option Command
  | [] => none
  | first :: rest =>
    some ⟨first.tool,
      first.sharedArgs ++ (first :: rest).flatMap (fun c => onlyUnits c.args)⟩

/-- Whether an argument is shown between quotation marks. -/
def needsQuotes (arg : String) : Bool := arg.isEmpty || arg.toList.any Text.isBlank

/-- A command as it is shown. -/
def text (c : Command) : String :=
  c.tool ++ String.join (c.args.map fun arg =>
    " " ++ (if needsQuotes arg then Text.quoted arg else arg))

/-- The fingerprint of a command, with some arguments left out of account. -/
def fingerprint (c : Command) (ignored : String → Bool) : Fingerprint :=
  Fingerprint.aggregate
    ((c.tool :: c.args.filter (fun arg => !ignored arg)).map Fingerprint.ofText)

end Command

end IncrementalBuild
