import IncrementalBuild.Fingerprint
import IncrementalBuild.Json.Shape

/-!
# Declarations and dependency records

A compiled source file declares keys. Each declaration has a fingerprint, a
list of keys whose interface it is built on (`provides`: a change of such a
key reaches every file that declares something on it), and a list of keys that
only its body uses (`uses`: such a key merely has to exist). What a compiler
reports for one source file is a dependency record.
-/

namespace IncrementalBuild

/-- A declaration of a source file. -/
structure Declaration where
  key : String
  fingerprint : Fingerprint
  /-- The keys whose interface the declaration is built on. -/
  provides : List String
  /-- The keys that only the body of the declaration uses. -/
  uses : List String
  deriving DecidableEq, Inhabited

/-- What a compiler reports for one source file. -/
structure DependencyRecord where
  source : Path
  declarations : List Declaration

/-- Why there is no dependency record to read. -/
inductive RecordError where
  /-- The text is not a dependency record. -/
  | unreadable
  /-- The file with the record cannot be read. -/
  | file (cause : FileError)
  /-- The text of a file is not a dependency record. -/
  | unreadableIn (path : Path)

/-- The texts of a failure and its causes, the outermost first. -/
def RecordError.chain : RecordError → List String
  | unreadable => ["parsing dependency record", "<json>"]
  | file cause => cause.chain
  | unreadableIn p =>
    ["in dependency record " ++ p.quoted, "parsing dependency record", "<json>"]

namespace Declaration

open Json in
/-- A declaration as a JSON value. -/
def toJson (d : Declaration) : Value :=
  .ofFields [("key", .ofText d.key), ("fingerprint", .ofText d.fingerprint.text),
    ("provides", .ofTexts d.provides), ("uses", .ofTexts d.uses)]

/-- The declaration that a JSON value describes. -/
def ofJson? (v : Json.Value) : Option Declaration := do
  match ← v.record? [("key", .required), ("fingerprint", .required),
      ("provides", .defaulted), ("uses", .defaulted)] with
  | [some key, some fingerprint, provides, uses] =>
    let texts (v : Option Json.Value) : Option (List String) :=
      match v with
      | none => some []
      | some v => v.list? Json.Value.text?
    return ⟨← key.text?, ⟨← fingerprint.text?⟩, ← texts provides, ← texts uses⟩
  | _ => none

end Declaration

namespace DependencyRecord

/-- A dependency record as a JSON value. -/
def toJson (r : DependencyRecord) : Json.Value :=
  .ofFields [("source", .ofText r.source.text),
    ("declarations", .array (r.declarations.map Declaration.toJson))]

/-- A dependency record as a text. -/
def print (r : DependencyRecord) : String := r.toJson.print

/-- The dependency record that a JSON value describes. -/
def ofJson? (v : Json.Value) : Option DependencyRecord := do
  match ← v.record? [("source", .required), ("declarations", .defaulted)] with
  | [some source, declarations] =>
    let declarations ← match declarations with
      | none => some []
      | some v => v.list? Declaration.ofJson?
    return ⟨⟨← source.text?⟩, declarations⟩
  | _ => none

/-- **The dependency record that a text describes.** -/
def parse (text : String) : Except RecordError DependencyRecord :=
  match (Json.Value.read? text).bind ofJson? with
  | some r => .ok r
  | none => .error .unreadable

/-- The dependency record in a file. -/
def ofFile {φ : Type} [FileSystem φ] (fs : φ) (p : Path) :
    Except RecordError DependencyRecord :=
  match FileSystem.readText fs p with
  | .error e => .error (.file e)
  | .ok text => (parse text).mapError (fun _ => .unreadableIn p)

end DependencyRecord

end IncrementalBuild
