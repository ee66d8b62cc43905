import IncrementalBuild.Digraph.Toposort
import IncrementalBuild.Json.Shape
import IncrementalBuild.Path
import IncrementalBuild.PlanningError

/-!
# Modules that inputs import

Before its inputs are compiled, a build may have to build modules that they
import. The module graph says which modules there are, what each is built
from, and which of them each input imports.
-/

namespace IncrementalBuild

/-- A module that inputs import. -/
structure ExternalModule where
  /-- The interface that the module is built from. -/
  interfacePath : Path
  /-- The modules that have to be built before it. -/
  dependencies : OrderedSet String

/-- **Modules, and which of them each input imports.** -/
structure ModuleGraph where
  modules : OrderedMap String ExternalModule
  imports : OrderedMap Path (OrderedSet String)

namespace ModuleGraph

def empty : ModuleGraph := ⟨∅, ∅⟩

/-- The modules that a module depends on; none for an unknown one. -/
def dependenciesOf (g : ModuleGraph) (name : String) : List String :=
  match g.modules.get? name with
  | some m => m.dependencies.toList
  | none => []

/-- Every name that the graph mentions. -/
def names (g : ModuleGraph) : OrderedSet String :=
  OrderedSet.ofList (g.modules.keys ++ g.modules.values.flatMap (·.dependencies.toList)
    ++ g.imports.values.flatMap OrderedSet.toList)

/-- The first dependency or import of an unknown module, with its user. -/
def unknown? (g : ModuleGraph) : Option (String × String) :=
  (g.modules.entries.flatMap (fun (name, m) => m.dependencies.toList.map ((name, ·)))
    ++ g.imports.entries.flatMap (fun (p, set) => set.toList.map ((p.text, ·)))).find?
    (fun (_, name) => !g.modules.contains name)

/-- The modules, with an edge from each to those that depend on it. -/
def relation (g : ModuleGraph) : Digraph String :=
  (g.modules.entries.flatMap (fun (name, m) =>
      m.dependencies.toList.map (fun dep => (dep, name)))).foldl
    (fun r e => r.addEdge e.1 e.2) (g.modules.keys.foldl Digraph.addNode Digraph.empty)

/-- **The modules in an order in which they can be built.** -/
def buildOrder (g : ModuleGraph) : Except PlanningError (List String) :=
  match g.unknown? with
  | some (user, missing) => .error (.unknownModule user missing)
  | none => g.relation.toposort.mapError .moduleCycle

/-- The modules that have to be built before an input: those it imports, what
they depend on, and so on. -/
def neededBy (g : ModuleGraph) (input : Path) : OrderedSet String :=
  OrderedSet.ofList (reachable g.dependenciesOf g.names.toList
    ((g.imports.get? input).map OrderedSet.toList |>.getD []))

/-! ## As JSON -/

/-- A module graph as a JSON value. -/
def toJson (g : ModuleGraph) : Json.Value :=
  .ofFields [
    ("modules", .ofFields (g.modules.entries.map fun (name, m) =>
      (name, .ofFields [("interface", .ofText m.interfacePath.text),
        ("dependencies", .ofTexts m.dependencies.toList)]))),
    ("imports", .ofFields (g.imports.entries.map fun (p, set) =>
      (p.text, .ofTexts set.toList)))]

/-- The module that a JSON value describes. -/
def moduleOfJson? (v : Json.Value) : Option ExternalModule := do
  match ← v.record? [("interface", .required), ("dependencies", .defaulted)] with
  | [some interfacePath, dependencies] =>
    let dependencies ← match dependencies with
      | none => some ∅
      | some v => v.textSet?
    return ⟨⟨← interfacePath.text?⟩, dependencies⟩
  | _ => none

/-- The module graph that a JSON value describes. -/
def ofJson? (v : Json.Value) : Option ModuleGraph := do
  match ← v.record? [("modules", .defaulted), ("imports", .defaulted)] with
  | [modules, imports] =>
    let modules ← match modules with
      | none => some ∅
      | some v => v.map? id moduleOfJson?
    let imports ← match imports with
      | none => some ∅
      | some v => v.map? Path.mk Json.Value.textSet?
    return ⟨modules, imports⟩
  | _ => none

/-- The module graph that a text describes. -/
def read? (text : String) : Option ModuleGraph := (Json.Value.read? text).bind ofJson?

end ModuleGraph

end IncrementalBuild
