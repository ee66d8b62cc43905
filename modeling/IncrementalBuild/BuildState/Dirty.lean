import IncrementalBuild.BuildState.Store
import IncrementalBuild.DirtySet
import IncrementalBuild.PlanningError
import IncrementalBuild.Request

/-!
# Which inputs are dirty

Compared with the state that the last build left, an input is dirty if it is
new, was not compiled to the end, has another content, or depends on a file
that left the build. Without a state that can be trusted every input is dirty.
-/

namespace IncrementalBuild

/-- What a build starts from. -/
structure DirtyInputs where
  dirty : DirtySet
  /-- The last state, with the files gone that left the build, and without the
  fingerprints of dirty inputs. -/
  state : BuildState
  /-- The files that left the build, in ascending order. -/
  removed : List Path

namespace DirtyInputs

/-- The start of a build without a state. -/
def fresh (inputs : List InputFile) : DirtyInputs :=
  { dirty := inputs.foldl (fun d i => (DirtySet.add d i.path .noPriorState).1) ∅
    state := inputs.foldl (fun s i => s.markNeedsRebuild i.path) .empty
    removed := [] }

/-- The files that a state knows and a build no longer has. -/
def removedFiles (state : BuildState) (inputs : List InputFile) : List Path :=
  let current := inputs.map (·.path)
  (OrderedSet.ofList ((state.inputs.keys ++ state.graph.fileList).filter
    (fun p => !current.contains p))).toList

/-- Takes files out of a state one by one, and collects the files that depend
on them. -/
def removeFiles (state : BuildState) :
    List Path → OrderedSet Path → BuildState × OrderedSet Path
  | [], dependents => (state, dependents)
  | p :: rest, dependents =>
    let (graph, changes) := state.graph.removeFile p
    removeFiles { state with graph, inputs := state.inputs.erase p } rest
      (OrderedSet.union dependents (graph.filesAffectedBy changes p))

/-- Why an input is dirty, if it is. -/
def reason? (state : BuildState) (dependents : OrderedSet Path) (i : InputFile) :
    Option DirtyReason :=
  match state.inputs.get? i.path with
  | none => some .new
  | some none => some .missingRecord
  | some (some previous) =>
    if previous ≠ i.fingerprint then some .modified
    else if dependents.contains i.path then some .dependencyRemoved
    else none

/-- Enters the inputs of a build into its state. -/
def enterInputs (dirty : DirtySet) (state : BuildState) (inputs : List InputFile) :
    BuildState :=
  inputs.foldl
    (fun s i => s.setFingerprint i.path
      (if dirty.contains i.path then none else s.fingerprintOf i.path))
    state

/-- The start of a build from a state. -/
def ofState (state : BuildState) (inputs : List InputFile) :
    Except PlanningError DirtyInputs :=
  let removed := removedFiles state inputs
  let (state, dependents) := removeFiles state removed ∅
  let dirty := inputs.foldl
    (fun d i => match reason? state dependents i with
      | some reason => (DirtySet.add d i.path reason).1
      | none => d) ∅
  match state.graph.interfaceCycle? with
  | some key => .error (.dependencyCycle key)
  | none => .ok ⟨dirty, enterInputs dirty state inputs, removed⟩

/-- **The start of a build**, from what was found in place of a state. -/
def compute (prior : StateLoad) (inputs : List InputFile) :
    Except PlanningError DirtyInputs :=
  match prior with
  | .loaded state => ofState state inputs
  | .missing => .ok (fresh inputs)
  | .corrupt _ => .ok (fresh inputs)

end DirtyInputs

end IncrementalBuild
