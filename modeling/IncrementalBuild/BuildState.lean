import IncrementalBuild.DependencyGraph
import IncrementalBuild.Job

/-!
# What one build leaves for the next

The state of a build holds, for every input, the fingerprint of the content
that was last compiled to the end, if there is one; the declarations that
compiling it reported; the jobs that were left unfinished; and the
fingerprints of the choices and of the commands, by which the next build sees
what has changed besides the inputs.
-/

namespace IncrementalBuild

/-- **What one build leaves for the next.** -/
structure BuildState where
  /-- The last known declarations. -/
  graph : DependencyGraph
  /-- The inputs, each with the content that was last compiled to the end. -/
  inputs : OrderedMap Path (Option Fingerprint)
  /-- The jobs that were left unfinished. -/
  staleJobs : OrderedSet JobKey
  /-- What every command depended on. -/
  options : Option Fingerprint
  /-- The commands of the jobs. -/
  commands : OrderedMap JobKey Fingerprint

namespace BuildState

/-- The state before any build. -/
def empty : BuildState := ⟨.empty, ∅, ∅, none, ∅⟩

instance : Inhabited BuildState := ⟨empty⟩

/-- The content of an input that was last compiled to the end. -/
def fingerprintOf (s : BuildState) (p : Path) : Option Fingerprint := (s.inputs.get? p).join

/-- Sets or clears the fingerprint of an input. -/
def setFingerprint (s : BuildState) (p : Path) (f : Option Fingerprint) : BuildState :=
  { s with inputs := s.inputs.insert p f }

/-- **Setting a fingerprint touches one input alone.** -/
theorem fingerprintOf_setFingerprint (s : BuildState) (p q : Path) (f : Option Fingerprint) :
    (s.setFingerprint p f).fingerprintOf q
      = if compare p q = .eq then f else s.fingerprintOf q := by
  unfold fingerprintOf setFingerprint
  rw [OrderedMap.get?_insert]
  split <;> simp

/-- Remembers that an input has to be compiled again. -/
def markNeedsRebuild (s : BuildState) (p : Path) : BuildState := s.setFingerprint p none

/-- Remembers that a content was compiled to the end. -/
def recordFingerprint (s : BuildState) (p : Path) (f : Fingerprint) : BuildState :=
  s.setFingerprint p (some f)

/-- What a dependency record changes. -/
structure Invalidation where
  /-- The keys that it changes. -/
  changes : List KeyChange
  /-- The files that these changes reach. -/
  files : OrderedSet Path

/-- **Takes over what compiling a file reported.** A record of another source,
or none, counts as a change of every key that the file declared, and leaves
the file to be compiled again. -/
def integrate (s : BuildState) (p : Path) (f : Fingerprint)
    (record : Option DependencyRecord) : BuildState × Invalidation :=
  let (s, changes) := match record.filter (fun r => r.source == p) with
    | some r =>
      let (graph, changes) := s.graph.replace p r.declarations
      (({ s with graph } : BuildState).recordFingerprint p f, changes)
    | none =>
      (s.markNeedsRebuild p, (s.graph.declarationsOf p).map (⟨·.key, .modified⟩))
  (s, ⟨changes, s.graph.filesAffectedBy changes p⟩)

end BuildState

end IncrementalBuild
