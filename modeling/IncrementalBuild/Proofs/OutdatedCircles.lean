import IncrementalBuild.Proofs.DirtyReasons
import IncrementalBuild.Proofs.InterfaceCircles

/-!
# Circles among outdated declarations

A build whose records form a circle of interfaces goes through and is saved, and the next one
is denied its start. What the denial rests on is what the last build left for the files that are
still inputs. The declarations of a file that left the build are taken out before circles are
looked for, so a circle can be broken by leaving out a file. Those of a file whose content has
changed stay in, although it would be compiled again and report others. They can be replaced only
by a build that starts, and none does: **no edit of the inputs gets past a circle** as long as the
same files declare it.
-/

namespace IncrementalBuild

/-- Whether the interface of a key is built on another key, by what the last build left for an
input. -/
def BuildState.StillBuiltOn (state : BuildState) (inputs : List InputFile) (base key : String) :
    Prop :=
  ∃ i ∈ inputs, ∃ d ∈ state.graph.declarationsOf i.path,
    d.key = key ∧ base ∈ d.provides ∧ base ≠ key

/-- **Whether every circle has been seen to**: each input that declared a key on a circle has
another content now. -/
def BuildState.CirclesEdited (state : BuildState) (inputs : List InputFile) : Prop :=
  ∀ i ∈ inputs, ∀ d ∈ state.graph.declarationsOf i.path,
    Relation.TransGen state.graph.BuiltOn d.key d.key →
      ∃ f, state.inputs.get? i.path = some (some f) ∧ f ≠ i.fingerprint

namespace DirtyInputs

variable {state : BuildState} {inputs : List InputFile}

/-- **What is left once the files that left are taken out** is what the inputs declared. -/
theorem builtOn_removeFiles (state : BuildState) (inputs : List InputFile) :
    (removeFiles state (removedFiles state inputs) ∅).1.graph.BuiltOn
      = state.StillBuiltOn inputs := by
  have hleft := declarationsOf_removeFiles state (removedFiles state inputs) ∅
  funext base key
  refine propext ⟨?_, ?_⟩
  · rintro ⟨p, d, hd, h⟩
    rw [hleft p] at hd
    split at hd
    · cases hd
    · rename_i hstays
      have hfile : state.graph.containsFile p = true := by
        rw [state.graph.consistent.containsFile_eq,
          List.isEmpty_eq_false_iff.2 (List.ne_nil_of_mem hd)]
        rfl
      obtain ⟨i, hi, hip⟩ := exists_input_of_stays (.inr hfile) fun q hq he => hstays ⟨q, hq, he⟩
      exact ⟨i, hi, d, state.graph.declarationsOf_congr hip ▸ hd, h⟩
  · rintro ⟨i, hi, d, hd, h⟩
    refine ⟨i.path, d, ?_, h⟩
    rw [hleft i.path, if_neg fun ⟨q, hq, he⟩ => compare_ne_of_mem_removedFiles hq hi he]
    exact hd

/-- A start is possible exactly if what the inputs declared goes in no circle. -/
theorem exists_start_iff :
    (∃ start, compute (.loaded state) inputs = .ok start) ↔
      ∀ key, ¬ Relation.TransGen (state.StillBuiltOn inputs) key key := by
  have hfree := DependencyGraph.interfaceCycle?_eq_none_iff
    (g := (removeFiles state (removedFiles state inputs) ∅).1.graph)
  unfold DependencyGraph.Layered at hfree
  rw [builtOn_removeFiles] at hfree
  rw [← hfree]
  exact ⟨fun ⟨start, h⟩ => (ofState_eq_ok_iff.1 h).1,
    fun h => ⟨_, ofState_eq_ok_iff.2 ⟨h, rfl⟩⟩⟩

/-- A start that is denied is denied for a circle of what the inputs declared. -/
theorem exists_circle_of_compute {e : PlanningError}
    (h : compute (.loaded state) inputs = .error e) :
    ∃ key, e = .dependencyCycle key ∧ Relation.TransGen (state.StillBuiltOn inputs) key key := by
  obtain ⟨key, hkey, he⟩ := ofState_eq_error_iff.1 h
  refine ⟨key, he, ?_⟩
  rw [← builtOn_removeFiles]
  exact DependencyGraph.onCircle_of_interfaceCycle? hkey

/-- What an input declared was declared. -/
theorem builtOn_of_stillBuiltOn {base key : String} (h : state.StillBuiltOn inputs base key) :
    state.graph.BuiltOn base key := by
  obtain ⟨i, -, d, hd, h⟩ := h
  exact ⟨i.path, d, hd, h⟩

/-- **What a circle in the last state comes to.** A build starts exactly if no circle is left among
what the last build recorded for the files that are still inputs, whatever their content is now,
and a key that is named otherwise lies on such a circle. In particular a build starts if all files
that declared a key on a circle have left. -/
theorem start_exact (state : BuildState) (inputs : List InputFile) :
    ((∃ start, compute (.loaded state) inputs = .ok start) ↔
        ∀ key, ¬ Relation.TransGen (state.StillBuiltOn inputs) key key) ∧
      (∀ e, compute (.loaded state) inputs = .error e →
        ∃ key, e = .dependencyCycle key ∧
          Relation.TransGen (state.StillBuiltOn inputs) key key) ∧
      ((∀ i ∈ inputs, ∀ d ∈ state.graph.declarationsOf i.path,
          ¬ Relation.TransGen state.graph.BuiltOn d.key d.key) →
        ∃ start, compute (.loaded state) inputs = .ok start) := by
  refine ⟨exists_start_iff, fun e h => exists_circle_of_compute h, fun hleft => ?_⟩
  refine exists_start_iff.2 fun key hcircle => ?_
  -- The circle comes back to its key by what an input declared.
  obtain ⟨base, -, i, hi, d, hd, rfl, -⟩ := Relation.TransGen.tail'_iff.1 hcircle
  exact hleft i hi d hd
    (Relation.TransGen.mono (fun _ _ h => builtOn_of_stillBuiltOn h) _ _ hcircle)

/-! The interfaces of `a` and `b` were built on each other. -/

namespace TwoInCircle

def declared (key : String) (provides : List String) : Declaration := ⟨key, ⟨"1"⟩, provides, []⟩

/-- The last build compiled three files. -/
def lastState : BuildState :=
  { BuildState.empty with
    graph := [("a", [declared "x" ["y"]]), ("b", [declared "y" ["x"]]),
        ("c", [declared "z" ["y"]])].foldl (fun g (file, ds) => (g.replace ⟨file⟩ ds).1) .empty
    inputs := .ofList (["a", "b", "c"].map fun file => (⟨file⟩, some ⟨"old"⟩)) }

/-- All three have another content now. -/
def edited : List InputFile := ["a", "b", "c"].map fun file => ⟨⟨file⟩, ⟨"new"⟩⟩

/-- One of those in the circle has left, and the others are as they were. -/
def withoutFirst : List InputFile := ["b", "c"].map fun file => ⟨⟨file⟩, ⟨"old"⟩⟩

/-- Only the file behind the circle stayed. -/
def withoutBoth : List InputFile := ["c"].map fun file => ⟨⟨file⟩, ⟨"old"⟩⟩

end TwoInCircle

open TwoInCircle

/-- With one file gone there is no circle any more, and with both gone nobody is left who declared
a key on it. -/
theorem start_exact_filesLeft :
    (∃ start, compute (.loaded lastState) withoutFirst = .ok start) ∧
      (∀ key, ¬ Relation.TransGen (lastState.StillBuiltOn withoutFirst) key key) ∧
      (∀ i ∈ withoutBoth, ∀ d ∈ lastState.graph.declarationsOf i.path,
        ¬ Relation.TransGen lastState.graph.BuiltOn d.key d.key) ∧
      ∃ start, compute (.loaded lastState) withoutBoth = .ok start := by
  have hstart : ∃ start, compute (.loaded lastState) withoutFirst = .ok start :=
    ⟨_, ofState_eq_ok_iff.2 ⟨by decide +kernel, rfl⟩⟩
  have hkey : ∀ i ∈ withoutBoth, ∀ d ∈ lastState.graph.declarationsOf i.path, d.key = "z" := by
    decide +kernel
  have hnone : ∀ d ∈ (lastState.graph.slots.filterMap id).map lastState.graph.declaration,
      "z" ∉ d.provides := by decide +kernel
  have hleft : ∀ i ∈ withoutBoth, ∀ d ∈ lastState.graph.declarationsOf i.path,
      ¬ Relation.TransGen lastState.graph.BuiltOn d.key d.key := by
    intro i hi d hd hcircle
    rw [hkey i hi d hd] at hcircle
    -- A circle would lead on from `z`, and nothing was built on that.
    obtain ⟨-, ⟨p, d', hd', -, hbase, -⟩, -⟩ := Relation.TransGen.head'_iff.1 hcircle
    exact hnone d' (DependencyGraph.mem_slots_iff.2 ⟨p, hd'⟩) hbase
  exact ⟨hstart, (start_exact lastState withoutFirst).1.1 hstart, hleft,
    (start_exact lastState withoutBoth).2.2 hleft⟩

/-- Every file has been edited, and the circle of what they declared before still stops the
build. -/
theorem dependencyCycle_of_edited :
    edited.Pairwise (fun i j => compare i.path j.path ≠ .eq) ∧ lastState.CirclesEdited edited ∧
      compute (.loaded lastState) edited = .error (.dependencyCycle "y") := by
  have hpaths : edited.Pairwise fun i j => compare i.path j.path ≠ .eq := by decide +kernel
  have hedited : ∀ i ∈ edited, lastState.inputs.get? i.path = some (some ⟨"old"⟩) ∧
      (⟨"old"⟩ : Fingerprint) ≠ i.fingerprint := by decide +kernel
  have hdenied : compute (.loaded lastState) edited = .error (.dependencyCycle "y") :=
    ofState_eq_error_iff.2 ⟨"y", by decide +kernel, rfl⟩
  exact ⟨hpaths, fun i hi _ _ _ => ⟨⟨"old"⟩, hedited i hi⟩, hdenied⟩

end DirtyInputs

end IncrementalBuild
