import IncrementalBuild.OrderedMap
import IncrementalBuild.Path

/-!
# Dirty inputs

The inputs that have to be compiled again, each with the first reason that was
found for it.
-/

namespace IncrementalBuild

/-- Why an input has to be compiled again. -/
inductive DirtyReason where
  | noPriorState
  | new
  | modified
  | missingRecord
  | dependencyRemoved
  | interfaceChanged
  deriving DecidableEq, Inhabited

namespace DirtyReason

def name : DirtyReason → String
  | noPriorState => "no prior state"
  | new => "new input"
  | modified => "modified"
  | missingRecord => "no usable record"
  | dependencyRemoved => "dependency removed"
  | interfaceChanged => "interface changed"

/-- The reason with a given name. -/
def ofName? (name : String) : Option DirtyReason :=
  [noPriorState, new, modified, missingRecord, dependencyRemoved, interfaceChanged].find?
    (·.name == name)

end DirtyReason

/-- **Inputs that have to be compiled again**, each with a reason. -/
abbrev DirtySet := OrderedMap Path DirtyReason

/-- Adds an input, unless it is there with a reason already; the answer says
whether it was added. -/
def DirtySet.add (s : DirtySet) (p : Path) (reason : DirtyReason) : DirtySet × Bool :=
  if s.contains p then (s, false) else (s.insert p reason, true)

/-- **What is dirty after an addition**: what was, and the path that is added. -/
theorem DirtySet.contains_add (s : DirtySet) (p q : Path) (reason : DirtyReason) :
    (s.add p reason).1.contains q = (s.contains q || compare p q == .eq) := by
  unfold add
  split
  · rename_i h
    by_cases hq : compare p q = .eq
    · rw [← OrderedMap.isSome_get?, OrderedMap.get?_congr s hq] at h
      simp_all
    · simp [hq]
  · simp only [← OrderedMap.isSome_get?, OrderedMap.get?_insert]
    by_cases hq : compare p q = .eq <;> simp [hq]

/-- **An addition keeps the reason that is there.** -/
theorem DirtySet.get?_add (s : DirtySet) (p q : Path) (reason : DirtyReason) :
    (s.add p reason).1.get? q
      = if compare p q = .eq then some ((s.get? q).getD reason) else s.get? q := by
  by_cases hq : compare p q = .eq
  · rw [if_pos hq, ← OrderedMap.get?_congr _ hq, ← OrderedMap.get?_congr s hq]
    unfold add
    split
    · rename_i h
      rw [← OrderedMap.isSome_get?] at h
      obtain ⟨old, hold⟩ := Option.isSome_iff_exists.1 h
      rw [hold]
      rfl
    · rename_i h
      rw [← OrderedMap.isSome_get?, Bool.not_eq_true, Option.isSome_eq_false_iff,
        Option.isNone_iff_eq_none] at h
      rw [h]
      exact (OrderedMap.get?_insert s p p reason).trans (if_pos Std.ReflOrd.compare_self)
  · rw [if_neg hq]
    unfold add
    split
    · rfl
    · exact (OrderedMap.get?_insert s p q reason).trans (if_neg hq)

end IncrementalBuild
