import IncrementalBuild.Numbering
import IncrementalBuild.Proofs.OrderedMap
import Mathlib.Tactic.ByContra

/-!
# Numbers stand for values

In a numbering that was built value by value, a value has a number exactly when an equal
one stands at its place. Entering a value leaves all numbers as they are, so what was once
written down in numbers keeps its meaning.
-/

namespace IncrementalBuild

namespace Numbering

variable {α : Type} [Ord α] {n n' : Numbering α} {v w : α} {i : Nat}

/-- **A numbering with its numbers in step**: a value has the number of the place at which an
equal one stands. -/
def Faithful (n : Numbering α) : Prop :=
  ∀ v i, n.number? v = some i ↔ ∃ w, n.values[i]? = some w ∧ compare w v = .eq

/-- Nothing has a number at first. -/
theorem faithful_empty : (empty : Numbering α).Faithful := fun v i =>
  iff_of_false (fun h => by cases h) fun ⟨w, h, _⟩ => by cases h

/-- Whether a numbering goes on where another one ends. -/
def Extends (n n' : Numbering α) : Prop :=
  ∀ (i : Nat) (w : α), n.values[i]? = some w → n'.values[i]? = some w

/-- A numbering goes on where it ends itself. -/
theorem Extends.refl (n : Numbering α) : n.Extends n := fun _ _ h => h

/-- What goes on where another one goes on extends the first. -/
theorem Extends.trans {n'' : Numbering α} (h : n.Extends n') (h' : n'.Extends n'') :
    n.Extends n'' := fun i w hi => h' i w (h i w hi)

/-- Values are added and never taken away. -/
theorem Extends.length_le (h : n.Extends n') : n.values.length ≤ n'.values.length := by
  by_contra hlt
  have hi : n'.values.length < n.values.length := Nat.lt_of_not_le hlt
  have := h _ _ (List.getElem?_eq_getElem hi)
  rw [List.getElem?_eq_none (Nat.le_refl _)] at this
  cases this

/-- A number stands for the value at its place. -/
theorem value_of_getElem? [Inhabited α] (h : n.values[i]? = some w) : n.value i = w := by
  unfold value
  rw [List.getD_eq_getElem?_getD, h]
  rfl

/-- At every place in use stands the value that the number is for. -/
theorem getElem?_value [Inhabited α] (h : i < n.values.length) :
    n.values[i]? = some (n.value i) := by
  rw [List.getElem?_eq_getElem h, value_of_getElem? (List.getElem?_eq_getElem h)]

/-- **Numbers keep their values** when a numbering goes on. -/
theorem Extends.value_eq [Inhabited α] (h : n.Extends n') (hi : i < n.values.length) :
    n'.value i = n.value i :=
  value_of_getElem? (h i _ (getElem?_value hi))

/-- Numbers that were given out are places in use. -/
theorem Faithful.lt_of_number? (hn : n.Faithful) (h : n.number? v = some i) :
    i < n.values.length := by
  obtain ⟨w, hw, -⟩ := (hn v i).1 h
  exact (List.getElem?_eq_some_iff.1 hw).1

/-- Numbers stay where a numbering goes on. -/
theorem Extends.number?_eq (h : n.Extends n') (hn : n.Faithful) (hn' : n'.Faithful)
    (hv : n.number? v = some i) : n'.number? v = some i := by
  obtain ⟨w, hw, hwv⟩ := (hn v i).1 hv
  exact (hn' v i).2 ⟨w, h i w hw, hwv⟩

/-- **A number belongs to a value whose place holds an equal one.** -/
theorem Faithful.number?_eq_some_iff [Inhabited α] (hn : n.Faithful) (hi : i < n.values.length) :
    n.number? v = some i ↔ compare (n.value i) v = .eq := by
  rw [hn v i, getElem?_value hi]
  exact ⟨fun ⟨w, hw, h⟩ => Option.some.inj hw ▸ h, fun h => ⟨_, rfl, h⟩⟩

/-- A list that was written in numbers has a value if it has its number. -/
theorem Faithful.mem_map_value_iff [Inhabited α] [Std.LawfulEqOrd α] (hn : n.Faithful)
    {is : List Nat} (h : ∀ i ∈ is, i < n.values.length) :
    v ∈ is.map n.value ↔ ∃ i, n.number? v = some i ∧ i ∈ is := by
  rw [List.mem_map]
  refine exists_congr fun i => and_comm.trans (and_congr_left fun hi => ?_)
  rw [hn.number?_eq_some_iff (h i hi), Std.compare_eq_iff_eq]

section Order

variable [Std.TransOrd α]

/-- Equal values have one number, however they are spelled. -/
theorem number?_congr (n : Numbering α) (h : compare v w = .eq) : n.number? v = n.number? w :=
  OrderedMap.get?_congr n.numbers h

/-- **Only equal values have one number.** -/
theorem Faithful.compare_eq_of_number? (hn : n.Faithful) (hv : n.number? v = some i)
    (hw : n.number? w = some i) : compare v w = .eq := by
  obtain ⟨u, hu, huv⟩ := (hn v i).1 hv
  obtain ⟨u', hu', huw⟩ := (hn w i).1 hw
  obtain rfl := Option.some.inj (hu.symm.trans hu')
  exact (Std.TransCmp.congr_left huv).symm.trans huw

/-- Entering a value gives a number to what equals it, and leaves all other numbers alone. -/
theorem number?_enter (n : Numbering α) (v u : α) :
    (n.enter v).2.number? u
      = if compare v u = .eq then some (n.enter v).1 else n.number? u := by
  unfold enter
  cases hv : n.number? v with
  | some i =>
    by_cases hvu : compare v u = .eq
    · rw [if_pos hvu]
      exact (n.number?_congr hvu).symm.trans hv
    · rw [if_neg hvu]
  | none => exact OrderedMap.get?_insert _ _ _ _

/-- **Entering a value** gives it a number and changes no other. -/
theorem Faithful.enter (hn : n.Faithful) (v : α) :
    (n.enter v).2.Faithful ∧ n.Extends (n.enter v).2 ∧
      (n.enter v).2.number? v = some (n.enter v).1 := by
  unfold Numbering.enter
  cases hv : n.number? v with
  -- A value that is known keeps its number.
  | some i => exact ⟨hn, .refl n, hv⟩
  | none =>
    refine ⟨fun u i => ?_, fun i w hi => ?_, ?_⟩
    · show (n.numbers.insert v n.values.length).get? u = some i ↔
        ∃ w, (n.values ++ [v])[i]? = some w ∧ compare w u = .eq
      rw [OrderedMap.get?_insert]
      -- The new value has the number that comes next, and no equal one has a number yet.
      by_cases hvu : compare v u = .eq
      · rw [if_pos hvu, Option.some_inj]
        have hnone : n.number? u = none := (n.number?_congr hvu).symm.trans hv
        constructor
        · rintro rfl
          exact ⟨v, List.getElem?_concat_length, hvu⟩
        · rintro ⟨w, hw, hwu⟩
          by_contra hne
          have hlt : i < n.values.length := by
            have := (List.getElem?_eq_some_iff.1 hw).1
            rw [List.length_append, List.length_singleton] at this
            omega
          rw [List.getElem?_append_left hlt] at hw
          have := (hn u i).2 ⟨w, hw, hwu⟩
          rw [hnone] at this
          cases this
      -- Other values have the numbers that they had.
      · rw [if_neg hvu]
        refine (hn u i).trans (exists_congr fun w => and_congr_left fun hwu => ?_)
        rw [List.getElem?_append]
        split
        · rfl
        · rename_i hlt
          rw [List.getElem?_eq_none (Nat.le_of_not_lt hlt)]
          refine iff_of_false (fun h => by cases h) fun h => ?_
          rw [List.mem_singleton.1 (List.mem_of_getElem? h)] at hwu
          exact hvu hwu
    · show (n.values ++ [v])[i]? = some w
      rw [List.getElem?_append_left (List.getElem?_eq_some_iff.1 hi).1]
      exact hi
    · exact OrderedMap.get?_insert_self _ _ _

/-- Entering a value makes up no other. -/
theorem mem_values_enter (h : w ∈ (n.enter v).2.values) : w ∈ n.values ∨ w = v := by
  unfold Numbering.enter at h
  cases hv : n.number? v with
  | some i =>
    rw [hv] at h
    exact .inl h
  | none =>
    rw [hv] at h
    exact (List.mem_append.1 h).imp_right List.mem_singleton.1

/-- The value that was entered stands at its number, in the spelling that came first. -/
theorem Faithful.compare_value_enter [Inhabited α] (hn : n.Faithful) (v : α) :
    compare ((n.enter v).2.value (n.enter v).1) v = .eq := by
  obtain ⟨hfaithful, -, hnumber⟩ := hn.enter v
  exact (hfaithful.number?_eq_some_iff (hfaithful.lt_of_number? hnumber)).1 hnumber

/-- **Entering some values** gives each its number and changes no other. -/
theorem Faithful.enterAll [Inhabited α] [Std.LawfulEqOrd α] (hn : n.Faithful) (vs : List α) :
    (n.enterAll vs).2.Faithful ∧ n.Extends (n.enterAll vs).2 ∧
      (n.enterAll vs).1.map (n.enterAll vs).2.value = vs ∧
      ∀ i ∈ (n.enterAll vs).1, i < (n.enterAll vs).2.values.length := by
  induction vs generalizing n with
  | nil => exact ⟨hn, .refl n, rfl, fun i h => absurd h List.not_mem_nil⟩
  | cons v rest ih =>
    obtain ⟨hfirst, hextends, hnumber⟩ := hn.enter v
    have hlt := hfirst.lt_of_number? hnumber
    obtain ⟨hall, hmore, hvalues, hbound⟩ := ih hfirst
    show ((n.enter v).2.enterAll rest).2.Faithful ∧ n.Extends ((n.enter v).2.enterAll rest).2 ∧
      ((n.enter v).1 :: ((n.enter v).2.enterAll rest).1).map
        ((n.enter v).2.enterAll rest).2.value = v :: rest ∧
      ∀ i ∈ (n.enter v).1 :: ((n.enter v).2.enterAll rest).1,
        i < ((n.enter v).2.enterAll rest).2.values.length
    refine ⟨hall, hextends.trans hmore, ?_, fun i hi => ?_⟩
    · rw [List.map_cons, hvalues, hmore.value_eq hlt,
        Std.LawfulEqOrd.eq_of_compare (hn.compare_value_enter v)]
    · cases List.mem_cons.1 hi with
      | inl h => exact h ▸ Nat.lt_of_lt_of_le hlt hmore.length_le
      | inr h => exact hbound i h

end Order

end Numbering

end IncrementalBuild
