import IncrementalBuild.OrderedMap

/-!
# Numbered values

A numbering gives each value that comes along a number, the next one if the
value is new, and never takes a number back. Values that compare equal have
one number, and the one that came first gives the spelling.
-/

namespace IncrementalBuild

/-- **Values numbered from zero**, in the order in which they came. -/
structure Numbering (α : Type) [Ord α] where
  /-- The values, each at the place of its number. -/
  values : List α
  /-- The number of each value. -/
  numbers : OrderedMap α Nat

namespace Numbering

variable {α : Type} [Ord α]

def empty : Numbering α := ⟨[], ∅⟩

/-- The number of a value, if it has one. -/
def number? (n : Numbering α) (v : α) : Option Nat := n.numbers.get? v

/-- The value with a number. -/
def value [Inhabited α] (n : Numbering α) (i : Nat) : α := n.values.getD i default

section Enter

variable [Std.TransOrd α]

/-- The number of a value, which is given one if it has none. -/
def enter (n : Numbering α) (v : α) : Nat × Numbering α :=
  match n.number? v with
  | some i => (i, n)
  | none => (n.values.length, ⟨n.values ++ [v], n.numbers.insert v n.values.length⟩)

/-- The numbers of some values, entered one after the other. -/
def enterAll (n : Numbering α) : List α → List Nat × Numbering α
  | [] => ([], n)
  | v :: rest =>
    let (i, n) := n.enter v
    let (more, n) := enterAll n rest
    (i :: more, n)

end Enter

end Numbering

end IncrementalBuild
