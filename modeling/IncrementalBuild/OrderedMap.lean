/-!
# Finite maps and sets in key order

A map is the list of its entries, strictly ascending in their keys, and a set
is a map that carries no values. Both are read in key order everywhere a
build reports something, so the order belongs to the type and not to the
printer.

Keys are compared, not tested for identity: two keys with `compare = .eq` are
one key, although they may be spelled differently, as `/p/a` and `/p//a` are.
`insert` keeps the spelling that was there first, and `ofLastEntries` the
spelling that comes last.
-/

namespace IncrementalBuild

universe u v w

/-- A finite map as the list of its entries, strictly ascending in the key. -/
structure OrderedMap (κ : Type u) (α : Type v) [Ord κ] where
  /-- The entries, smallest key first. -/
  entries : List (κ × α)
  /-- The keys ascend strictly. -/
  ascending : entries.Pairwise (fun a b => compare a.1 b.1 = .lt)

namespace OrderedMap

variable {κ : Type u} {α : Type v} {β : Type w} [Ord κ]

instance [BEq κ] [BEq α] : BEq (OrderedMap κ α) := ⟨fun a b => a.entries == b.entries⟩

instance [DecidableEq κ] [DecidableEq α] : DecidableEq (OrderedMap κ α) := fun a b =>
  if h : a.entries = b.entries then
    .isTrue (by cases a; cases b; cases h; rfl)
  else .isFalse (fun e => h (e ▸ rfl))

/-- The map without entries. -/
def empty : OrderedMap κ α := ⟨[], .nil⟩

instance : Inhabited (OrderedMap κ α) := ⟨empty⟩
instance : EmptyCollection (OrderedMap κ α) := ⟨empty⟩

/-- The keys in ascending order. -/
def keys (m : OrderedMap κ α) : List κ := m.entries.map (·.1)

/-- The values, in the order of their keys. -/
def values (m : OrderedMap κ α) : List α := m.entries.map (·.2)

def size (m : OrderedMap κ α) : Nat := m.entries.length

def isEmpty (m : OrderedMap κ α) : Bool := m.entries.isEmpty

/-- The stored key and the value at a key. -/
def entry? (m : OrderedMap κ α) (k : κ) : Option (κ × α) :=
  m.entries.find? (fun e => compare e.1 k == .eq)

def get? (m : OrderedMap κ α) (k : κ) : Option α := (m.entry? k).map (·.2)

def contains (m : OrderedMap κ α) (k : κ) : Bool := (m.entry? k).isSome

/-- Puts a value into an ascending list of entries. A key that is already
there keeps its spelling. -/
def insertEntry (k : κ) (v : α) : List (κ × α) → List (κ × α)
  | [] => [(k, v)]
  | (k', v') :: rest =>
    match compare k k' with
    | .lt => (k, v) :: (k', v') :: rest
    | .eq => (k', v) :: rest
    | .gt => (k', v') :: insertEntry k v rest

/-- A key of the list after an insertion is an old one or compares equal to
the new one. -/
theorem mem_insertEntry {k : κ} {v : α} {e : κ × α} {l : List (κ × α)}
    (h : e ∈ insertEntry k v l) : e = (k, v) ∨ ∃ f ∈ l, e.1 = f.1 := by
  induction l with
  | nil => exact .inl (by simpa [insertEntry] using h)
  | cons head rest ih =>
    obtain ⟨k', v'⟩ := head
    unfold insertEntry at h
    split at h
    · rcases List.mem_cons.1 h with h | h
      · exact .inl h
      · exact .inr ⟨e, h, rfl⟩
    · rcases List.mem_cons.1 h with h | h
      · exact .inr ⟨(k', v'), List.mem_cons_self, by rw [h]⟩
      · exact .inr ⟨e, List.mem_cons_of_mem _ h, rfl⟩
    · rcases List.mem_cons.1 h with h | h
      · exact .inr ⟨(k', v'), List.mem_cons_self, by rw [h]⟩
      · rcases ih h with h | ⟨f, hf, he⟩
        · exact .inl h
        · exact .inr ⟨f, List.mem_cons_of_mem _ hf, he⟩

section Order

variable [Std.TransOrd κ]

/-- **An insertion keeps the order.** -/
theorem pairwise_insertEntry (k : κ) (v : α) {l : List (κ × α)}
    (h : l.Pairwise (fun a b => compare a.1 b.1 = .lt)) :
    (insertEntry k v l).Pairwise (fun a b => compare a.1 b.1 = .lt) := by
  induction l with
  | nil => exact List.pairwise_singleton _ _
  | cons head rest ih =>
    obtain ⟨k', v'⟩ := head
    obtain ⟨hhead, hrest⟩ := List.pairwise_cons.1 h
    unfold insertEntry
    split
    · rename_i hlt
      refine List.pairwise_cons.2 ⟨fun e he => ?_, h⟩
      rcases List.mem_cons.1 he with he | he
      · rw [he]; exact hlt
      · exact Std.TransCmp.lt_trans hlt (hhead e he)
    · exact List.pairwise_cons.2 ⟨hhead, hrest⟩
    · rename_i hgt
      refine List.pairwise_cons.2 ⟨fun e he => ?_, ih hrest⟩
      rcases mem_insertEntry he with he | ⟨f, hf, hef⟩
      · rw [he]; exact Std.OrientedCmp.gt_iff_lt.1 hgt
      · rw [hef]; exact hhead f hf

/-- Puts a value at a key; an equal key that is already there keeps its
spelling. -/
def insert (m : OrderedMap κ α) (k : κ) (v : α) : OrderedMap κ α :=
  ⟨insertEntry k v m.entries, pairwise_insertEntry k v m.ascending⟩

/-- Puts a value at a key that has none yet. -/
def insertNew (m : OrderedMap κ α) (k : κ) (v : α) : OrderedMap κ α :=
  if m.contains k then m else m.insert k v

/-- The map of a list of entries. Of equal keys the first gives the spelling
and the last the value. -/
def ofList (l : List (κ × α)) : OrderedMap κ α :=
  l.foldl (fun m e => m.insert e.1 e.2) empty

end Order

/-- Drops the entry at a key. -/
def erase (m : OrderedMap κ α) (k : κ) : OrderedMap κ α :=
  ⟨m.entries.filter (fun e => compare e.1 k != .eq), m.ascending.filter _⟩

/-- Keeps the entries that pass a test. -/
def filter (m : OrderedMap κ α) (p : κ → α → Bool) : OrderedMap κ α :=
  ⟨m.entries.filter (fun e => p e.1 e.2), m.ascending.filter _⟩

/-- Replaces every value by a function of its key and itself. -/
def mapValues (m : OrderedMap κ α) (f : κ → α → β) : OrderedMap κ β :=
  ⟨m.entries.map (fun e => (e.1, f e.1 e.2)), List.pairwise_map.2 m.ascending⟩

/-- The map of a list of entries. Of equal keys the last gives both the
spelling and the value. -/
def ofLastEntries [Std.TransOrd κ] (l : List (κ × α)) : OrderedMap κ α :=
  l.foldl (fun m e => (m.erase e.1).insert e.1 e.2) empty

/-! ## Looking up -/

@[simp] theorem get?_empty (k : κ) : (empty : OrderedMap κ α).get? k = none := rfl

@[simp] theorem isSome_get? (m : OrderedMap κ α) (k : κ) :
    (m.get? k).isSome = m.contains k := by
  simp [get?, contains]

section LookupOrder

variable [Std.TransOrd κ]

/-- **Equal keys find the same.** -/
theorem get?_congr (m : OrderedMap κ α) {k k' : κ} (h : compare k k' = .eq) :
    m.get? k = m.get? k' := by
  simp [get?, entry?, fun e : κ × α => Std.TransCmp.congr_right (a := e.1) h]

/-- What a search finds after an insertion. -/
theorem find?_insertEntry (k k' : κ) (v : α) (l : List (κ × α)) :
    ((insertEntry k v l).find? (fun e => compare e.1 k' == .eq)).map (·.2)
      = if compare k k' = .eq then some v
        else (l.find? (fun e => compare e.1 k' == .eq)).map (·.2) := by
  induction l with
  | nil => by_cases h : compare k k' = .eq <;> simp [insertEntry, h]
  | cons head rest ih =>
    obtain ⟨k₀, v₀⟩ := head
    unfold insertEntry
    split
    · by_cases h : compare k k' = .eq <;> simp [List.find?_cons, h]
    · rename_i hk
      have same : compare k₀ k' = compare k k' := (Std.TransCmp.congr_left hk).symm
      by_cases h : compare k k' = .eq <;> simp [h, same]
    · rename_i hk
      by_cases h₀ : compare k₀ k' = .eq
      · have h : compare k k' ≠ .eq := by
          rw [← Std.TransCmp.congr_right h₀, hk]
          decide
        simp [h₀, h]
      · simpa [List.find?_cons, h₀] using ih

/-- **An insertion changes what stands at its key, and nothing else.** -/
theorem get?_insert (m : OrderedMap κ α) (k k' : κ) (v : α) :
    (m.insert k v).get? k' = if compare k k' = .eq then some v else m.get? k' :=
  find?_insertEntry k k' v m.entries

/-- **An erasure takes away what stands at its key, and nothing else.** -/
theorem get?_erase (m : OrderedMap κ α) (k k' : κ) :
    (m.erase k).get? k' = if compare k k' = .eq then none else m.get? k' := by
  have search (l : List (κ × α)) :
      (l.filter (fun e => compare e.1 k != .eq)).find? (fun e => compare e.1 k' == .eq)
        = if compare k k' = .eq then none
          else l.find? (fun e => compare e.1 k' == .eq) := by
    induction l with
    | nil => simp
    | cons e rest ih =>
      by_cases hk : compare e.1 k = .eq
      · have same : compare e.1 k' = compare k k' := Std.TransCmp.congr_left hk
        rw [List.filter_cons_of_neg (by simp [hk]), ih]
        by_cases h : compare k k' = .eq <;> simp [h, same]
      · by_cases h' : compare e.1 k' = .eq
        · have h : compare k k' ≠ .eq := fun h => hk (by
            rw [Std.TransCmp.congr_right h, h'])
          simp [hk, h', h]
        · simp_all
  unfold get? entry? erase
  rw [search]
  split <;> rfl

@[simp] theorem get?_insert_self (m : OrderedMap κ α) (k : κ) (v : α) :
    (m.insert k v).get? k = some v := by
  simp [get?_insert]

@[simp] theorem get?_erase_self (m : OrderedMap κ α) (k : κ) : (m.erase k).get? k = none := by
  simp [get?_erase]

end LookupOrder

end OrderedMap

/-- A finite set in ascending order. -/
abbrev OrderedSet (κ : Type u) [Ord κ] := OrderedMap κ Unit

namespace OrderedSet

variable {κ : Type u} [Ord κ]

/-- The members in ascending order. -/
def toList (s : OrderedSet κ) : List κ := OrderedMap.keys s

section Order

variable [Std.TransOrd κ]

/-- Adds a member; an equal one that is already there keeps its spelling. -/
def add (s : OrderedSet κ) (k : κ) : OrderedSet κ := OrderedMap.insert s k ()

/-- The set of a list; of equal members the first gives the spelling. -/
def ofList (l : List κ) : OrderedSet κ := l.foldl add OrderedMap.empty

/-- The members of either set; the first set's spellings win. -/
def union (s t : OrderedSet κ) : OrderedSet κ := t.toList.foldl add s

end Order

end OrderedSet

end IncrementalBuild
