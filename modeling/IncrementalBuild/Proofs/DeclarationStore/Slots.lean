import IncrementalBuild.DependencyGraph
import IncrementalBuild.Proofs.Numbering
import Mathlib.Data.List.Nodup
import Mathlib.Logic.Function.Basic
import Mathlib.Tactic.ByContra
import Mathlib.Tactic.Tauto

/-!
# A store is in step with itself

Every slot of a store is written down several times: with the file that owns it, and in three
indexes under the keys that its declaration mentions. `InStep` says that all of them agree
with what the slot holds. It is stated for any account of which slots belong to which file, so
that it also holds in between, while the slots of a file are emptied or filled one by one.

A step empties or fills one slot. It keeps the store in step and leaves what every other
slot holds alone, and what is written down in numbers keeps its meaning, since numbers are
never taken back. So replacing the declarations of a file changes the declarations of that
file and of no other.
-/

namespace IncrementalBuild

/-! ## Indexes -/

namespace SlotIndex

variable {ix : SlotIndex} {slot key k t : Nat}

/-- Whether a slot stands under a key. -/
def Lists (ix : SlotIndex) (key slot : Nat) : Prop := (ix.slotsAt key).contains slot = true

/-- No slot stands under a key exactly when the set of its slots is empty. -/
theorem isEmpty_slotsAt : (ix.slotsAt key).isEmpty = true ↔ ∀ slot, ¬ ix.Lists key slot := by
  unfold Lists
  generalize ix.slotsAt key = slots
  constructor
  · intro hempty t ht
    obtain ⟨e, he, -⟩ := OrderedMap.contains_iff.1 ht
    rw [List.isEmpty_iff.1 hempty] at he
    cases he
  · intro hnone
    refine List.isEmpty_iff.2 (List.eq_nil_iff_forall_not_mem.2 fun e he => hnone e.1 ?_)
    exact OrderedMap.contains_iff.2 ⟨e, he, Std.ReflOrd.compare_self⟩

theorem lists_enter : (ix.enter slot key).Lists k t ↔ k = key ∧ t = slot ∨ ix.Lists k t := by
  unfold Lists slotsAt enter
  rw [OrderedMap.get?_insert]
  by_cases hk : compare key k = .eq
  · obtain rfl := Std.LawfulEqOrd.eq_of_compare hk
    rw [if_pos hk, Option.getD_some, OrderedSet.contains_add, Bool.or_eq_true, beq_iff_eq,
      Std.compare_eq_iff_eq]
    exact or_congr_left ⟨fun h => ⟨rfl, h.symm⟩, fun h => h.2.symm⟩
  · rw [if_neg hk]
    refine (or_iff_right fun h => hk ?_).symm
    rw [h.1]
    exact Std.ReflOrd.compare_self

theorem lists_strike : (ix.strike slot key).Lists k t ↔ ix.Lists k t ∧ ¬ (k = key ∧ t = slot) := by
  unfold Lists strike slotsAt
  cases hslots : ix.get? key with
  | none =>
    refine (and_iff_left_of_imp fun h => ?_).symm
    rintro ⟨rfl, -⟩
    rw [hslots] at h
    cases h
  | some slots =>
    -- At the key itself the slot is taken out. If no slot is left the key goes too, which a
    -- lookup of slots does not tell from an empty set.
    by_cases hk : compare key k = .eq
    · obtain rfl := Std.LawfulEqOrd.eq_of_compare hk
      have hleft : (((if (slots.erase slot).isEmpty then OrderedMap.erase ix key
          else OrderedMap.insert ix key (slots.erase slot)).get? key).getD ∅).contains t
            = (slots.erase slot).contains t := by
        split
        · rename_i hempty
          rw [OrderedMap.get?_erase_self]
          have hentries : (slots.erase slot).entries = [] := List.isEmpty_iff.1 hempty
          unfold OrderedMap.contains OrderedMap.entry?
          rw [hentries]
          rfl
        · rw [OrderedMap.get?_insert_self]
          rfl
      rw [hslots]
      refine (Bool.eq_iff_iff.1 hleft).trans ?_
      rw [OrderedMap.contains_erase, Bool.and_eq_true, bne_iff_ne, ne_eq, Std.compare_eq_iff_eq]
      exact ⟨fun h => ⟨h.2, fun e => h.1 e.2.symm⟩, fun h => ⟨fun e => h.2 ⟨rfl, e.symm⟩, h.1⟩⟩
    -- At other keys nothing changes.
    · have hne : k ≠ key := fun h => hk (h ▸ Std.ReflOrd.compare_self)
      have hsame : (if (slots.erase slot).isEmpty then OrderedMap.erase ix key
          else OrderedMap.insert ix key (slots.erase slot)).get? k = ix.get? k := by
        split
        · rw [OrderedMap.get?_erase, if_neg hk]
        · rw [OrderedMap.get?_insert, if_neg hk]
      dsimp only
      rw [hsame]
      exact (and_iff_left fun h => hne h.1).symm

theorem lists_foldl_enter (ks : List Nat) (ix : SlotIndex) :
    (ks.foldl (fun ix key => ix.enter slot key) ix).Lists k t
      ↔ k ∈ ks ∧ t = slot ∨ ix.Lists k t := by
  induction ks generalizing ix with
  | nil => simp
  | cons key rest ih =>
    rw [List.foldl_cons, ih, lists_enter, List.mem_cons]
    tauto

theorem lists_foldl_strike (ks : List Nat) (ix : SlotIndex) :
    (ks.foldl (fun ix key => ix.strike slot key) ix).Lists k t
      ↔ ix.Lists k t ∧ ¬ (k ∈ ks ∧ t = slot) := by
  induction ks generalizing ix with
  | nil => simp
  | cons key rest ih =>
    rw [List.foldl_cons, ih, lists_strike, List.mem_cons]
    tauto

/-- **An index in step with what slots hold**: under each key stand the slots that mention it
in a certain way. -/
def Follows (ix : SlotIndex) (contentAt? : Nat → Option SlotContent)
    (keysOf : SlotContent → List Nat) : Prop :=
  ∀ key slot, ix.Lists key slot ↔ ∃ c, contentAt? slot = some c ∧ key ∈ keysOf c

variable {at? at?' : Nat → Option SlotContent} {keysOf : SlotContent → List Nat}
  {c : SlotContent}

/-- An index stays in step when a slot is emptied. -/
theorem Follows.vacate (h : ix.Follows at? keysOf) (hc : at? slot = some c)
    (hat : ∀ t, at?' t = if t = slot then none else at? t) :
    ((keysOf c).foldl (fun ix key => ix.strike slot key) ix).Follows at?' keysOf := by
  intro k t
  rw [lists_foldl_strike, h k t, hat]
  by_cases ht : t = slot
  · subst ht
    rw [if_pos rfl, hc]
    refine iff_of_false (fun hk => ?_) fun ⟨c', hc', _⟩ => by cases hc'
    obtain ⟨⟨c', hc', hmem⟩, hnot⟩ := hk
    obtain rfl := Option.some.inj hc'
    exact hnot ⟨hmem, rfl⟩
  · rw [if_neg ht]
    exact and_iff_left fun hk => ht hk.2

/-- An index stays in step when a free slot is filled. -/
theorem Follows.place (h : ix.Follows at? keysOf) (hfree : at? slot = none)
    (hat : ∀ t, at?' t = if t = slot then some c else at? t) :
    ((keysOf c).foldl (fun ix key => ix.enter slot key) ix).Follows at?' keysOf := by
  intro k t
  rw [lists_foldl_enter, h k t, hat]
  by_cases ht : t = slot
  · subst ht
    rw [if_pos rfl, hfree]
    constructor
    · rintro (⟨hk, -⟩ | ⟨c', hc', -⟩)
      · exact ⟨c, rfl, hk⟩
      · cases hc'
    · rintro ⟨c', hc', hk⟩
      exact .inl ⟨Option.some.inj hc' ▸ hk, rfl⟩
  · rw [if_neg ht]
    exact or_iff_right fun hk => ht hk.2

end SlotIndex

/-! ## Declarations in numbers -/

namespace SlotContent

variable {c : SlotContent} {keys keys' : Numbering String}

/-- The keys that a declaration mentions, by their numbers. -/
def mentioned (c : SlotContent) : List Nat := c.key :: (c.provides ++ c.uses)

/-- **What is written in numbers keeps its meaning** when more keys are numbered. -/
theorem declaration_eq_of_extends (h : keys.Extends keys')
    (hc : ∀ key ∈ c.mentioned, key < keys.values.length) :
    c.declaration keys' = c.declaration keys := by
  have hvalue (key : Nat) (hkey : key ∈ c.mentioned) : keys'.value key = keys.value key :=
    h.value_eq (hc key hkey)
  unfold declaration
  rw [hvalue c.key List.mem_cons_self,
    List.map_congr_left fun key hkey => hvalue key (List.mem_cons_of_mem _
      (List.mem_append_left _ hkey)),
    List.map_congr_left fun key hkey => hvalue key (List.mem_cons_of_mem _
      (List.mem_append_right _ hkey))]

/-- **Writing a declaration in numbers** loses nothing, and changes no number that was given
before. -/
theorem ofDeclaration_spec (hkeys : keys.Faithful) (file : Nat) (d : Declaration) :
    (ofDeclaration keys file d).2.Faithful ∧ keys.Extends (ofDeclaration keys file d).2 ∧
      (ofDeclaration keys file d).1.declaration (ofDeclaration keys file d).2 = d ∧
      ∀ key ∈ (ofDeclaration keys file d).1.mentioned,
        key < (ofDeclaration keys file d).2.values.length := by
  obtain ⟨hfirst, hkey, hnumber⟩ := hkeys.enter d.key
  obtain ⟨hsecond, hprovides, hprovided, hprovidedLt⟩ := hfirst.enterAll d.provides
  obtain ⟨hthird, huses, hused, husedLt⟩ := hsecond.enterAll d.uses
  have hkeyLt := hfirst.lt_of_number? hnumber
  refine ⟨hthird, hkey.trans (hprovides.trans huses), ?_, fun key hmem => ?_⟩
  · unfold declaration
    refine congr (congr (congrFun (congrArg Declaration.mk ?_) _) ?_) hused
    · exact ((hprovides.trans huses).value_eq hkeyLt).trans
        (Std.LawfulEqOrd.eq_of_compare (hkeys.compare_value_enter d.key))
    · exact (List.map_congr_left fun key h => huses.value_eq (hprovidedLt key h)).trans hprovided
  · rcases List.mem_cons.1 hmem with rfl | hmem
    · exact Nat.lt_of_lt_of_le hkeyLt (hprovides.trans huses).length_le
    · rcases List.mem_append.1 hmem with hmem | hmem
      · exact Nat.lt_of_lt_of_le (hprovidedLt key hmem) huses.length_le
      · exact husedLt key hmem

end SlotContent

namespace DeclarationStore

variable {s s' : DeclarationStore} {slotsIn : Nat → List Nat} {file slot t : Nat}
  {c : SlotContent} {p q : Path} {d : Declaration} {ds : List Declaration}

/-! ## What slots hold -/

theorem lt_length_of_contentAt? (h : s.contentAt? slot = some c) : slot < s.slots.length := by
  unfold contentAt? at h
  by_contra hlt
  rw [List.getElem?_eq_none (Nat.le_of_not_lt hlt)] at h
  cases h

/-- Writing into a slot leaves all others alone. -/
theorem join_getElem?_set (l : List (Option SlotContent)) (hslot : slot < l.length)
    (content : Option SlotContent) (t : Nat) :
    ((l.set slot content)[t]?).join = if t = slot then content else (l[t]?).join := by
  rw [List.getElem?_set]
  by_cases h : slot = t
  · subst h
    simp [hslot]
  · rw [if_neg h, if_neg (Ne.symm h)]

/-- **Emptying a slot** leaves all others alone. -/
theorem contentAt?_vacate (s : DeclarationStore) (slot t : Nat) :
    (s.vacate slot).contentAt? t = if t = slot then none else s.contentAt? t := by
  unfold vacate
  cases hc : s.contentAt? slot with
  | none =>
    by_cases ht : t = slot
    · rw [if_pos ht, ht]
      exact hc
    · rw [if_neg ht]
  | some c => exact join_getElem?_set _ (lt_length_of_contentAt? hc) none t

/-! ## The invariant -/

/-- **A store in step with itself**, where some slots belong to each file. -/
structure InStep (s : DeclarationStore) (slotsIn : Nat → List Nat) : Prop where
  keys : s.keys.Faithful
  paths : s.paths.Faithful
  mem_iff : ∀ file slot, slot ∈ slotsIn file ↔ ∃ c, s.contentAt? slot = some c ∧ c.file = file
  nodup : ∀ file, (slotsIn file).Nodup
  nodup_free : s.free.Nodup
  /-- Free slots are there, and hold nothing. -/
  free_spec : ∀ slot ∈ s.free, slot < s.slots.length ∧ s.contentAt? slot = none
  /-- What is mentioned has a number. -/
  numbered : ∀ slot c, s.contentAt? slot = some c → ∀ key ∈ c.mentioned,
    key < s.keys.values.length
  providers : s.providers.Follows s.contentAt? fun c => [c.key]
  interfaceUsers : s.interfaceUsers.Follows s.contentAt? (·.provides)
  bodyUsers : s.bodyUsers.Follows s.contentAt? (·.uses)

theorem inStep_empty : empty.InStep fun _ => [] where
  keys := Numbering.faithful_empty
  paths := Numbering.faithful_empty
  mem_iff _ _ := iff_of_false List.not_mem_nil fun ⟨_, h, _⟩ => by cases h
  nodup _ := List.nodup_nil
  nodup_free := List.nodup_nil
  free_spec _ h := absurd h List.not_mem_nil
  numbered _ _ h := by cases h
  providers _ _ := iff_of_false (fun h => by cases h) fun ⟨_, h, _⟩ => by cases h
  interfaceUsers _ _ := iff_of_false (fun h => by cases h) fun ⟨_, h, _⟩ => by cases h
  bodyUsers _ _ := iff_of_false (fun h => by cases h) fun ⟨_, h, _⟩ => by cases h

/-! ## Emptying slots -/

/-- **Emptying the first slot of a file keeps a store in step.** -/
theorem InStep.vacate (hs : s.InStep slotsIn) {rest : List Nat} (h : slotsIn file = slot :: rest) :
    (s.vacate slot).InStep (Function.update slotsIn file rest) := by
  have hslot : slot ∈ slotsIn file := h ▸ List.mem_cons_self
  obtain ⟨hnot, hrest⟩ := List.nodup_cons.1 (h ▸ hs.nodup file)
  obtain ⟨c, hc, hfile⟩ := (hs.mem_iff file slot).1 hslot
  have hat := contentAt?_vacate s slot
  have hstore : s.vacate slot = { s with
      slots := s.slots.set slot none
      free := slot :: s.free
      providers := s.providers.strike slot c.key
      interfaceUsers := c.provides.foldl (fun ix key => ix.strike slot key) s.interfaceUsers
      bodyUsers := c.uses.foldl (fun ix key => ix.strike slot key) s.bodyUsers } := by
    unfold DeclarationStore.vacate
    rw [hc]
  have hfree : slot ∉ s.free := fun hmem => by
    rw [(hs.free_spec slot hmem).2] at hc
    cases hc
  refine ⟨?_, ?_, fun f t => ?_, fun f => ?_, ?_, fun t ht => ?_, fun t c' hc' => ?_, ?_, ?_, ?_⟩
  -- Numbers of keys and of files are given out as before.
  · rw [hstore]
    exact hs.keys
  · rw [hstore]
    exact hs.paths
  -- The slots of a file are those that hold something of it. Of `file` one is gone, and the slot
  -- was of no other file.
  · rw [hat]
    by_cases hf : f = file
    · subst hf
      rw [Function.update_self]
      by_cases ht : t = slot
      · rw [if_pos ht, ht]
        exact iff_of_false hnot fun ⟨_, h, _⟩ => by cases h
      · rw [if_neg ht, ← hs.mem_iff, h, List.mem_cons]
        exact (or_iff_right ht).symm
    · rw [Function.update_of_ne hf, hs.mem_iff]
      by_cases ht : t = slot
      · rw [if_pos ht, ht, hc]
        refine iff_of_false (fun ⟨c', hc', hf'⟩ => hf ?_) fun ⟨_, h, _⟩ => by cases h
        rw [← hf', ← hfile, Option.some.inj hc']
      · rw [if_neg ht]
  -- No file has a slot twice.
  · by_cases hf : f = file
    · subst hf
      rw [Function.update_self]
      exact hrest
    · rw [Function.update_of_ne hf]
      exact hs.nodup f
  -- The emptied slot is free now, and it was not free before.
  · rw [hstore]
    exact List.nodup_cons.2 ⟨hfree, hs.nodup_free⟩
  · rw [hat]
    rw [hstore] at ht ⊢
    rw [List.length_set]
    cases List.mem_cons.1 ht with
    | inl h =>
      rw [if_pos h, h]
      exact ⟨lt_length_of_contentAt? hc, rfl⟩
    | inr h =>
      rw [if_neg fun e : t = slot => hfree (e ▸ h)]
      exact hs.free_spec t h
  -- The keys that are mentioned have their numbers.
  · rw [hat] at hc'
    split at hc'
    · cases hc'
    · rw [hstore]
      exact hs.numbered t c' hc'
  -- The three indexes have lost what they had for the slot.
  · have hindex := hs.providers.vacate hc hat
    rw [hstore] at hindex ⊢
    exact hindex
  · have hindex := hs.interfaceUsers.vacate hc hat
    rw [hstore] at hindex ⊢
    exact hindex
  · have hindex := hs.bodyUsers.vacate hc hat
    rw [hstore] at hindex ⊢
    exact hindex

/-- Emptying slots leaves what others hold alone. -/
theorem contentAt?_foldl_vacate (slots : List Nat) (s : DeclarationStore) (t : Nat) :
    (slots.foldl vacate s).contentAt? t = if t ∈ slots then none else s.contentAt? t := by
  induction slots generalizing s with
  | nil => exact (if_neg List.not_mem_nil).symm
  | cons slot rest ih =>
    rw [List.foldl_cons, ih, contentAt?_vacate]
    by_cases hrest : t ∈ rest <;> by_cases ht : t = slot <;> simp [hrest, ht]

/-- Emptying slots leaves all numbers and the files alone. -/
theorem foldl_vacate_frame (slots : List Nat) (s : DeclarationStore) :
    (slots.foldl vacate s).keys = s.keys ∧ (slots.foldl vacate s).paths = s.paths ∧
      (slots.foldl vacate s).byFile = s.byFile := by
  induction slots generalizing s with
  | nil => exact ⟨rfl, rfl, rfl⟩
  | cons slot rest ih =>
    obtain ⟨hkeys, hpaths, hfiles⟩ := ih (s.vacate slot)
    have hframe : (s.vacate slot).keys = s.keys ∧ (s.vacate slot).paths = s.paths ∧
        (s.vacate slot).byFile = s.byFile := by
      unfold vacate
      split <;> exact ⟨rfl, rfl, rfl⟩
    exact ⟨hkeys.trans hframe.1, hpaths.trans hframe.2.1, hfiles.trans hframe.2.2⟩

/-- **Emptying all slots of a file keeps a store in step.** -/
theorem InStep.vacateAll (hs : s.InStep slotsIn) (file : Nat) :
    ((slotsIn file).foldl DeclarationStore.vacate s).InStep (Function.update slotsIn file []) := by
  generalize hslots : slotsIn file = slots
  induction slots generalizing s slotsIn with
  | nil =>
    rw [← hslots, Function.update_eq_self, hslots]
    exact hs
  | cons slot rest ih =>
    have hrest := ih (hs.vacate hslots) (Function.update_self ..)
    rw [Function.update_idem] at hrest
    exact hrest

/-! ## Filling slots -/

/-- **Filling a slot** takes one that held nothing, and leaves all others alone. -/
theorem InStep.contentAt?_fill (hs : s.InStep slotsIn) (c : SlotContent) :
    s.contentAt? (s.fill c).1 = none ∧
      ∀ t, (s.fill c).2.contentAt? t = if t = (s.fill c).1 then some c else s.contentAt? t := by
  unfold fill place
  cases hfree : s.free with
  | cons slot rest =>
    obtain ⟨hlt, hnone⟩ := hs.free_spec slot (hfree ▸ List.mem_cons_self)
    exact ⟨hnone, join_getElem?_set s.slots hlt (some c)⟩
  | nil =>
    refine ⟨congrArg Option.join (List.getElem?_eq_none (Nat.le_refl _)), fun t => ?_⟩
    show ((s.slots ++ [some c])[t]?).join
      = if t = s.slots.length then some c else (s.slots[t]?).join
    by_cases ht : t = s.slots.length
    · rw [if_pos ht, ht, List.getElem?_concat_length]
      rfl
    · rw [if_neg ht]
      by_cases hlt : t < s.slots.length
      · rw [List.getElem?_append_left hlt]
      · rw [List.getElem?_eq_none (Nat.le_of_not_lt hlt), List.getElem?_eq_none]
        rw [List.length_append, List.length_singleton]
        omega

/-- The free slots after one was filled. -/
theorem InStep.free_fill (hs : s.InStep slotsIn) (c : SlotContent) :
    (s.fill c).2.free = s.free.tail ∧ (s.fill c).1 ∉ s.free.tail ∧
      s.slots.length ≤ (s.fill c).2.slots.length := by
  unfold fill place
  cases hfree : s.free with
  | cons slot rest =>
    exact ⟨rfl, (List.nodup_cons.1 (hfree ▸ hs.nodup_free)).1,
      Nat.le_of_eq (List.length_set ..).symm⟩
  | nil =>
    refine ⟨rfl, List.not_mem_nil, ?_⟩
    show s.slots.length ≤ (s.slots ++ [some c]).length
    rw [List.length_append]
    exact Nat.le_add_right _ _

theorem fill_frame (s : DeclarationStore) (c : SlotContent) :
    (s.fill c).2.keys = s.keys ∧ (s.fill c).2.paths = s.paths ∧
      (s.fill c).2.byFile = s.byFile := by
  unfold fill place
  cases s.free <;> exact ⟨rfl, rfl, rfl⟩

/-- What the indexes list after a slot was filled. -/
theorem fill_indexes (s : DeclarationStore) (c : SlotContent) :
    (s.fill c).2.providers = s.providers.enter (s.fill c).1 c.key ∧
      (s.fill c).2.interfaceUsers
        = c.provides.foldl (fun ix key => ix.enter (s.fill c).1 key) s.interfaceUsers ∧
      (s.fill c).2.bodyUsers
        = c.uses.foldl (fun ix key => ix.enter (s.fill c).1 key) s.bodyUsers := by
  unfold fill place
  cases s.free <;> exact ⟨rfl, rfl, rfl⟩

/-- **Filling a slot for a file keeps a store in step.** -/
theorem InStep.fill (hs : s.InStep slotsIn) (c : SlotContent)
    (hnumbered : ∀ key ∈ c.mentioned, key < s.keys.values.length) :
    (s.fill c).2.InStep (Function.update slotsIn c.file (slotsIn c.file ++ [(s.fill c).1])) := by
  obtain ⟨hnone, hat⟩ := hs.contentAt?_fill c
  obtain ⟨hfree, hfilled, hlength⟩ := hs.free_fill c
  obtain ⟨hkeys, hpaths, -⟩ := s.fill_frame c
  obtain ⟨hproviders, hinterface, hbody⟩ := s.fill_indexes c
  have hnew (f : Nat) : (s.fill c).1 ∉ slotsIn f := fun hmem => by
    obtain ⟨c', hc', -⟩ := (hs.mem_iff f _).1 hmem
    rw [hnone] at hc'
    cases hc'
  -- The parts in the order of the structure.
  refine ⟨hkeys ▸ hs.keys, hpaths ▸ hs.paths, fun f t => ?_, fun f => ?_, ?_, fun t ht => ?_,
    fun t c' hc' => ?_, ?_, ?_, ?_⟩
  -- The slots of a file: that of `c` has one more, which no file had before.
  · rw [hat]
    by_cases hf : f = c.file
    · subst hf
      rw [Function.update_self, List.mem_append, List.mem_singleton]
      by_cases ht : t = (s.fill c).1
      · rw [if_pos ht]
        exact iff_of_true (.inr ht) ⟨c, rfl, rfl⟩
      · rw [if_neg ht, ← hs.mem_iff]
        exact or_iff_left ht
    · rw [Function.update_of_ne hf]
      by_cases ht : t = (s.fill c).1
      · rw [if_pos ht, ht]
        refine iff_of_false (hnew f) fun ⟨c', hc', hf'⟩ => hf ?_
        rw [← hf', Option.some.inj hc']
      · rw [if_neg ht]
        exact hs.mem_iff f t
  -- No file has a slot twice, since the slot is a new one.
  · by_cases hf : f = c.file
    · subst hf
      rw [Function.update_self]
      exact List.nodup_append.2 ⟨hs.nodup _, List.nodup_singleton _, fun a ha b hb hab =>
        hnew _ (List.mem_singleton.1 hb ▸ hab ▸ ha)⟩
    · rw [Function.update_of_ne hf]
      exact hs.nodup f
  -- The slot that was filled is not free any more.
  · rw [hfree]
    exact hs.nodup_free.tail
  · rw [hfree] at ht
    obtain ⟨hlt, hempty⟩ := hs.free_spec t (List.mem_of_mem_tail ht)
    have hne : t ≠ (s.fill c).1 := fun e => hfilled (e ▸ ht)
    rw [hat, if_neg hne]
    exact ⟨Nat.lt_of_lt_of_le hlt hlength, hempty⟩
  -- The keys that are mentioned have numbers, those of `c` by assumption.
  · rw [hat] at hc'
    rw [hkeys]
    split at hc'
    · exact Option.some.inj hc' ▸ hnumbered
    · exact hs.numbered t c' hc'
  -- The three indexes list the new slot as well.
  · rw [hproviders]
    exact hs.providers.place hnone hat
  · rw [hinterface]
    exact hs.interfaceUsers.place hnone hat
  · rw [hbody]
    exact hs.bodyUsers.place hnone hat

/-! ## Putting declarations in -/

/-- **Whether a store keeps all that another one holds**, in the same slots and with the same
meaning. -/
structure Keeps (s s' : DeclarationStore) : Prop where
  keys : s.keys.Extends s'.keys
  paths : s'.paths = s.paths
  byFile : s'.byFile = s.byFile
  content : ∀ t c, s.contentAt? t = some c → s'.contentAt? t = some c

theorem Keeps.refl (s : DeclarationStore) : s.Keeps s := ⟨.refl _, rfl, rfl, fun _ _ h => h⟩

theorem Keeps.trans {s'' : DeclarationStore} (h : s.Keeps s') (h' : s'.Keeps s'') :
    s.Keeps s'' where
  keys := h.keys.trans h'.keys
  paths := h'.paths.trans h.paths
  byFile := h'.byFile.trans h.byFile
  content t c hc := h'.content t c (h.content t c hc)

/-- The declarations in some slots. -/
def declarationsIn (s : DeclarationStore) (slots : List Nat) : List Declaration :=
  (slots.filterMap s.contentAt?).map s.declaration

theorem declarationsIn_cons (s : DeclarationStore) (t : Nat) (slots : List Nat) :
    s.declarationsIn (t :: slots) = s.declarationsIn [t] ++ s.declarationsIn slots := by
  unfold declarationsIn
  rw [← List.map_append, ← List.filterMap_append]
  rfl

/-- **Where slots hold the same, they are read alike.** -/
theorem InStep.declarationsIn_eq (hs : s.InStep slotsIn) (hkeys : s.keys.Extends s'.keys)
    {slots : List Nat} (h : ∀ t ∈ slots, s'.contentAt? t = s.contentAt? t) :
    s'.declarationsIn slots = s.declarationsIn slots := by
  unfold declarationsIn
  rw [List.filterMap_congr h]
  refine List.map_congr_left fun c hc => ?_
  obtain ⟨t, -, hct⟩ := List.mem_filterMap.1 hc
  exact SlotContent.declaration_eq_of_extends hkeys (hs.numbered t c hct)

/-- More keys may be numbered at any time. -/
theorem InStep.number (hs : s.InStep slotsIn) {keys : Numbering String} (hkeys : keys.Faithful)
    (hextends : s.keys.Extends keys) : InStep { s with keys } slotsIn where
  keys := hkeys
  paths := hs.paths
  mem_iff := hs.mem_iff
  nodup := hs.nodup
  nodup_free := hs.nodup_free
  free_spec := hs.free_spec
  numbered slot c hc key hkey :=
    Nat.lt_of_lt_of_le (hs.numbered slot c hc key hkey) hextends.length_le
  providers := hs.providers
  interfaceUsers := hs.interfaceUsers
  bodyUsers := hs.bodyUsers

/-- **Putting a declaration in** adds one slot to its file, which holds the declaration, and
loses nothing. -/
theorem InStep.putDeclaration (hs : s.InStep slotsIn) (file : Nat) (d : Declaration) :
    (s.putDeclaration file d).2.InStep
        (Function.update slotsIn file (slotsIn file ++ [(s.putDeclaration file d).1])) ∧
      s.Keeps (s.putDeclaration file d).2 ∧
      (s.putDeclaration file d).2.declarationsIn [(s.putDeclaration file d).1] = [d] := by
  obtain ⟨hfaithful, hextends, hread, hlt⟩ := SlotContent.ofDeclaration_spec hs.keys file d
  have hnumbered := hs.number hfaithful hextends
  unfold DeclarationStore.putDeclaration
  obtain ⟨hnone, hat⟩ := hnumbered.contentAt?_fill (SlotContent.ofDeclaration s.keys file d).1
  obtain ⟨hkeys, hpaths, hbyFile⟩ :=
    fill_frame { s with keys := (SlotContent.ofDeclaration s.keys file d).2 }
      (SlotContent.ofDeclaration s.keys file d).1
  refine ⟨hnumbered.fill _ hlt, ⟨hkeys ▸ hextends, hpaths, hbyFile, fun t c hc => ?_⟩, ?_⟩
  · rw [hat, if_neg]
    · exact hc
    · rintro rfl
      exact Option.some_ne_none c (hc.symm.trans hnone)
  · unfold declarationsIn declaration
    rw [List.filterMap_cons_some ((hat _).trans (if_pos rfl)), List.filterMap_nil,
      List.map_singleton, hkeys, hread]

theorem putDeclarations_cons (s : DeclarationStore) (file : Nat) (d : Declaration)
    (rest : List Declaration) :
    s.putDeclarations file (d :: rest)
      = ((s.putDeclaration file d).1 :: ((s.putDeclaration file d).2.putDeclarations file rest).1,
        ((s.putDeclaration file d).2.putDeclarations file rest).2) := rfl

/-- **Putting declarations in**, one after the other, adds their slots to their file. -/
theorem InStep.putDeclarations (hs : s.InStep slotsIn) (file : Nat) (ds : List Declaration) :
    (s.putDeclarations file ds).2.InStep
        (Function.update slotsIn file (slotsIn file ++ (s.putDeclarations file ds).1)) ∧
      s.Keeps (s.putDeclarations file ds).2 ∧
      (s.putDeclarations file ds).2.declarationsIn (s.putDeclarations file ds).1 = ds := by
  induction ds generalizing s slotsIn with
  | nil =>
    refine ⟨?_, .refl s, rfl⟩
    show s.InStep (Function.update slotsIn file (slotsIn file ++ []))
    rw [List.append_nil, Function.update_eq_self]
    exact hs
  | cons d rest ih =>
    obtain ⟨hfirst, hkeeps, hd⟩ := hs.putDeclaration file d
    obtain ⟨hrest, hkeeps', hds⟩ := ih hfirst
    rw [Function.update_self, Function.update_idem, List.append_assoc] at hrest
    rw [putDeclarations_cons]
    refine ⟨hrest, hkeeps.trans hkeeps', ?_⟩
    -- The first declaration is still in its slot after the others are put in.
    have hslot : (s.putDeclaration file d).1
        ∈ Function.update slotsIn file (slotsIn file ++ [(s.putDeclaration file d).1]) file := by
      rw [Function.update_self]
      exact List.mem_append_right _ List.mem_cons_self
    obtain ⟨c, hc, -⟩ := (hfirst.mem_iff file _).1 hslot
    have hsame : ∀ t ∈ [(s.putDeclaration file d).1],
        ((s.putDeclaration file d).2.putDeclarations file rest).2.contentAt? t
          = (s.putDeclaration file d).2.contentAt? t := fun t ht => by
      rw [List.mem_singleton.1 ht, hc, hkeeps'.content _ c hc]
    have hkept := hfirst.declarationsIn_eq hkeeps'.keys hsame
    rw [declarationsIn_cons, hkept, hd, hds]
    rfl

end DeclarationStore

end IncrementalBuild
