import IncrementalBuild.Proofs.DeclarationStore.Files

/-!
# What a store is asked

A store answers from its indexes. The answers are those that its declarations give: a file
is there if it declares something, a key is provided by the files that declare it, and a
change reaches the files of the declarations that it reaches.
-/

namespace IncrementalBuild

namespace DeclarationStore

variable {s : DeclarationStore} {slot : Nat} {c : SlotContent} {p q : Path} {d : Declaration}

/-- **The declarations of a file are those in slots of the file.** -/
theorem Consistent.mem_declarationsOf (hs : s.Consistent) :
    d ∈ s.declarationsOf p ↔ ∃ slot c, s.contentAt? slot = some c ∧
      s.paths.number? p = some c.file ∧ s.declaration c = d := by
  unfold declarationsOf
  rw [List.mem_map]
  constructor
  · rintro ⟨c, hc, hd⟩
    obtain ⟨slot, hslot, hc⟩ := List.mem_filterMap.1 hc
    obtain ⟨c', hc', hp⟩ := hs.mem_slotsOf.1 hslot
    obtain rfl := Option.some.inj (hc.symm.trans hc')
    exact ⟨slot, c, hc, hp, hd⟩
  · rintro ⟨slot, c, hc, hp, hd⟩
    exact ⟨c, List.mem_filterMap.2 ⟨slot, hs.mem_slotsOf.2 ⟨c, hc, hp⟩, hc⟩, hd⟩

/-- A file has one declaration in each of its slots. -/
theorem Consistent.length_declarationsOf (hs : s.Consistent) (p : Path) :
    (s.declarationsOf p).length = (s.slotsOf p).length := by
  unfold declarationsOf
  rw [List.length_map, List.filterMap_length_eq_length]
  intro slot hslot
  obtain ⟨c, hc, -⟩ := hs.mem_slotsOf.1 hslot
  rw [hc]
  rfl

/-- **A file is there if it has declarations.** -/
theorem Consistent.containsFile_eq (hs : s.Consistent) (p : Path) :
    s.containsFile p = !(s.declarationsOf p).isEmpty := by
  have hempty : (s.declarationsOf p).isEmpty = (s.slotsOf p).isEmpty := by
    rw [Bool.eq_iff_iff, List.isEmpty_iff_length_eq_zero, List.isEmpty_iff_length_eq_zero,
      hs.length_declarationsOf]
  rw [hempty]
  unfold containsFile
  cases hp : s.paths.number? p with
  | none =>
    rw [slotsOf_of_number?_eq_none hp]
    rfl
  | some file =>
    rw [slotsOf_of_number? hp, Option.any_some, ← OrderedMap.isSome_get?]
    unfold slotsUnder
    cases hslots : s.byFile.get? file with
    | none => rfl
    | some slots =>
      show true = !slots.isEmpty
      rw [List.isEmpty_eq_false_iff.2 (hs.listed file slots hslots).2]
      rfl

/-- What a slot holds belongs to a path. -/
theorem Consistent.file_lt (hs : s.Consistent) (hc : s.contentAt? slot = some c) :
    c.file < s.paths.values.length := by
  have hslot : slot ∈ s.slotsUnder c.file := (hs.inStep.mem_iff _ _).2 ⟨c, hc, rfl⟩
  unfold slotsUnder at hslot
  cases hslots : s.byFile.get? c.file with
  | none =>
    rw [hslots] at hslot
    cases hslot
  | some slots => exact (hs.listed _ _ hslots).1

/-- **The files of some slots** are those that declare what the slots hold. -/
theorem Consistent.contains_owners (hs : s.Consistent) (slots : OrderedSet Nat) :
    (s.owners slots).contains p = true ↔ ∃ slot c, slots.contains slot = true ∧
      s.contentAt? slot = some c ∧ s.paths.number? p = some c.file := by
  unfold owners
  rw [OrderedSet.contains_ofList, List.any_eq_true]
  constructor
  · rintro ⟨q, hq, hqp⟩
    obtain ⟨c, hc, rfl⟩ := List.mem_map.1 hq
    obtain ⟨slot, hslot, hc⟩ := List.mem_filterMap.1 hc
    exact ⟨slot, c, OrderedSet.contains_iff_mem_toList.2 hslot, hc,
      (hs.inStep.paths.number?_eq_some_iff (hs.file_lt hc)).2 (beq_iff_eq.1 hqp)⟩
  · rintro ⟨slot, c, hslot, hc, hp⟩
    refine ⟨_, List.mem_map.2 ⟨c, List.mem_filterMap.2
      ⟨slot, OrderedSet.contains_iff_mem_toList.1 hslot, hc⟩, rfl⟩, beq_iff_eq.2 ?_⟩
    exact (hs.inStep.paths.number?_eq_some_iff (hs.file_lt hc)).1 hp

/-- **What a slot holds is declared by a file.** -/
theorem Consistent.exists_declares (hs : s.Consistent) (hc : s.contentAt? slot = some c) :
    ∃ p, s.paths.number? p = some c.file ∧ s.declaration c ∈ s.declarationsOf p := by
  have hnumber := (hs.inStep.paths.number?_eq_some_iff (hs.file_lt hc)).2
    (Std.ReflOrd.compare_self (a := s.paths.value c.file))
  exact ⟨_, hnumber, hs.mem_declarationsOf.2 ⟨slot, c, hc, hnumber, rfl⟩⟩

/-- Whether a file declares a key with a fingerprint. -/
def Declares (s : DeclarationStore) (p : Path) (key : String) (f : Fingerprint) : Prop :=
  ∃ d ∈ s.declarationsOf p, d.key = key ∧ d.fingerprint = f

/-- Whether some file declares a key. -/
def Provides (s : DeclarationStore) (key : String) : Prop := ∃ p f, s.Declares p key f

/-- The slots that declare a key. -/
theorem Consistent.lists_providers (hs : s.Consistent) {k : Nat} {key : String}
    (hk : s.keys.number? key = some k) :
    s.providers.Lists k slot ↔ ∃ c, s.contentAt? slot = some c ∧ (s.declaration c).key = key := by
  rw [hs.inStep.providers k slot]
  refine exists_congr fun c => and_congr_right fun hc => ?_
  have hlt := hs.inStep.numbered slot c hc c.key List.mem_cons_self
  rw [List.mem_singleton]
  show k = c.key ↔ s.keys.value c.key = key
  rw [← Std.compare_eq_iff_eq (a := s.keys.value c.key), ← hs.inStep.keys.number?_eq_some_iff hlt,
    hk, Option.some_inj]

/-- The key of a declaration has a number. -/
theorem Consistent.number?_key (hs : s.Consistent) (hc : s.contentAt? slot = some c) :
    s.keys.number? (s.declaration c).key = some c.key :=
  (hs.inStep.keys.number?_eq_some_iff
    (hs.inStep.numbered slot c hc c.key List.mem_cons_self)).2 Std.ReflOrd.compare_self

theorem Consistent.provides_iff (hs : s.Consistent) {key : String} :
    s.Provides key ↔ ∃ slot c, s.contentAt? slot = some c ∧ (s.declaration c).key = key := by
  constructor
  · rintro ⟨p, f, d, hd, rfl, -⟩
    obtain ⟨slot, c, hc, -, rfl⟩ := hs.mem_declarationsOf.1 hd
    exact ⟨slot, c, hc, rfl⟩
  · rintro ⟨slot, c, hc, hkey⟩
    obtain ⟨p, -, hd⟩ := hs.exists_declares hc
    exact ⟨p, c.fingerprint, s.declaration c, hd, hkey, rfl⟩

/-- **The providers of a key are the files that declare it.** -/
theorem Consistent.contains_providersOf (hs : s.Consistent) {key : String} :
    (s.providersOf key).contains p = true ↔ ∃ d ∈ s.declarationsOf p, d.key = key := by
  unfold providersOf
  cases hk : s.keys.number? key with
  | none =>
    refine iff_of_false Bool.false_ne_true fun ⟨d, hd, hkey⟩ => ?_
    obtain ⟨slot, c, hc, -, rfl⟩ := hs.mem_declarationsOf.1 hd
    rw [← hkey, hs.number?_key hc] at hk
    cases hk
  | some k =>
    dsimp only
    rw [hs.contains_owners]
    constructor
    · rintro ⟨slot, c, hslot, hc, hp⟩
      obtain ⟨c', hc', hkey⟩ := (hs.lists_providers hk).1 hslot
      obtain rfl := Option.some.inj (hc.symm.trans hc')
      exact ⟨s.declaration c, hs.mem_declarationsOf.2 ⟨slot, c, hc, hp, rfl⟩, hkey⟩
    · rintro ⟨d, hd, hkey⟩
      obtain ⟨slot, c, hc, hp, rfl⟩ := hs.mem_declarationsOf.1 hd
      exact ⟨slot, c, (hs.lists_providers hk).2 ⟨c, hc, hkey⟩, hc, hp⟩

/-- **Whether the change of a key reaches a declaration**: if it is built on the interface of
the key, and if it uses the key and no file declares that any more. -/
def Reaches (s : DeclarationStore) (change : KeyChange) (d : Declaration) : Prop :=
  change.key ∈ d.provides ∨
    change.kind = .removed ∧ ¬ s.Provides change.key ∧ change.key ∈ d.uses

/-- **The slots that a change reaches** are those of the declarations that it reaches. -/
theorem Consistent.contains_slotsReached (hs : s.Consistent) {change : KeyChange} :
    (s.slotsReached change).contains slot = true ↔
      ∃ c, s.contentAt? slot = some c ∧ s.Reaches change (s.declaration c) := by
  have hprovides (c : SlotContent) (hc : s.contentAt? slot = some c) :
      change.key ∈ (s.declaration c).provides ↔
        ∃ k, s.keys.number? change.key = some k ∧ k ∈ c.provides :=
    hs.inStep.keys.mem_map_value_iff fun k hk => hs.inStep.numbered slot c hc k
      (List.mem_cons_of_mem _ (List.mem_append_left _ hk))
  have huses (c : SlotContent) (hc : s.contentAt? slot = some c) :
      change.key ∈ (s.declaration c).uses ↔
        ∃ k, s.keys.number? change.key = some k ∧ k ∈ c.uses :=
    hs.inStep.keys.mem_map_value_iff fun k hk => hs.inStep.numbered slot c hc k
      (List.mem_cons_of_mem _ (List.mem_append_right _ hk))
  unfold slotsReached Reaches
  cases hk : s.keys.number? change.key with
  -- A key without a number is mentioned nowhere.
  | none =>
    refine iff_of_false Bool.false_ne_true fun ⟨c, hc, hreached⟩ => ?_
    rw [hprovides c hc, huses c hc, hk] at hreached
    rcases hreached with ⟨k, h, -⟩ | ⟨-, -, k, h, -⟩ <;> cases h
  | some k =>
    have hgone : (s.providers.slotsAt k).isEmpty = true ↔ ¬ s.Provides change.key := by
      rw [SlotIndex.isEmpty_slotsAt, hs.provides_iff, not_exists]
      exact forall_congr' fun slot => not_congr (hs.lists_providers hk)
    have hinterface := hs.inStep.interfaceUsers k slot
    have hbody := hs.inStep.bodyUsers k slot
    unfold SlotIndex.Lists at hinterface hbody
    dsimp only
    -- Where the last declaration of a key is gone, uses are affected in a body too. Otherwise
    -- only those in an interface are.
    by_cases hremoved : change.kind = .removed ∧ ¬ s.Provides change.key
    · rw [if_pos (Bool.and_eq_true_iff.2 ⟨beq_iff_eq.2 hremoved.1, hgone.2 hremoved.2⟩),
        OrderedSet.contains_union, Bool.or_eq_true, hinterface, hbody, ← exists_or]
      refine exists_congr fun c => ?_
      rw [← and_or_left]
      refine and_congr_right fun hc => ?_
      rw [hprovides c hc, huses c hc, hk]
      simp [hremoved]
    · rw [if_neg fun h => hremoved ⟨beq_iff_eq.1 (Bool.and_eq_true_iff.1 h).1,
        hgone.1 (Bool.and_eq_true_iff.1 h).2⟩, hinterface]
      refine exists_congr fun c => and_congr_right fun hc => ?_
      rw [hprovides c hc, hk, ← and_assoc, or_iff_left fun h => hremoved h.1]
      simp

/-- The slots that some changes reach. -/
theorem contains_foldl_slotsReached (changes : List KeyChange) (slots : OrderedSet Nat) :
    (changes.foldl (fun slots change => slots.union (s.slotsReached change)) slots).contains slot
        = true ↔
      slots.contains slot = true ∨
        ∃ change ∈ changes, (s.slotsReached change).contains slot = true := by
  induction changes generalizing slots with
  | nil => simp
  | cons change rest ih =>
    rw [List.foldl_cons, ih, OrderedSet.contains_union, Bool.or_eq_true, or_assoc]
    simp

/-- **The files that changes reach** declare something that one of them reaches. -/
theorem Consistent.contains_filesAffectedBy (hs : s.Consistent) {changes : List KeyChange} :
    (s.filesAffectedBy changes q).contains p = true ↔ compare q p ≠ .eq ∧
      ∃ d ∈ s.declarationsOf p, ∃ change ∈ changes, s.Reaches change d := by
  unfold filesAffectedBy
  rw [OrderedMap.contains_erase, Bool.and_eq_true, bne_iff_ne, hs.contains_owners]
  refine and_congr_right fun _ => ?_
  constructor
  · rintro ⟨slot, c, hslot, hc, hp⟩
    obtain ⟨change, hchange, hslot⟩ := ((contains_foldl_slotsReached _ _).1 hslot).resolve_left
      Bool.false_ne_true
    obtain ⟨c', hc', hreached⟩ := hs.contains_slotsReached.1 hslot
    obtain rfl := Option.some.inj (hc.symm.trans hc')
    exact ⟨_, hs.mem_declarationsOf.2 ⟨slot, c, hc, hp, rfl⟩, change, hchange, hreached⟩
  · rintro ⟨d, hd, change, hchange, hreached⟩
    obtain ⟨slot, c, hc, hp, rfl⟩ := hs.mem_declarationsOf.1 hd
    exact ⟨slot, c, (contains_foldl_slotsReached _ _).2
      (.inr ⟨change, hchange, hs.contains_slotsReached.2 ⟨c, hc, hreached⟩⟩), hc, hp⟩

/-- **The files that are listed** are those that have declarations. -/
theorem Consistent.contains_fileList (hs : s.Consistent) :
    (OrderedSet.ofList (s.byFile.keys.map s.paths.value)).contains p = true ↔
      s.containsFile p = true := by
  rw [OrderedSet.contains_ofList, List.any_eq_true]
  unfold containsFile
  have hlisted {file : Nat} (hfile : s.byFile.contains file = true) :
      s.paths.number? p = some file ↔ compare (s.paths.value file) p = .eq := by
    rw [← OrderedMap.isSome_get?] at hfile
    obtain ⟨slots, hslots⟩ := Option.isSome_iff_exists.1 hfile
    exact hs.inStep.paths.number?_eq_some_iff (hs.listed file slots hslots).1
  constructor
  · rintro ⟨q, hq, hqp⟩
    obtain ⟨file, hfile, rfl⟩ := List.mem_map.1 hq
    have hcontains := OrderedMap.contains_iff_mem_keys.2 hfile
    rw [(hlisted hcontains).2 (beq_iff_eq.1 hqp)]
    exact hcontains
  · intro h
    obtain ⟨file, hp, hfile⟩ := (Option.any_eq_true _ _).1 h
    exact ⟨_, List.mem_map.2 ⟨file, OrderedMap.contains_iff_mem_keys.1 hfile, rfl⟩,
      beq_iff_eq.2 ((hlisted hfile).1 hp)⟩

/-! ## All files -/

theorem declarationsOf_congr (s : DeclarationStore) (h : compare p q = .eq) :
    s.declarationsOf p = s.declarationsOf q := by
  show s.declarationsIn (s.slotsOf p) = s.declarationsIn (s.slotsOf q)
  unfold slotsOf
  rw [s.paths.number?_congr h]

theorem pairwise_fileList (s : DeclarationStore) :
    s.fileList.Pairwise fun a b => compare a b = .lt :=
  (OrderedSet.ofList (s.byFile.keys.map s.paths.value)).ascending_toList

/-- Every file that is there is listed, in some spelling. -/
theorem Consistent.exists_mem_fileList (hs : s.Consistent) :
    (∃ q ∈ s.fileList, compare q p = .eq) ↔ s.containsFile p = true := by
  rw [← hs.contains_fileList, OrderedMap.contains_iff_keys]
  rfl

/-- The files that are listed are spelled as they were when they came first. -/
theorem Consistent.mem_paths_of_mem_fileList (hs : s.Consistent) (h : p ∈ s.fileList) :
    p ∈ s.paths.values := by
  obtain ⟨file, hfile, rfl⟩ := List.mem_map.1 (OrderedSet.mem_of_mem_ofList h)
  obtain ⟨slots, hslots⟩ := Option.isSome_iff_exists.1
    ((OrderedMap.isSome_get? _ _).trans (OrderedMap.contains_iff_mem_keys.2 hfile))
  exact List.mem_of_getElem? (Numbering.getElem?_value (hs.listed file slots hslots).1)

theorem entries_files (s : DeclarationStore) :
    s.files.entries = s.fileList.map fun p => (p, s.declarationsOf p) :=
  OrderedMap.entries_ofList (List.pairwise_map.2 s.pairwise_fileList)

/-- What is kept for a file that is listed. -/
theorem mem_entries_files {e : Path × List Declaration} :
    e ∈ s.files.entries ↔ e.1 ∈ s.fileList ∧ e.2 = s.declarationsOf e.1 := by
  rw [entries_files, List.mem_map]
  constructor
  · rintro ⟨p, hp, rfl⟩
    exact ⟨hp, rfl⟩
  · rintro ⟨hp, hds⟩
    exact ⟨e.1, hp, by rw [← hds]⟩

theorem keys_files (s : DeclarationStore) : s.files.keys = s.fileList := by
  unfold OrderedMap.keys
  rw [entries_files, List.map_map]
  exact List.map_id' _

/-- **What is kept for a file** are its declarations. -/
theorem Consistent.get?_files (hs : s.Consistent) (p : Path) :
    s.files.get? p = if s.containsFile p then some (s.declarationsOf p) else none := by
  by_cases hp : s.containsFile p = true
  · rw [if_pos hp]
    obtain ⟨q, hq, hqp⟩ := hs.exists_mem_fileList.2 hp
    rw [← s.declarationsOf_congr hqp]
    refine OrderedMap.get?_of_mem_of_compare (e := (q, s.declarationsOf q)) ?_ hqp
    rw [entries_files]
    exact List.mem_map.2 ⟨q, hq, rfl⟩
  · rw [if_neg hp, OrderedMap.get?_eq_none_iff, ← Bool.not_eq_true, OrderedMap.contains_iff_keys,
      keys_files, hs.exists_mem_fileList]
    exact hp

theorem Consistent.getD_files (hs : s.Consistent) (p : Path) :
    (s.files.get? p).getD [] = s.declarationsOf p := by
  rw [hs.get?_files, hs.containsFile_eq]
  cases s.declarationsOf p <;> rfl

/-- **Every declaration is kept for a file that is listed.** -/
theorem Consistent.exists_mem_entries_files (hs : s.Consistent) (h : d ∈ s.declarationsOf p) :
    ∃ e ∈ s.files.entries, d ∈ e.2 := by
  rw [← hs.getD_files] at h
  cases hp : s.files.get? p with
  | none =>
    rw [hp] at h
    cases h
  | some ds =>
    rw [hp] at h
    obtain ⟨q, hq, -⟩ := OrderedMap.mem_entries_of_get? hp
    exact ⟨(q, ds), hq, h⟩

/-- The slots of different files are different. -/
theorem Consistent.nodup_slots (hs : s.Consistent) : (s.fileList.flatMap s.slotsOf).Nodup := by
  rw [List.nodup_flatMap]
  refine ⟨fun p _ => ?_, s.pairwise_fileList.imp fun {p q} hpq => ?_⟩
  · unfold slotsOf
    split
    · exact List.nodup_nil
    · exact hs.inStep.nodup _
  · intro slot hp hq
    obtain ⟨c, hc, hp⟩ := hs.mem_slotsOf.1 hp
    obtain ⟨c', hc', hq⟩ := hs.mem_slotsOf.1 hq
    obtain rfl := Option.some.inj (hc.symm.trans hc')
    rw [hs.inStep.paths.compare_eq_of_number? hp hq] at hpq
    cases hpq

/-- The slots of all files are those that hold something. -/
theorem Consistent.mem_slots (hs : s.Consistent) :
    slot ∈ s.fileList.flatMap s.slotsOf ↔ (s.contentAt? slot).isSome = true := by
  rw [List.mem_flatMap, Option.isSome_iff_exists]
  constructor
  · rintro ⟨p, -, hslot⟩
    obtain ⟨c, hc, -⟩ := hs.mem_slotsOf.1 hslot
    exact ⟨c, hc⟩
  · rintro ⟨c, hc⟩
    obtain ⟨p, hnumber, hd⟩ := hs.exists_declares hc
    have hfile : s.containsFile p = true := by
      rw [hs.containsFile_eq, List.isEmpty_eq_false_iff.2 (List.ne_nil_of_mem hd)]
      rfl
    obtain ⟨q, hq, hqp⟩ := hs.exists_mem_fileList.2 hfile
    exact ⟨q, hq, hs.mem_slotsOf.2 ⟨c, hc, (s.paths.number?_congr hqp).trans hnumber⟩⟩

/-- **There are as many declarations as the files have together.** -/
theorem Consistent.declarationCount_eq (hs : s.Consistent) :
    s.declarationCount = (s.fileList.flatMap s.declarationsOf).length := by
  have hslots : s.slots = (List.range s.slots.length).map s.contentAt? := by
    refine List.ext_getElem (by simp) fun i h _ => ?_
    rw [List.getElem_map, List.getElem_range]
    unfold contentAt?
    rw [List.getElem?_eq_getElem h]
    rfl
  have hperm : ((List.range s.slots.length).filter fun t => (s.contentAt? t).isSome).Perm
      (s.fileList.flatMap s.slotsOf) := by
    rw [List.perm_ext_iff_of_nodup (List.nodup_range.filter _) hs.nodup_slots]
    intro slot
    rw [List.mem_filter, List.mem_range, hs.mem_slots, and_iff_right_iff_imp]
    intro h
    obtain ⟨c, hc⟩ := Option.isSome_iff_exists.1 h
    exact lt_length_of_contentAt? hc
  unfold declarationCount
  rw [hslots, List.countP_map, List.countP_eq_length_filter]
  refine hperm.length_eq.trans ?_
  rw [List.length_flatMap, List.length_flatMap]
  exact congrArg List.sum (List.map_congr_left fun p _ => (hs.length_declarationsOf p).symm)

end DeclarationStore

end IncrementalBuild
