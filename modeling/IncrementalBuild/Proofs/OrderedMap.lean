import IncrementalBuild.OrderedMap
import Mathlib.Data.List.Forall2

/-!
# What finite maps and sets hold

Every change of a map is described by what a lookup finds after it. Since two
spellings of one key find the same, the lemmas speak of `compare k k' = .eq`;
where comparing equal is being equal, they read as membership.
-/

namespace IncrementalBuild

universe u v w

namespace OrderedMap

variable {κ : Type u} {α : Type v} {β : Type w} [Ord κ]

/-- Maps with the same entries are the same. -/
theorem ext_entries {m n : OrderedMap κ α} (h : m.entries = n.entries) : m = n := by
  cases m
  cases n
  cases h
  rfl

@[simp] theorem entries_empty : (∅ : OrderedMap κ α).entries = [] := rfl

@[simp] theorem get?_emptyCollection (k : κ) : (∅ : OrderedMap κ α).get? k = none := rfl

@[simp] theorem contains_emptyCollection (k : κ) :
    (∅ : OrderedMap κ α).contains k = false := rfl

/-- What a lookup finds stands among the entries, under an equal key. -/
theorem mem_entries_of_get? {m : OrderedMap κ α} {k : κ} {v : α} (h : m.get? k = some v) :
    ∃ k', (k', v) ∈ m.entries ∧ compare k' k = .eq := by
  unfold get? entry? at h
  obtain ⟨⟨k', v'⟩, hfind, hv⟩ := Option.map_eq_some_iff.1 h
  have hv : v' = v := hv
  subst hv
  exact ⟨k', List.mem_of_find?_eq_some hfind, by simpa using List.find?_some hfind⟩

/-- A key is held when an equal one stands among the entries. -/
theorem contains_iff {m : OrderedMap κ α} {k : κ} :
    m.contains k = true ↔ ∃ e ∈ m.entries, compare e.1 k = .eq := by
  unfold contains entry?
  simp only [List.find?_isSome, beq_iff_eq]

/-- The same of the keys alone. -/
theorem contains_iff_keys {m : OrderedMap κ α} {k : κ} :
    m.contains k = true ↔ ∃ k' ∈ m.keys, compare k' k = .eq := by
  rw [contains_iff]
  simp [keys]

/-- A map that holds something is not empty. -/
theorem isEmpty_eq_false_of_contains {m : OrderedMap κ α} {k : κ} (h : m.contains k = true) :
    m.isEmpty = false := by
  obtain ⟨e, he, -⟩ := contains_iff.1 h
  exact List.isEmpty_eq_false_iff.2 (List.ne_nil_of_mem he)

/-- Where comparing equal is being equal, the keys of a map are what it
holds. -/
theorem contains_iff_mem_keys [Std.LawfulEqOrd κ] {m : OrderedMap κ α} {k : κ} :
    m.contains k = true ↔ k ∈ m.keys := by
  rw [contains_iff_keys]
  exact ⟨fun ⟨k', hk', he⟩ => Std.LawfulEqOrd.eq_of_compare he ▸ hk',
    fun hk => ⟨k, hk, Std.ReflOrd.compare_self⟩⟩

/-- Nothing is found exactly where no key is held. -/
theorem get?_eq_none_iff {m : OrderedMap κ α} {k : κ} :
    m.get? k = none ↔ m.contains k = false := by
  rw [← isSome_get?]
  cases m.get? k <;> simp

/-! ## Changes of a map

From here on the keys are ordered by a transitive comparison, so that keys which compare equal can
stand for one another. Each change is described twice, by what is held and by what is found. -/

section Order

variable [Std.TransOrd κ]

/-- Equal keys are held alike. -/
theorem contains_congr (m : OrderedMap κ α) {k k' : κ} (h : compare k k' = .eq) :
    m.contains k = m.contains k' := by
  rw [← isSome_get?, ← isSome_get?, get?_congr m h]

/-- An insertion adds its key. -/
theorem contains_insert (m : OrderedMap κ α) (k k' : κ) (v : α) :
    (m.insert k v).contains k' = (compare k k' == .eq || m.contains k') := by
  rw [← isSome_get?, ← isSome_get?, get?_insert]
  by_cases h : compare k k' = .eq <;> simp [h]

/-- A value that is put at a key only if there is none. -/
theorem get?_insertNew (m : OrderedMap κ α) (k k' : κ) (v : α) :
    (m.insertNew k v).get? k' = (m.get? k').or (if compare k k' = .eq then some v else none) := by
  unfold insertNew
  by_cases h : compare k k' = .eq
  -- The key is `k` in another spelling. An entry that is there stays, and otherwise this one is
  -- found.
  · rw [if_pos h, contains_congr m h, ← isSome_get?]
    split
    · rename_i hsome
      obtain ⟨found, hfound⟩ := Option.isSome_iff_exists.1 hsome
      rw [hfound, Option.some_or]
    · rename_i hnone
      rw [get?_insert, if_pos h, Option.not_isSome_iff_eq_none.1 hnone, Option.none_or]
  · rw [if_neg h, Option.or_none]
    split
    · rfl
    · rw [get?_insert, if_neg h]

/-- A removal takes the key away, in every spelling. -/
theorem contains_erase (m : OrderedMap κ α) (k k' : κ) :
    (m.erase k).contains k' = (compare k k' != .eq && m.contains k') := by
  rw [← isSome_get?, ← isSome_get?, get?_erase]
  by_cases h : compare k k' = .eq <;> simp [h]

/-- **The entries of a map are what lookups find**: under its own key every entry is found. The
search takes the first entry with an equal key, and since the keys ascend there is only this one. -/
theorem get?_of_mem {m : OrderedMap κ α} {e : κ × α} (h : e ∈ m.entries) :
    m.get? e.1 = some e.2 := by
  obtain ⟨l, asc⟩ := m
  unfold get? entry?
  change e ∈ l at h
  change (l.find? _).map _ = _
  induction l with
  | nil => exact absurd h List.not_mem_nil
  | cons head rest ih =>
    obtain ⟨hhead, hrest⟩ := List.pairwise_cons.1 asc
    rcases List.mem_cons.1 h with h | h
    · subst h
      simp [Std.ReflOrd.compare_self]
    -- The head is below all others, so it is not what is looked for.
    · have hne : (compare head.1 e.1 == .eq) = false := by
        rw [hhead e h]
        rfl
      rw [List.find?_cons, hne]
      exact ih hrest h

/-- An entry is found under every spelling of its key. -/
theorem get?_of_mem_of_compare {m : OrderedMap κ α} {e : κ × α} {k : κ}
    (h : e ∈ m.entries) (hk : compare e.1 k = .eq) : m.get? k = some e.2 := by
  rw [← get?_congr m hk]
  exact get?_of_mem h

/-- Where only identical keys are equal, the entries are what a lookup finds. -/
theorem mem_entries_iff [Std.LawfulEqOrd κ] {m : OrderedMap κ α} {k : κ} {v : α} :
    (k, v) ∈ m.entries ↔ m.get? k = some v := by
  refine ⟨fun h => get?_of_mem h, fun h => ?_⟩
  obtain ⟨k', hmem, hk⟩ := mem_entries_of_get? h
  rwa [Std.LawfulEqOrd.eq_of_compare hk] at hmem

/-- A value stands among the entries exactly when some key finds it. -/
theorem mem_values_iff {m : OrderedMap κ α} {v : α} :
    v ∈ m.values ↔ ∃ k, m.get? k = some v := by
  unfold values
  constructor
  · intro h
    obtain ⟨e, he, rfl⟩ := List.mem_map.1 h
    exact ⟨e.1, get?_of_mem he⟩
  · rintro ⟨k, h⟩
    obtain ⟨k', hmem, -⟩ := mem_entries_of_get? h
    exact List.mem_map.2 ⟨_, hmem, rfl⟩

/-- Keeping some entries keeps what is found under their keys. -/
theorem get?_filter (m : OrderedMap κ α) (p : κ → α → Bool) (k : κ)
    (hp : ∀ k', compare k' k = .eq → ∀ v, p k' v = p k v) :
    (m.filter p).get? k = (m.get? k).filter (p k) := by
  -- With nothing at the key there is nothing to keep. An entry at the key is kept or not, and no
  -- other one has an equal key.
  cases h : m.get? k with
  | none =>
    rw [Option.filter_none]
    rw [get?_eq_none_iff, ← Bool.not_eq_true, contains_iff] at h ⊢
    rintro ⟨e, he, hk⟩
    exact h ⟨e, (List.mem_filter.1 he).1, hk⟩
  | some v =>
    obtain ⟨k', hmem, hk⟩ := mem_entries_of_get? h
    by_cases hv : p k v = true
    · have : (k', v) ∈ (m.filter p).entries :=
        List.mem_filter.2 ⟨hmem, by rw [hp k' hk v]; exact hv⟩
      rw [get?_of_mem_of_compare this hk, Option.filter_some, if_pos hv]
    · rw [Option.filter_some, if_neg hv, get?_eq_none_iff, ← Bool.not_eq_true, contains_iff]
      rintro ⟨e, he, hek⟩
      obtain ⟨he, hpe⟩ := List.mem_filter.1 he
      have hev : e.2 = v := by
        have := get?_of_mem_of_compare he hek
        rw [h] at this
        exact (Option.some.inj this).symm
      rw [hp e.1 hek, hev] at hpe
      exact hv hpe

/-- Keeping the keys with a property. -/
theorem contains_filter (m : OrderedMap κ α) (p : κ → Bool) (k : κ)
    (hp : ∀ k', compare k' k = .eq → p k' = p k) :
    (m.filter fun k _ => p k).contains k = (m.contains k && p k) := by
  rw [← isSome_get?, ← isSome_get?, get?_filter _ _ _ fun k' h _ => hp k' h,
    Option.isSome_filter]
  cases m.get? k with
  | none => rfl
  | some v => rfl

end Order

/-- Replacing the values keeps the keys. -/
@[simp] theorem contains_mapValues (m : OrderedMap κ α) (f : κ → α → β) (k : κ) :
    (m.mapValues f).contains k = m.contains k := by
  rw [Bool.eq_iff_iff, contains_iff_keys, contains_iff_keys]
  simp [keys, mapValues]

/-! ## Maps of lists

A list of entries is inserted one by one. Where it has a key twice the later entry counts, with
the value only or, in `ofLastEntries`, with its spelling as well; a lookup does not see the
difference. -/

section OfList

variable [Std.TransOrd κ]

/-- Inserting a list adds its keys. -/
theorem contains_foldl_insert (l : List (κ × α)) (m : OrderedMap κ α) (k : κ) :
    (l.foldl (fun m e => m.insert e.1 e.2) m).contains k
      = (m.contains k || l.any (fun e => compare e.1 k == .eq)) := by
  induction l generalizing m with
  | nil => simp
  | cons e rest ih =>
    rw [List.foldl_cons, ih, contains_insert, List.any_cons]
    cases compare e.1 k == .eq <;> cases m.contains k <;> simp

/-- The map of a list holds the keys of the list. -/
theorem contains_ofList (l : List (κ × α)) (k : κ) :
    (ofList l).contains k = l.any (fun e => compare e.1 k == .eq) := by
  unfold ofList
  rw [contains_foldl_insert]
  rfl

omit [Std.TransOrd κ] in
/-- The value that the last of some steps leaves at a key, each of which sets one key. -/
theorem get?_foldl {set : OrderedMap κ α → κ × α → OrderedMap κ α}
    (hset : ∀ m e k, (set m e).get? k = if compare e.1 k = .eq then some e.2 else m.get? k)
    (l : List (κ × α)) (m : OrderedMap κ α) (k : κ) :
    (l.foldl set m).get? k
      = ((l.reverse.find? (fun e => compare e.1 k == .eq)).map (·.2)).or (m.get? k) := by
  induction l generalizing m with
  | nil => simp
  | cons e rest ih =>
    rw [List.foldl_cons, ih, hset, List.reverse_cons, List.find?_append]
    cases rest.reverse.find? (fun e => compare e.1 k == .eq) with
    | some f => simp
    | none => by_cases h : compare e.1 k = .eq <;> simp [h]

/-- **Of equal keys in a list the last counts.** -/
theorem get?_ofList (l : List (κ × α)) (k : κ) :
    (ofList l).get? k = (l.reverse.find? (fun e => compare e.1 k == .eq)).map (·.2) := by
  -- Each insertion sets its own key and leaves the others as they are.
  have hset (m : OrderedMap κ α) (e : κ × α) (k : κ) :
      (m.insert e.1 e.2).get? k = if compare e.1 k = .eq then some e.2 else m.get? k :=
    get?_insert m e.1 k e.2
  unfold ofList
  refine (get?_foldl hset l empty k).trans ?_
  simp

/-- Where keys have one value each, the values of a list are those that it holds. -/
theorem get?_ofList_eq_some_iff [Std.LawfulEqOrd κ] {l : List (κ × α)}
    (hl : ∀ k v v', (k, v) ∈ l → (k, v') ∈ l → v = v') {k : κ} {v : α} :
    (ofList l).get? k = some v ↔ (k, v) ∈ l := by
  rw [get?_ofList, Option.map_eq_some_iff]
  constructor
  · rintro ⟨⟨k', v'⟩, hfind, rfl⟩
    have hk := List.find?_some hfind
    rw [beq_iff_eq, Std.LawfulEqOrd.compare_eq_iff_eq] at hk
    exact hk ▸ List.mem_reverse.1 (List.mem_of_find?_eq_some hfind)
  -- Some entry has the key, hence a last one has, and its value is the same.
  · intro hmem
    have hsome : (l.reverse.find? fun e => compare e.1 k == .eq).isSome :=
      List.find?_isSome.2 ⟨(k, v), List.mem_reverse.2 hmem, beq_iff_eq.2 Std.ReflOrd.compare_self⟩
    obtain ⟨⟨k', v'⟩, hfind⟩ := Option.isSome_iff_exists.1 hsome
    have hk := List.find?_some hfind
    rw [beq_iff_eq, Std.LawfulEqOrd.compare_eq_iff_eq] at hk
    have hmem' := List.mem_reverse.1 (List.mem_of_find?_eq_some hfind)
    exact ⟨(k', v'), hfind, hl k v' v (hk ▸ hmem') hmem⟩

/-- Of equal keys the last counts here too. -/
theorem get?_ofLastEntries (l : List (κ × α)) (k : κ) :
    (ofLastEntries l).get? k
      = (l.reverse.find? (fun e => compare e.1 k == .eq)).map (·.2) := by
  have hset (m : OrderedMap κ α) (e : κ × α) (k : κ) :
      ((m.erase e.1).insert e.1 e.2).get? k
        = if compare e.1 k = .eq then some e.2 else m.get? k := by
    rw [get?_insert, get?_erase]
    by_cases h : compare e.1 k = .eq <;> simp [h]
  unfold ofLastEntries
  refine (get?_foldl hset l empty k).trans ?_
  simp

/-- An insertion behind all keys puts its entry at the end. -/
theorem insertEntry_of_gt {k : κ} {v : α} {l : List (κ × α)}
    (h : ∀ e ∈ l, compare e.1 k = .lt) : insertEntry k v l = l ++ [(k, v)] := by
  induction l with
  | nil => rfl
  | cons head rest ih =>
    have hgt : compare k head.1 = .gt := Std.OrientedCmp.gt_of_lt (h head List.mem_cons_self)
    unfold insertEntry
    simp only [hgt]
    rw [ih fun e he => h e (List.mem_cons_of_mem _ he)]
    rfl

/-- **A map is the map of its entries.** -/
theorem ofList_entries (m : OrderedMap κ α) : ofList m.entries = m := by
  -- What is inserted stands behind all that is there already, so the entries are put together as
  -- they were in the list.
  have key (l r : List (κ × α)) (acc : OrderedMap κ α) (hacc : acc.entries = l)
      (asc : (l ++ r).Pairwise (fun a b => compare a.1 b.1 = .lt)) :
      (r.foldl (fun m e => m.insert e.1 e.2) acc).entries = l ++ r := by
    induction r generalizing l acc with
    | nil => simpa using hacc
    | cons e rest ih =>
      have hlt : ∀ f ∈ l, compare f.1 e.1 = .lt := fun f hf =>
        (List.pairwise_append.1 asc).2.2 f hf e List.mem_cons_self
      have hins : (acc.insert e.1 e.2).entries = l ++ [e] := by
        show insertEntry e.1 e.2 acc.entries = _
        rw [hacc, insertEntry_of_gt hlt]
      rw [List.foldl_cons, ih (l ++ [e]) _ hins (by simpa using asc)]
      simp
  exact ext_entries (key [] m.entries empty rfl m.ascending)

/-- Entries that ascend already are the entries of their map. -/
theorem entries_ofList {l : List (κ × α)}
    (h : l.Pairwise fun a b => compare a.1 b.1 = .lt) : (ofList l).entries = l :=
  congrArg entries (ofList_entries ⟨l, h⟩)

end OfList

/-! ## Lists in ascending order

The entries of a map ascend and so do the members of a set. That makes them unique up to spelling,
which is what equalities of maps and sets rest on. -/

section Ascending

variable [Std.TransOrd κ]

/-- **Ascending lists with equal members have them in the same places.** -/
theorem forall₂_of_ascending {l r : List κ}
    (hl : l.Pairwise fun a b => compare a b = .lt) (hr : r.Pairwise fun a b => compare a b = .lt)
    (h : ∀ k, (∃ a ∈ l, compare a k = .eq) ↔ ∃ b ∈ r, compare b k = .eq) :
    List.Forall₂ (fun a b => compare a b = .eq) l r := by
  induction l generalizing r with
  | nil =>
    cases r with
    | nil => exact .nil
    | cons b rest =>
      obtain ⟨a, ha, -⟩ := (h b).2 ⟨b, List.mem_cons_self, Std.ReflOrd.compare_self⟩
      cases ha
  | cons a l ih =>
    obtain ⟨ha, hl⟩ := List.pairwise_cons.1 hl
    cases r with
    | nil =>
      obtain ⟨b, hb, -⟩ := (h a).1 ⟨a, List.mem_cons_self, Std.ReflOrd.compare_self⟩
      cases hb
    | cons b r =>
      obtain ⟨hb, hr⟩ := List.pairwise_cons.1 hr
      -- Neither head is below the other one, since each has an equal in the other list.
      have hab : compare a b = .eq := by
        obtain ⟨b', hb', hb'a⟩ := (h a).1 ⟨a, List.mem_cons_self, Std.ReflOrd.compare_self⟩
        obtain ⟨a', ha', ha'b⟩ := (h b).2 ⟨b, List.mem_cons_self, Std.ReflOrd.compare_self⟩
        rcases List.mem_cons.1 hb' with rfl | hb'
        · exact Std.OrientedCmp.eq_comm.1 hb'a
        · rcases List.mem_cons.1 ha' with rfl | ha'
          · exact ha'b
          · have hba : compare b a = .lt := (Std.TransCmp.congr_right hb'a) ▸ hb b' hb'
            have hab : compare a b = .lt := (Std.TransCmp.congr_right ha'b) ▸ ha a' ha'
            have := Std.OrientedCmp.gt_of_lt hba
            rw [hab] at this
            cases this
      refine .cons hab (ih hl hr fun k => ⟨?_, ?_⟩)
      -- An equal of `x` in the other list is not its head, since `x` is above both heads.
      · rintro ⟨x, hx, hxk⟩
        obtain ⟨y, hy, hyk⟩ := (h k).1 ⟨x, List.mem_cons_of_mem a hx, hxk⟩
        rcases List.mem_cons.1 hy with rfl | hy
        · have hax := ha x hx
          rw [Std.TransCmp.congr_right hxk, ← Std.TransCmp.congr_right hyk, hab] at hax
          cases hax
        · exact ⟨y, hy, hyk⟩
      -- The same with the lists exchanged.
      · rintro ⟨y, hy, hyk⟩
        obtain ⟨x, hx, hxk⟩ := (h k).2 ⟨y, List.mem_cons_of_mem b hy, hyk⟩
        rcases List.mem_cons.1 hx with rfl | hx
        · have hby := hb y hy
          rw [Std.TransCmp.congr_right hyk, ← Std.TransCmp.congr_right hxk,
            Std.OrientedCmp.eq_comm.1 hab] at hby
          cases hby
        · exact ⟨x, hx, hxk⟩

/-- **Of ascending lists with equal members one is the other**, if its members stand there as
they are spelled. -/
theorem eq_of_ascending {l r : List κ} (hl : l.Pairwise fun a b => compare a b = .lt)
    (hr : r.Pairwise fun a b => compare a b = .lt) (hsub : ∀ a ∈ l, a ∈ r)
    (h : ∀ k, (∃ a ∈ l, compare a k = .eq) ↔ ∃ b ∈ r, compare b k = .eq) : l = r := by
  have hplaces := forall₂_of_ascending hl hr h
  clear h
  induction hplaces with
  | nil => rfl
  | @cons a b l r hab _ ih =>
    obtain ⟨ha, hl⟩ := List.pairwise_cons.1 hl
    obtain ⟨hb, hr⟩ := List.pairwise_cons.1 hr
    -- The members of `l` are above both heads, so the head of `r` is not among them.
    have hne {c : κ} (hc : c ∈ l) : c ≠ b := by
      rintro rfl
      have := ha c hc
      rw [hab] at this
      cases this
    have hhead : a = b := (List.mem_cons.1 (hsub a List.mem_cons_self)).resolve_right fun hmem => by
      have := hb a hmem
      rw [Std.OrientedCmp.eq_comm.1 hab] at this
      cases this
    rw [hhead, ih hl hr fun c hc =>
      (List.mem_cons.1 (hsub c (List.mem_cons_of_mem a hc))).resolve_left (hne hc)]

end Ascending

end OrderedMap

/-! ## Sets

A set is a map without values. What it holds after a change is what the map holds. -/

namespace OrderedSet

variable {κ : Type u} [Ord κ] [Std.TransOrd κ]

/-- An addition adds its member. -/
theorem contains_add (s : OrderedSet κ) (k k' : κ) :
    (s.add k).contains k' = (compare k k' == .eq || s.contains k') :=
  OrderedMap.contains_insert s k k' ()

/-- A set holds what it held before some additions, and what was added. -/
theorem contains_foldl_add (l : List κ) (s : OrderedSet κ) (k : κ) :
    (l.foldl add s).contains k = (s.contains k || l.any (fun a => compare a k == .eq)) := by
  induction l generalizing s with
  | nil => simp
  | cons a rest ih =>
    rw [List.foldl_cons, ih, contains_add, List.any_cons]
    cases compare a k == .eq <;> cases s.contains k <;> simp

/-- The set of a list holds the members of the list. -/
theorem contains_ofList (l : List κ) (k : κ) :
    (ofList l).contains k = l.any (fun a => compare a k == .eq) := by
  unfold ofList
  rw [contains_foldl_add]
  rfl

/-- The set of a list is empty only if the list is. -/
@[simp] theorem isEmpty_ofList (l : List κ) : (ofList l).isEmpty = l.isEmpty := by
  cases l with
  | nil => rfl
  | cons a rest =>
    refine OrderedMap.isEmpty_eq_false_of_contains (k := a) ?_
    rw [contains_ofList, List.any_cons, Std.ReflOrd.compare_self]
    rfl

/-- A union holds the members of both. -/
theorem contains_union (s t : OrderedSet κ) (k : κ) :
    (s.union t).contains k = (s.contains k || t.contains k) := by
  unfold union
  rw [contains_foldl_add]
  congr 1
  rw [Bool.eq_iff_iff, OrderedMap.contains_iff_keys]
  simp [toList]

/-- A set holds what it held before some removals, less what was removed. -/
theorem contains_foldl_erase (l : List κ) (s : OrderedSet κ) (k : κ) :
    (l.foldl OrderedMap.erase s).contains k
      = (s.contains k && l.all (fun a => compare a k != .eq)) := by
  induction l generalizing s with
  | nil => simp
  | cons a rest ih =>
    rw [List.foldl_cons, ih, OrderedMap.contains_erase, List.all_cons]
    cases compare a k != .eq <;> cases s.contains k <;> simp

omit [Std.TransOrd κ] in
/-- Where comparing equal is being equal, a set holds what stands in its list of members. -/
theorem contains_iff_mem_toList [Std.LawfulEqOrd κ] {s : OrderedSet κ} {k : κ} :
    s.contains k = true ↔ k ∈ s.toList :=
  OrderedMap.contains_iff_mem_keys

/-- The members of a set of a list stand in the list, as they are spelled. -/
theorem mem_of_mem_ofList {l : List κ} {k : κ} (h : k ∈ (ofList l).toList) : k ∈ l := by
  -- An addition may keep the spelling that is there, so a member was there before or was added.
  have hfold (m : List κ) (s : OrderedSet κ) (h : k ∈ (m.foldl add s).toList) :
      k ∈ s.toList ∨ k ∈ m := by
    induction m generalizing s with
    | nil => exact .inl h
    | cons a rest ih =>
      rcases ih _ h with h | h
      · obtain ⟨e, he, rfl⟩ := List.mem_map.1 h
        rcases OrderedMap.mem_insertEntry he with rfl | ⟨f, hf, hef⟩
        · exact .inr List.mem_cons_self
        · exact .inl (hef ▸ List.mem_map.2 ⟨f, hf, rfl⟩)
      · exact .inr (List.mem_cons_of_mem a h)
  exact (hfold l _ h).resolve_left List.not_mem_nil

omit [Std.TransOrd κ] in
/-- Members stand in ascending order. -/
theorem ascending_toList (s : OrderedSet κ) :
    s.toList.Pairwise (fun a b => compare a b = .lt) :=
  List.pairwise_map.2 s.ascending

/-- **A set has its members once each.** -/
theorem nodup_toList (s : OrderedSet κ) : s.toList.Nodup := by
  refine s.ascending_toList.imp fun {a b} hlt he => ?_
  rw [he, Std.ReflOrd.compare_self] at hlt
  cases hlt

/-- The members after an addition, where comparing equal is being equal. -/
theorem mem_toList_add [Std.LawfulEqOrd κ] {s : OrderedSet κ} {k k' : κ} :
    k' ∈ (s.add k).toList ↔ k' = k ∨ k' ∈ s.toList := by
  rw [← contains_iff_mem_toList, ← contains_iff_mem_toList, contains_add, Bool.or_eq_true,
    beq_iff_eq, Std.compare_eq_iff_eq]
  exact or_congr_left eq_comm

/-- The members of the set of a list, where comparing equal is being equal. -/
theorem mem_toList_ofList [Std.LawfulEqOrd κ] {l : List κ} {k : κ} :
    k ∈ (ofList l).toList ↔ k ∈ l := by
  rw [← contains_iff_mem_toList, contains_ofList, List.any_eq_true]
  exact ⟨fun ⟨a, ha, he⟩ => Std.LawfulEqOrd.eq_of_compare (beq_iff_eq.1 he) ▸ ha,
    fun hk => ⟨k, hk, beq_iff_eq.2 Std.ReflOrd.compare_self⟩⟩

/-- **Sets with the same members are the same.** -/
theorem ext_toList {s t : OrderedSet κ} (h : ∀ k, k ∈ s.toList ↔ k ∈ t.toList) : s = t := by
  have hlist : s.toList = t.toList :=
    OrderedMap.eq_of_ascending s.ascending_toList t.ascending_toList (fun a => (h a).1)
      fun _ => exists_congr fun a => and_congr_left' (h a)
  -- Members carry no value, so that a set is the list of its members.
  exact OrderedMap.ext_entries (List.map_injective_iff.2 (fun e f he => Prod.ext he rfl) hlist)

end OrderedSet

end IncrementalBuild
