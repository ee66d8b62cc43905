import IncrementalBuild.Proofs.Path
import Mathlib.Data.List.DropRight

/-!
# Parts of a path spelled anew

The parent of a path and what is left of it below a directory are parts of its text. They are put
together again from stretches between slashes, and they are cut again when their components are
asked for. A stretch can change its meaning on the way: what begins a path may be the root or a `.`
that counts, and what stands further on is neither. In the two uses nothing changes. A parent
begins as the path does, and what is left below a directory begins with something that counts
wherever it stands.
-/

namespace IncrementalBuild.Path

/-! ## Putting together and cutting -/

/-- A piece between slashes has no slash in it. -/
theorem notMem_of_mem_pieces {l : List Char} {s : String}
    (h : s ∈ (splitSlashes l).map String.ofList) : '/' ∉ s.toList := by
  obtain ⟨piece, hpiece, rfl⟩ := List.mem_map.1 h
  rw [String.toList_ofList]
  exact notMem_of_mem_splitSlashes hpiece

/-- **Texts without slashes are cut where they were put together.** -/
theorem splitSlashes_intercalate {first : String} {rest : List String}
    (h : ∀ s ∈ first :: rest, '/' ∉ s.toList) :
    (splitSlashes ("/".intercalate (first :: rest)).toList).map String.ofList = first :: rest := by
  induction rest generalizing first with
  | nil =>
    rw [String.intercalate_singleton, splitSlashes_of_notMem (h first List.mem_cons_self)]
    simp
  | cons next rest ih =>
    have hfirst := splitSlashes_of_notMem (h first List.mem_cons_self)
    have htext : (first ++ "/" ++ "/".intercalate (next :: rest)).toList
        = first.toList ++ '/' :: ("/".intercalate (next :: rest)).toList := by simp
    rw [String.intercalate_cons_cons, htext, splitSlashes_append, hfirst, List.map_append,
      ih fun s hs => h s (List.mem_cons_of_mem _ hs)]
    simp

/-- There are at most as many pieces as characters, and one more. -/
theorem length_splitSlashes_le (l : List Char) : (splitSlashes l).length ≤ l.length + 1 := by
  induction l with
  | nil => exact Nat.le_refl 1
  | cons c rest ih =>
    rw [splitSlashes]
    split
    · exact Nat.succ_le_succ ih
    · obtain ⟨piece, more, hpieces⟩ := List.exists_cons_of_ne_nil (splitSlashes_ne_nil rest)
      rw [hpieces] at ih ⊢
      exact Nat.le_succ_of_le ih

/-- A segment keeps the text that it was made of. -/
@[simp] theorem text_innerSegment (text : String) : (innerSegment text).text = text := by
  unfold innerSegment
  split
  · rfl
  · split <;> rfl

/-- What stands further on is neither the root nor a `.` that counts. -/
theorem ne_of_mem_inner (texts : List String) {c : Component}
    (h : c ∈ (texts.map innerSegment).filterMap (·.component)) : c ≠ .root ∧ c ≠ .current := by
  obtain ⟨segment, hsegment, hc⟩ := List.mem_filterMap.1 h
  obtain ⟨text, -, rfl⟩ := List.mem_map.1 hsegment
  unfold innerSegment at hc
  split at hc
  · cases hc
  · split at hc <;> · obtain rfl := Option.some.inj hc; exact ⟨nofun, nofun⟩

/-- So do several segments. -/
theorem texts_innerSegment (texts : List String) :
    (texts.map innerSegment).map (·.text) = texts := by
  rw [List.map_map]
  exact (List.map_congr_left fun text _ => text_innerSegment text).trans (List.map_id _)

/-- What is not the root alone is spelled as its segments with slashes between them. -/
theorem spelled_eq_intercalate {segments : List Segment}
    (h : ∀ s, segments = [s] → s.component ≠ some .root) :
    spelled segments = "/".intercalate (segments.map (·.text)) := by
  unfold spelled
  split
  · exact absurd rfl (h _ rfl)
  · rfl

/-- The first of several segments. -/
def firstSegment (text : String) : Segment :=
  if text = "" then ⟨text, some .root⟩
  else if text = "." then ⟨text, some .current⟩
  else innerSegment text

/-- The first segment keeps its text as well. -/
@[simp] theorem text_firstSegment (text : String) : (firstSegment text).text = text := by
  unfold firstSegment
  split
  · rfl
  · split
    · rfl
    · exact text_innerSegment text

/-- The first piece of a path is special and the others are not: a `.` there stands for a component,
and nothing there for the root. -/
theorem segments_of_cons_cons {text first next : String} {rest : List String}
    (h : (splitSlashes text.toList).map String.ofList = first :: next :: rest) :
    segments ⟨text⟩ = firstSegment first :: (next :: rest).map innerSegment := by
  unfold segments
  rw [h]
  rfl

/-- A path of a single stretch. -/
theorem segments_of_singleton {text only : String}
    (h : (splitSlashes text.toList).map String.ofList = [only]) (hne : only ≠ "") :
    segments ⟨text⟩ = [firstSegment only] := by
  unfold segments firstSegment
  rw [h, if_neg hne]

/-- What begins like a path, spelled again, has the components that it had. -/
theorem components_spelled_cons {first : String} {rest : List String}
    (h : ∀ s ∈ first :: rest, '/' ∉ s.toList) :
    components ⟨spelled (firstSegment first :: rest.map innerSegment)⟩
      = (firstSegment first :: rest.map innerSegment).filterMap (·.component) := by
  by_cases hroot : rest = [] ∧ first = ""
  · obtain ⟨rfl, rfl⟩ := hroot
    decide
  have hspelled : spelled (firstSegment first :: rest.map innerSegment)
      = "/".intercalate (first :: rest) := by
    rw [spelled_eq_intercalate, List.map_cons, text_firstSegment, texts_innerSegment]
    intro s hs he
    obtain ⟨rfl, hnil⟩ := List.cons.inj hs
    obtain rfl := List.map_eq_nil_iff.1 hnil
    have hfirst : first ≠ "" := fun he => hroot ⟨rfl, he⟩
    unfold firstSegment at he
    rw [if_neg hfirst] at he
    split at he
    · cases he
    · exact (ne_of_mem_inner [first] (List.mem_filterMap.2 ⟨_, by simp, he⟩)).1 rfl
  have hpieces : (splitSlashes (spelled (firstSegment first :: rest.map innerSegment)).toList).map
      String.ofList = first :: rest := by
    rw [hspelled, splitSlashes_intercalate h]
  unfold components
  cases rest with
  | nil => rw [segments_of_singleton hpieces fun he => hroot ⟨rfl, he⟩, List.map_nil]
  | cons next rest => rw [segments_of_cons_cons hpieces]

/-- Only the empty text is cut into one empty piece. -/
theorem eq_nil_of_splitSlashes {l : List Char} (h : splitSlashes l = [[]]) : l = [] := by
  cases l with
  | nil => rfl
  | cons c rest =>
    exfalso
    rw [splitSlashes] at h
    split at h
    · exact splitSlashes_ne_nil rest (List.cons.inj h).2
    · split at h <;> cases h

/-- **A path begins with one segment, and the others are inner ones**, unless it is empty. -/
theorem segments_cases (p : Path) : p.text = "" ∨
    ∃ first rest, (∀ s ∈ first :: rest, '/' ∉ s.toList) ∧
      p.segments = firstSegment first :: rest.map innerSegment := by
  have hslashes {s : String} := notMem_of_mem_pieces (l := p.text.toList) (s := s)
  cases hpieces : (splitSlashes p.text.toList).map String.ofList with
  | nil => exact absurd (List.map_eq_nil_iff.1 hpieces) (splitSlashes_ne_nil _)
  | cons first rest =>
    rw [hpieces] at hslashes
    cases rest with
    | nil =>
      by_cases hempty : first = ""
      · left
        obtain ⟨piece, hsplit, hpiece⟩ := List.map_eq_singleton_iff.1 hpieces
        obtain rfl : piece = [] := by rw [← String.toList_ofList (l := piece), hpiece, hempty]; rfl
        exact String.toList_eq_nil_iff.1 (eq_nil_of_splitSlashes hsplit)
      · exact .inr ⟨first, [], fun _ => hslashes, segments_of_singleton hpieces hempty⟩
    | cons next rest =>
      exact .inr ⟨first, next :: rest, fun _ => hslashes, segments_of_cons_cons hpieces⟩

/-- The first segment of a path always stands for a component, since a `.` counts there and so does
nothing. -/
theorem component_firstSegment_ne_none (text : String) : (firstSegment text).component ≠ none := by
  unfold firstSegment innerSegment
  split
  · exact Option.some_ne_none _
  · split
    · exact Option.some_ne_none _
    · rename_i hempty hdot
      rw [if_neg (by simp [hempty, hdot])]
      split <;> exact Option.some_ne_none _

/-- **Only the empty path has no components.** -/
theorem components_eq_nil_iff {p : Path} : p.components = [] ↔ p.text = "" := by
  constructor
  · intro h
    refine (segments_cases p).resolve_right ?_
    rintro ⟨first, rest, -, hsegments⟩
    unfold components at h
    rw [hsegments, List.filterMap_eq_nil_iff] at h
    exact component_firstSegment_ne_none first (h _ List.mem_cons_self)
  · intro h
    obtain ⟨text⟩ := p
    obtain rfl : text = "" := h
    rfl

/-- Behind its first component a path has only inner ones. -/
theorem ne_of_mem_tail {p : Path} {c : Component} (h : c ∈ p.components.tail) :
    c ≠ .root ∧ c ≠ .current := by
  rcases segments_cases p with hempty | ⟨first, rest, -, hsegments⟩
  · rw [components_eq_nil_iff.2 hempty] at h
    cases h
  · unfold components at h
    rw [hsegments, List.filterMap_cons] at h
    refine ne_of_mem_inner rest ?_
    split at h
    · exact List.mem_of_mem_tail h
    · exact h

/-- **A beginning of a path, spelled again, has the components that it had.** -/
theorem components_spelled_of_isPrefix {p : Path} {front : List Segment} (h : front <+: p.segments)
    (hp : p.text ≠ "") :
    components ⟨spelled front⟩ = front.filterMap (·.component) := by
  obtain ⟨first, rest, hslashes, hsegments⟩ := (segments_cases p).resolve_left hp
  rw [hsegments] at h
  rcases List.prefix_cons_iff.1 h with rfl | ⟨more, rfl, hmore⟩
  · decide
  · obtain ⟨back, hback⟩ := hmore
    obtain ⟨texts, others, rfl, rfl, -⟩ := List.map_eq_append_iff.1 hback.symm
    exact components_spelled_cons fun s hs =>
      hslashes s (List.mem_append_left others (by rwa [← List.cons_append] at *))

/-- A path has no more components than it has slashes and one more. -/
theorem length_components_le (p : Path) : p.components.length ≤ p.text.length + 1 := by
  refine (List.length_filterMap_le _ _).trans ?_
  have hpieces := length_splitSlashes_le p.text.toList
  rw [String.length_toList, ← List.length_map String.ofList] at hpieces
  unfold segments
  split
  · exact Nat.zero_le _
  · exact Nat.le_add_left _ _
  · rename_i first rest _ he
    rw [he] at hpieces
    simpa using hpieces

/-! ## Segments that stand for nothing -/

/-- What is dropped stands at the end. -/
theorem dropSilentEnd_isPrefix (segments : List Segment) : dropSilentEnd segments <+: segments :=
  List.rdropWhile_prefix _ _

/-- Dropping segments that stand for nothing keeps the components. -/
theorem components_dropWhile (segments : List Segment) :
    (segments.dropWhile (·.component.isNone)).filterMap (·.component)
      = segments.filterMap (·.component) := by
  induction segments with
  | nil => rfl
  | cons s rest ih =>
    obtain ⟨text, component⟩ := s
    cases component with
    | none => simpa using ih
    | some c => simp

/-- Nothing that counts is dropped, so the components stay. -/
theorem components_dropSilentEnd (segments : List Segment) :
    (dropSilentEnd segments).filterMap (·.component) = segments.filterMap (·.component) := by
  rw [dropSilentEnd, List.filterMap_reverse, components_dropWhile, List.filterMap_reverse,
    List.reverse_reverse]

/-- Where those are dropped, the last segment that is left stands for a component. -/
theorem dropSilentEnd_cases (segments : List Segment) : dropSilentEnd segments = [] ∨
    ∃ before text c, dropSilentEnd segments = before ++ [⟨text, some c⟩] := by
  rcases List.eq_nil_or_concat (dropSilentEnd segments) with hnil | ⟨before, ⟨text, component⟩, he⟩
  · exact .inl hnil
  · rw [List.concat_eq_append] at he
    have hne : segments.rdropWhile (·.component.isNone) ≠ [] :=
      ne_of_eq_of_ne he (List.append_ne_nil_of_right_ne_nil _ (List.cons_ne_nil _ _))
    have hlast := List.rdropWhile_last_not _ _ hne
    cases component with
    | none =>
      exact absurd (by simp [show segments.rdropWhile (·.component.isNone) = _ from he]) hlast
    | some c => exact .inr ⟨before, text, c, he⟩

/-! ## Parents -/

/-- **The parent of a path** has all its components but the last, and only the empty path and the
root have none. -/
theorem parent_cases (p : Path) :
    (p.parent = none ∧ (p.components = [] ∨ p.components = [.root])) ∨
      ∃ dir c, p.parent = some dir ∧ c ≠ .root ∧ p.components = dir.components ++ [c] := by
  rcases eq_or_ne p.text "" with hempty | hne
  · obtain ⟨text⟩ := p
    obtain rfl : text = "" := hempty
    exact .inl ⟨rfl, .inl rfl⟩
  have hcomponents : p.components = (dropSilentEnd p.segments).filterMap (·.component) :=
    (components_dropSilentEnd _).symm
  unfold parent
  rcases dropSilentEnd_cases p.segments with hnil | ⟨before, text, c, he⟩
  · rw [hnil] at hcomponents ⊢
    exact .inl ⟨rfl, .inl hcomponents⟩
  have hbefore : components ⟨spelled (dropSilentEnd before)⟩ = before.filterMap (·.component) := by
    rw [components_spelled_of_isPrefix _ hne, components_dropSilentEnd]
    exact (dropSilentEnd_isPrefix before).trans
      ((List.prefix_append before _).trans (he ▸ dropSilentEnd_isPrefix p.segments))
  rw [he, List.filterMap_append] at hcomponents
  rw [he, List.reverse_append]
  by_cases hroot : c = .root
  · subst hroot
    refine .inl ⟨rfl, .inr ?_⟩
    -- The root stands only at the beginning, so nothing is before it.
    cases hfront : before.filterMap (·.component) with
    | nil => rw [hcomponents, hfront]; rfl
    | cons first rest =>
      refine absurd rfl (ne_of_mem_tail (p := p) (c := .root) ?_).1
      rw [hcomponents, hfront]
      exact List.mem_append_right _ List.mem_cons_self
  · refine .inr ⟨⟨spelled (dropSilentEnd before)⟩, c, ?_, hroot, ?_⟩
    · cases c with
      | root => exact absurd rfl hroot
      | _ => simp
    · rw [hcomponents, hbefore]
      rfl

/-- Every beginning of the components of a path is that of some path. -/
theorem exists_components_of_isPrefix {p : Path} {front : List Component}
    (h : front <+: p.components) : ∃ q : Path, q.components = front := by
  obtain ⟨back, h⟩ := h
  induction back using List.reverseRecOn generalizing p with
  | nil => exact ⟨p, by rw [← h, List.append_nil]⟩
  | append_singleton back c ih =>
    rw [← List.append_assoc] at h
    rcases p.parent_cases with ⟨-, hp⟩ | ⟨dir, d, -, -, hp⟩
    · refine ⟨⟨""⟩, (List.append_eq_nil_iff.1 (?_ : front ++ back = [])).1.symm⟩
      rcases hp with hp | hp <;> rw [hp] at h
      · exact absurd h (List.concat_ne_nil _ _)
      · have hroot : front ++ back ++ [c] = [] ++ [.root] := h
        exact (List.append_inj' hroot rfl).1
    · exact ih (List.append_inj' (h.trans hp) rfl).1

/-! ## Relative paths -/

/-- Passing over some components leaves the others. -/
theorem components_afterComponents (n : Nat) (segments : List Segment) :
    (afterComponents n segments).filterMap (·.component)
      = (segments.filterMap (·.component)).drop n := by
  induction segments generalizing n with
  | nil => cases n <;> simp [afterComponents]
  | cons s rest ih =>
    cases n with
    | zero => rfl
    | succ n =>
      obtain ⟨text, component⟩ := s
      cases component with
      | none => simpa [afterComponents] using ih (n + 1)
      | some c => simpa [afterComponents] using ih n

/-- What is left stands at the end. -/
theorem afterComponents_suffix (n : Nat) (segments : List Segment) :
    afterComponents n segments <:+ segments := by
  induction segments generalizing n with
  | nil => cases n <;> exact List.suffix_refl _
  | cons s rest ih =>
    cases n with
    | zero => exact List.suffix_refl _
    | succ n =>
      unfold afterComponents
      split <;> exact (ih _).trans (List.suffix_cons s rest)

/-- What is left once some components have been passed is made of inner segments. -/
theorem afterComponents_succ_suffix (n : Nat) (s : Segment) (rest : List Segment) :
    afterComponents (n + 1) (s :: rest) <:+ rest := by
  rw [afterComponents]
  split <;> exact afterComponents_suffix _ rest

/-- Inner segments are spelled as a path that has their components, if the first stands for one. -/
theorem components_spelled_inner {texts : List String} (h : ∀ s ∈ texts, '/' ∉ s.toList)
    (hfirst : ∀ s ∈ (texts.map innerSegment).head?, s.component ≠ none) :
    components ⟨spelled (texts.map innerSegment)⟩
      = (texts.map innerSegment).filterMap (·.component) := by
  cases texts with
  | nil => decide
  | cons first rest =>
    have hcounts : (innerSegment first).component ≠ none := hfirst _ rfl
    have hsame : innerSegment first = firstSegment first := by
      have hplain : ¬(first = "" ∨ first = ".") := fun hor =>
        hcounts (by unfold innerSegment; rw [if_pos (by simpa using hor)])
      obtain ⟨hempty, hdot⟩ := not_or.1 hplain
      rw [firstSegment, if_neg hempty, if_neg hdot]
    rw [List.map_cons, hsame]
    exact components_spelled_cons h

/-- **What is left of a path below a directory** has the components that come after those of the
directory. -/
theorem components_relativeTo? {p base rel : Path} (h : p.relativeTo? base = some rel)
    (hbase : base.components ≠ []) : p.components = base.components ++ rel.components := by
  unfold relativeTo? at h
  split at h
  swap
  · cases h
  rename_i hbegins
  obtain ⟨below, hbelow⟩ := List.isPrefixOf_iff_prefix.1 hbegins
  dsimp only at h
  rw [if_neg (by simpa using hbase)] at h
  obtain rfl := Option.some.inj h
  rcases segments_cases p with hempty | ⟨first, rest, hslashes, hsegments⟩
  · rw [components_eq_nil_iff.2 hempty] at hbelow
    -- The empty path has no components, so it does not begin with those of a directory.
    exact absurd (List.append_eq_nil_iff.1 hbelow).1 hbase
  -- The segments that are left have the components that come behind those of the directory.
  have hcomponents : (dropSilentEnd ((afterComponents base.components.length p.segments).dropWhile
      (·.component.isNone))).filterMap (·.component) = below := by
    rw [components_dropSilentEnd, components_dropWhile, components_afterComponents]
    exact (congrArg _ hbelow.symm).trans (List.drop_left' rfl)
  obtain ⟨n, hn⟩ := Nat.exists_eq_succ_of_ne_zero (List.length_pos_iff.2 hbase).ne'
  have hsuffix := afterComponents_succ_suffix n (firstSegment first) (rest.map innerSegment)
  rw [hsegments, hn] at hcomponents
  rw [hsegments, hn]
  -- What is left is made of inner segments, and the first of them stands for a component: so it
  -- is spelled again as it was, and no leading dot or slash comes in.
  generalize afterComponents (n + 1) _ = left at hcomponents hsuffix
  obtain ⟨back, hback⟩ := dropSilentEnd_isPrefix (left.dropWhile (·.component.isNone))
  obtain ⟨front, hfront⟩ := (List.dropWhile_suffix (·.component.isNone)).trans hsuffix
  have hhead := List.head?_dropWhile_not (·.component.isNone) left
  generalize dropSilentEnd (left.dropWhile (·.component.isNone)) = kept at hcomponents hback
  rw [← hback] at hfront hhead
  obtain ⟨texts, others, rfl, -, htexts⟩ := List.map_eq_append_iff.1 hfront.symm
  obtain ⟨texts, others, rfl, rfl, -⟩ := List.map_eq_append_iff.1 htexts
  rw [← hbelow, components_spelled_inner, hcomponents]
  · exact fun s hs => hslashes s (List.mem_cons_of_mem _
      (List.mem_append_right _ (List.mem_append_left _ hs)))
  · intro s hs hnone
    rw [List.head?_append, Option.mem_def.1 hs] at hhead
    simp [hnone] at hhead

end IncrementalBuild.Path
