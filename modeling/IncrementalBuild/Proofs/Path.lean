import IncrementalBuild.Path
import Mathlib.Data.List.Basic

/-!
# Files of a directory

A name that is put behind a directory is the last component of the path, and the path's file name.
The directory may be spelled in any way, with or without a slash at its end, and it may be empty.
What matters is that the name is one: it holds no slash, and is none of the three texts that stand
for something else than a file. File names and stems that are taken from a path hold no slash.
-/

namespace IncrementalBuild.Path

/-! ## Cutting at slashes -/

theorem splitSlashes_ne_nil (l : List Char) : splitSlashes l ≠ [] := by
  cases l with
  | nil => exact List.cons_ne_nil _ _
  | cons c rest =>
    unfold splitSlashes
    split
    · exact List.cons_ne_nil _ _
    · split <;> exact List.cons_ne_nil _ _

theorem splitSlashes_of_notMem {l : List Char} (h : '/' ∉ l) : splitSlashes l = [l] := by
  induction l with
  | nil => rfl
  | cons c rest ih =>
    obtain ⟨hc, hrest⟩ := not_or.1 (mt List.mem_cons.2 h)
    rw [splitSlashes, if_neg (Ne.symm hc), ih hrest]

/-- **A slash parts two texts** that are cut each for itself. -/
theorem splitSlashes_append (l r : List Char) :
    splitSlashes (l ++ '/' :: r) = splitSlashes l ++ splitSlashes r := by
  induction l with
  | nil => simp [splitSlashes]
  | cons c rest ih =>
    rw [List.cons_append, splitSlashes, splitSlashes, ih]
    split
    · rfl
    · obtain ⟨piece, more, hpieces⟩ := List.exists_cons_of_ne_nil (splitSlashes_ne_nil rest)
      rw [hpieces]
      rfl

/-- What is cut out holds no slash. -/
theorem notMem_of_mem_splitSlashes {l piece : List Char} (h : piece ∈ splitSlashes l) :
    '/' ∉ piece := by
  induction l generalizing piece with
  | nil =>
    obtain rfl := List.mem_singleton.1 h
    exact List.not_mem_nil
  | cons c rest ih =>
    rw [splitSlashes] at h
    split at h
    · rcases List.mem_cons.1 h with rfl | h
      · exact List.not_mem_nil
      · exact ih h
    · rename_i hc
      obtain ⟨first, more, hpieces⟩ := List.exists_cons_of_ne_nil (splitSlashes_ne_nil rest)
      rw [hpieces] at h ih
      rcases List.mem_cons.1 h with rfl | h
      · rintro (_ | ⟨_, hslash⟩)
        · exact hc rfl
        · exact ih List.mem_cons_self hslash
      · exact ih (List.mem_cons_of_mem _ h)

/-! ## Names as components -/

/-- **Whether a text can be the name of a file.** -/
structure IsName (name : String) : Prop where
  notMem : '/' ∉ name.toList
  ne_empty : name ≠ ""
  ne_dot : name ≠ "."
  ne_dots : name ≠ ".."

/-- What ends in a name is one, unless a slash stands before. -/
theorem IsName.append {front name : String} (hfront : '/' ∉ front.toList) (h : IsName name) :
    IsName (front ++ name) := by
  have hends {text : String} (he : front ++ name = text) : name.toList <:+ text.toList := by
    rw [← he, String.toList_append]
    exact List.suffix_append _ _
  have hname {text : String} (hne : name ≠ text) : name.toList ≠ text.toList :=
    fun heq => hne (String.toList_injective heq)
  refine ⟨?_, fun he => ?_, fun he => ?_, fun he => ?_⟩
  · rw [String.toList_append, List.mem_append]
    exact not_or.2 ⟨hfront, h.notMem⟩
  · exact hname h.ne_empty (List.suffix_nil.1 (hends he))
  · rcases List.suffix_cons_iff.1 (hends he) with hdot | hnil
    · exact hname h.ne_dot hdot
    · exact hname h.ne_empty (List.suffix_nil.1 hnil)
  · rcases List.suffix_cons_iff.1 (hends he) with hdots | hrest
    · exact hname h.ne_dots hdots
    · rcases List.suffix_cons_iff.1 hrest with hdot | hnil
      · exact hname h.ne_dot hdot
      · exact hname h.ne_empty (List.suffix_nil.1 hnil)

theorem innerSegment_of_isName {name : String} (h : IsName name) :
    innerSegment name = ⟨name, some (.name name)⟩ := by
  unfold innerSegment
  rw [if_neg (by simp [h.ne_empty, h.ne_dot]), if_neg h.ne_dots]

/-- The name that a segment stands for is its text. -/
theorem eq_of_innerSegment {text name : String}
    (h : (innerSegment text).component = some (.name name)) : name = text := by
  unfold innerSegment at h
  split at h
  · cases h
  · split at h
    · cases h
    · exact (Component.name.inj (Option.some.inj h)).symm

variable {p : Path} {name : String}

/-- **Names among the components** are cut out of the text. -/
theorem mem_pieces_of_mem_components (h : .name name ∈ p.components) :
    name ∈ (splitSlashes p.text.toList).map String.ofList := by
  obtain ⟨segment, hmem, hname⟩ := List.mem_filterMap.1 h
  unfold segments at hmem
  split at hmem
  · cases hmem
  · rename_i only honly
    rw [honly]
    obtain rfl := List.mem_singleton.1 hmem
    split at hname
    · cases hname
    · exact List.mem_singleton.2 (eq_of_innerSegment hname)
  · rename_i first rest _ hpieces
    rw [hpieces]
    rcases List.mem_cons.1 hmem with rfl | hmem
    · split at hname
      · cases hname
      · split at hname
        · cases hname
        · exact List.mem_cons.2 (.inl (eq_of_innerSegment hname))
    · obtain ⟨text, htext, rfl⟩ := List.mem_map.1 hmem
      exact List.mem_cons_of_mem _ (eq_of_innerSegment hname ▸ htext)

/-- A name among the components holds no slash. -/
theorem notMem_of_mem_components (h : .name name ∈ p.components) : '/' ∉ name.toList := by
  obtain ⟨piece, hpiece, rfl⟩ := List.mem_map.1 (mem_pieces_of_mem_components h)
  rw [String.toList_ofList]
  exact notMem_of_mem_splitSlashes hpiece

/-- A name alone is a path of one component. -/
theorem components_of_isName (h : IsName name) : components ⟨name⟩ = [.name name] := by
  unfold components segments
  rw [splitSlashes_of_notMem h.notMem]
  simp [h.ne_dot, innerSegment_of_isName h]

/-- **Behind a slash a name is the last component.** -/
theorem exists_components_append (text : List Char) (h : IsName name) :
    ∃ front, components ⟨String.ofList (text ++ '/' :: name.toList)⟩ = front ++ [.name name] := by
  obtain ⟨first, more, hpieces⟩ := List.exists_cons_of_ne_nil (splitSlashes_ne_nil text)
  have hsplit : (splitSlashes (text ++ '/' :: name.toList)).map String.ofList
      = String.ofList first :: (more.map String.ofList ++ [name]) := by
    rw [splitSlashes_append, splitSlashes_of_notMem h.notMem, hpieces]
    simp
  unfold components segments
  rw [String.toList_ofList, hsplit]
  split
  · rename_i hnil
    exact absurd hnil (List.cons_ne_nil _ _)
  · rename_i only honly
    simp at honly
  · rename_i first' rest _ hcons
    obtain ⟨-, rfl⟩ := List.cons.inj hcons
    rw [List.map_append, List.map_singleton, innerSegment_of_isName h, ← List.cons_append,
      List.filterMap_append]
    exact ⟨_, rfl⟩

/-- **A name put behind a directory is the last component of the path**, however the directory is
spelled. -/
theorem exists_components_join (base : Path) (h : IsName name) :
    ∃ front, (base.join ⟨name⟩).components = front ++ [.name name] := by
  have hrelative : isAbsolute ⟨name⟩ = false := by
    rw [← Bool.not_eq_true]
    unfold isAbsolute
    rw [String.startsWith_string_iff]
    exact fun hstarts => h.notMem (hstarts.subset List.mem_cons_self)
  unfold join
  rw [hrelative, if_neg Bool.false_ne_true]
  split
  · rename_i hends
    rcases Bool.or_eq_true _ _ ▸ hends with hempty | hslash
    · rw [of_decide_eq_true hempty, String.empty_append]
      exact ⟨[], components_of_isName h⟩
    · rw [String.endsWith_eq_endsWith_toSlice, String.Slice.endsWith_string_iff] at hslash
      obtain ⟨front, hfront⟩ := hslash
      have htext : base.text ++ name = String.ofList (front ++ '/' :: name.toList) := by
        apply String.toList_injective
        rw [String.toList_append, ← String.copy_toSlice (s := base.text), ← hfront]
        simp
      rw [htext]
      exact exists_components_append front h
  · have htext : base.text ++ "/" ++ name
        = String.ofList (base.text.toList ++ '/' :: name.toList) := by
      apply String.toList_injective
      simp
    rw [htext]
    exact exists_components_append base.text.toList h

/-- **Files of one directory are told apart by their names.** -/
theorem compare_join_eq_iff (base : Path) {name' : String} (h : IsName name) (h' : IsName name') :
    compare (base.join ⟨name⟩) (base.join ⟨name'⟩) = .eq ↔ name = name' := by
  constructor
  · intro he
    obtain ⟨front, hfront⟩ := exists_components_join base h
    obtain ⟨front', hfront'⟩ := exists_components_join base h'
    rw [compare_eq_iff, hfront, hfront'] at he
    obtain ⟨-, hlast⟩ := List.append_inj' he rfl
    exact Component.name.inj (List.cons.inj hlast).1
  · rintro rfl
    exact Std.ReflOrd.compare_self

/-! ## Stems -/

theorem notMem_stemOfName {name : String} (h : '/' ∉ name.toList) :
    '/' ∉ (stemOfName name).toList := by
  unfold stemOfName
  dsimp only
  split
  · exact h
  · exact h
  · rename_i dot before hdrop
    rw [String.toList_ofList, List.mem_reverse]
    intro hslash
    have hmem : '/' ∈ name.toList.reverse.dropWhile (· ≠ '.') := by
      rw [hdrop]
      exact List.mem_cons_of_mem _ hslash
    exact h (List.mem_reverse.1 ((List.dropWhile_sublist _).mem hmem))

/-- A stem holds no slash. -/
theorem notMem_of_fileStem {stem : String} (h : p.fileStem = some stem) : '/' ∉ stem.toList := by
  obtain ⟨name, hname, rfl⟩ := Option.map_eq_some_iff.1 h
  refine notMem_stemOfName ?_
  unfold fileName at hname
  split at hname
  · rename_i text hlast
    obtain rfl := Option.some.inj hname
    exact notMem_of_mem_components (List.mem_of_getLast? hlast)
  · cases hname

end IncrementalBuild.Path
