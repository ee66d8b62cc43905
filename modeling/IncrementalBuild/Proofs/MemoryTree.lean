import IncrementalBuild.FileSystem.Memory
import IncrementalBuild.Proofs.OrderedMap
import IncrementalBuild.Proofs.Path.Spelling

/-!
# What a file system in memory holds

Files are added one after the other, each with the directories above it. As long as no file is put
where a directory stands, and none below a file, what is stored can be told from the paths of the
files alone: a path is a file if it was added, and a directory if it stands above one that was.
So whatever is stored has all its directories above it.
-/

namespace IncrementalBuild

namespace Path

/-- **Whether a path stands above another one**, at any distance. The empty path stands above
nothing. -/
def IsAbove (dir p : Path) : Prop :=
  dir.components ≠ [] ∧ ∃ below, below ≠ [] ∧ p.components = dir.components ++ below

variable {p q r : Path}

/-- What is below a path below another one is below that. -/
theorem IsAbove.trans (h : p.IsAbove q) (h' : q.IsAbove r) : p.IsAbove r := by
  obtain ⟨hne, below, hbelow, hq⟩ := h
  obtain ⟨-, below', -, hr⟩ := h'
  exact ⟨hne, below ++ below', List.append_ne_nil_of_left_ne_nil hbelow _,
    by rw [hr, hq, List.append_assoc]⟩

instance (p q : Path) : Decidable (p.IsAbove q) :=
  decidable_of_iff
    (p.components ≠ [] ∧ p.components <+: q.components ∧ p.components ≠ q.components) <| by
    refine and_congr_right fun _ => ⟨fun ⟨⟨below, h⟩, hne⟩ => ⟨below, ?_, h.symm⟩,
      fun ⟨below, hbelow, h⟩ => ⟨⟨below, h.symm⟩, ?_⟩⟩
    · rintro rfl
      exact hne (by rw [← h, List.append_nil])
    · exact fun he => hbelow (List.self_eq_append_right.1 (he.trans h))

/-- No path is below itself: something has to be appended. -/
theorem not_isAbove_self (p : Path) : ¬p.IsAbove p := fun ⟨_, _, hne, h⟩ =>
  hne (List.self_eq_append_right.1 h)

/-- Being below goes by components, so the spelling of a path does not matter. -/
theorem IsAbove.congr_left {p' : Path} (h : p.IsAbove q) (hp : p.components = p'.components) :
    p'.IsAbove q := by
  unfold IsAbove at h ⊢
  rwa [← hp]

/-- **What stands above a path** stands above its parent or is the parent. -/
theorem isAbove_iff_of_concat {dir : Path} {c : Component}
    (h : p.components = dir.components ++ [c]) :
    q.IsAbove p ↔ q.components ≠ [] ∧ q.components = dir.components ∨ q.IsAbove dir := by
  constructor
  · rintro ⟨hne, below, hbelow, he⟩
    obtain ⟨front, last, rfl⟩ := (List.eq_nil_or_concat below).resolve_left hbelow
    rw [List.concat_eq_append, ← List.append_assoc, h] at he
    obtain ⟨hdir, -⟩ := List.append_inj' he rfl
    rcases eq_or_ne front [] with rfl | hfront
    · exact .inl ⟨hne, by rw [hdir, List.append_nil]⟩
    · exact .inr ⟨hne, front, hfront, hdir⟩
  · rintro (⟨hne, he⟩ | ⟨hne, below, -, he⟩)
    · exact ⟨hne, [c], List.cons_ne_nil _ _, by rw [h, he]⟩
    · exact ⟨hne, below ++ [c], List.concat_ne_nil _ _, by rw [h, he, List.append_assoc]⟩

/-- Nothing stands above a path of one component. -/
theorem not_isAbove_of_length_le (h : p.components.length ≤ 1) : ¬q.IsAbove p := by
  rintro ⟨hne, below, hbelow, he⟩
  rw [he, List.length_append] at h
  have := List.length_pos_iff.2 hne
  have := List.length_pos_iff.2 hbelow
  omega

end Path

namespace MemoryFiles

/-! ## The directories above a path -/

/-- The directories above a path are found, if there is fuel for all of them. -/
theorem exists_mem_directoriesAbove_iff {n : Nat} {p q : Path} (h : p.components.length ≤ n + 1) :
    (∃ dir ∈ directoriesAbove n p, dir.components = q.components) ↔ q.IsAbove p := by
  induction n generalizing p with
  | zero =>
    refine iff_of_false ?_ (Path.not_isAbove_of_length_le h)
    rintro ⟨dir, hdir, -⟩
    rw [directoriesAbove] at hdir
    cases hdir
  | succ n ih =>
    rcases p.parent_cases with ⟨hparent, hp⟩ | ⟨dir, c, hparent, -, hp⟩
    · unfold directoriesAbove
      rw [hparent]
      refine iff_of_false (fun ⟨_, hmem, _⟩ => List.not_mem_nil hmem)
        (Path.not_isAbove_of_length_le ?_)
      rcases hp with hp | hp <;> rw [hp] <;> simp
    · have hdir : dir.components.length ≤ n + 1 := by
        rw [hp, List.length_append] at h
        exact Nat.le_of_succ_le_succ h
      unfold directoriesAbove
      rw [Path.isAbove_iff_of_concat hp, hparent, ← ih hdir]
      dsimp only
      split
      · rename_i hempty
        have hnil := Path.components_eq_nil_iff.2 hempty
        refine iff_of_false (fun ⟨_, hmem, _⟩ => List.not_mem_nil hmem) ?_
        rintro (⟨hne, he⟩ | habove)
        · exact hne (he.trans hnil)
        · exact Path.not_isAbove_of_length_le (by rw [hnil]; exact Nat.zero_le _)
            ((ih hdir).1 habove)
      · rename_i hne
        rw [List.exists_mem_cons_iff, eq_comm (a := dir.components)]
        exact or_congr_left ⟨fun he => ⟨he ▸ mt Path.components_eq_nil_iff.1 hne, he⟩, And.right⟩

/-- **The directories above a path are those that stand above it.** -/
theorem exists_mem_ancestors_iff {p q : Path} :
    (∃ dir ∈ ancestors p, dir.components = q.components) ↔ q.IsAbove p :=
  exists_mem_directoriesAbove_iff p.length_components_le

/-! ## What is stored -/

/-- **Whether what is stored are files at some paths and the directories above them.** -/
structure Stores (fs : MemoryFiles) (paths : List Path) : Prop where
  file : ∀ q, (∃ content, fs.entries.get? q = some (.file content)) ↔
    ∃ p ∈ paths, p.components = q.components
  directory : ∀ q, fs.entries.get? q = some .directory ↔ ∃ p ∈ paths, q.IsAbove p

variable {fs : MemoryFiles} {paths : List Path}

/-- Nothing is stored at first. -/
theorem stores_empty : empty.Stores [] where
  file _ := iff_of_false (fun ⟨_, h⟩ => by cases h) fun ⟨_, h, _⟩ => List.not_mem_nil h
  directory _ := iff_of_false (fun h => by cases h) fun ⟨_, h, _⟩ => List.not_mem_nil h

/-- **What is stored once a file has been added**: the file, what there was, and directories above
the file where there was nothing. -/
theorem get?_addFile (fs : MemoryFiles) (p : Path) (content : ByteArray) (q : Path) :
    (fs.addFile p content).entries.get? q = if compare p q = .eq then some (.file content)
      else (fs.entries.get? q).or (if q.IsAbove p then some .directory else none) := by
  have habove (dirs : List Path) (m : OrderedMap Path MemoryEntry) :
      (dirs.foldl (fun m dir => m.insertNew dir .directory) m).get? q
        = (m.get? q).or (if ∃ dir ∈ dirs, dir.components = q.components then some .directory
          else none) := by
    induction dirs generalizing m with
    | nil => simp
    | cons dir rest ih =>
      rw [List.foldl_cons, ih, OrderedMap.get?_insertNew, Option.or_assoc]
      by_cases he : dir.components = q.components
      · simp [Path.compare_eq_iff.2 he, he]
      · simp [mt Path.compare_eq_iff.1 he, he]
  unfold addFile
  rw [OrderedMap.get?_insert, habove]
  simp only [exists_mem_ancestors_iff]

/-- **Adding a file** where nothing is stored above or below. -/
theorem Stores.addFile (h : fs.Stores paths) {p : Path} (hp : ∀ q ∈ paths, ¬p.IsAbove q)
    (hq : ∀ q ∈ paths, ¬q.IsAbove p) (content : ByteArray) :
    (fs.addFile p content).Stores (p :: paths) where
  file q := by
    rw [get?_addFile, List.exists_mem_cons_iff, ← h.file q, ← Path.compare_eq_iff]
    split
    -- The file itself, in whatever spelling.
    · rename_i he
      exact iff_of_true ⟨content, rfl⟩ (.inl he)
    -- At other paths files stay, and directories that are new do not count.
    · rename_i hne
      rw [or_iff_right hne]
      cases fs.entries.get? q with
      | some entry => rfl
      | none => split <;> simp
  directory q := by
    rw [get?_addFile, List.exists_mem_cons_iff]
    split
    -- The place of the file is no directory: the file does not lie below itself, and no other
    -- lies below it.
    · rename_i he
      refine iff_of_false nofun ?_
      rw [Path.compare_eq_iff] at he
      rintro (habove | ⟨r, hr, habove⟩)
      · exact p.not_isAbove_self (habove.congr_left he.symm)
      · exact hp r hr (habove.congr_left he.symm)
    · rw [← h.directory q]
      cases hentry : fs.entries.get? q with
      | none =>
        split
        · rename_i habove
          exact iff_of_true rfl (.inl habove)
        · rename_i hnot
          exact iff_of_false nofun (by simpa using hnot)
      -- What was stored before stays as it was. A file there would lie above the new one.
      | some entry =>
        refine ⟨.inr, fun hor => hor.elim (fun habove => ?_) id⟩
        cases entry with
        | directory => rfl
        | file =>
          obtain ⟨r, hr, he⟩ := (h.file q).1 ⟨_, hentry⟩
          exact absurd (habove.congr_left he.symm) (hq r hr)

/-- Files may be added one after the other, if none of all the files is above another one. -/
theorem Stores.foldl_addFile (h : fs.Stores paths) (added : List (Path × ByteArray))
    (hapart : ∀ p ∈ added.map (·.1) ++ paths, ∀ q ∈ added.map (·.1) ++ paths, ¬p.IsAbove q) :
    (added.foldl (fun fs file => fs.addFile file.1 file.2) fs).Stores
      ((added.map (·.1)).reverse ++ paths) := by
  induction added generalizing fs paths with
  | nil => exact h
  | cons file rest ih =>
    have hfile : file.1 ∈ (file :: rest).map (·.1) ++ paths := List.mem_cons_self
    have hpaths {q : Path} (hq : q ∈ paths) : q ∈ (file :: rest).map (·.1) ++ paths :=
      List.mem_append_right _ hq
    have hadded := h.addFile (fun q hq => hapart _ hfile q (hpaths hq))
      (fun q hq => hapart q (hpaths hq) _ hfile) file.2
    have hperm : (rest.map (·.1) ++ file.1 :: paths).Perm ((file :: rest).map (·.1) ++ paths) :=
      List.perm_middle
    have hrest := ih hadded fun p hp q hq =>
      hapart p (hperm.mem_iff.1 hp) q (hperm.mem_iff.1 hq)
    rwa [List.map_cons, List.reverse_cons, List.append_assoc]

/-- The files that are added one after the other to none. -/
def ofFiles (added : List (Path × ByteArray)) : MemoryFiles :=
  added.foldl (fun fs file => fs.addFile file.1 file.2) .empty

/-- **Files that are added, none above another one, are stored with the directories above them.** -/
theorem stores_ofFiles {added : List (Path × ByteArray)}
    (h : ∀ a ∈ added, ∀ b ∈ added, ¬a.1.IsAbove b.1) :
    (ofFiles added).Stores (added.map (·.1)) := by
  have hall := stores_empty.foldl_addFile added <| by
    rw [List.append_nil]
    exact List.forall_mem_map.2 fun a ha => List.forall_mem_map.2 (h a ha)
  rw [List.append_nil] at hall
  unfold ofFiles
  exact ⟨fun q => by simpa only [List.mem_reverse] using hall.file q,
    fun q => by simpa only [List.mem_reverse] using hall.directory q⟩

/-- What is stored is one of the files or stands above one. -/
theorem Stores.exists_isPrefix (h : fs.Stores paths) {q : Path} (hq : q ∈ fs.entries.keys) :
    ∃ p ∈ paths, q.components <+: p.components := by
  obtain ⟨⟨q, entry⟩, hentry, rfl⟩ := List.mem_map.1 hq
  have hget := OrderedMap.get?_of_mem hentry
  cases entry with
  | file content =>
    obtain ⟨p, hp, he⟩ := (h.file q).1 ⟨content, hget⟩
    exact ⟨p, hp, he ▸ List.prefix_refl _⟩
  | directory =>
    obtain ⟨p, hp, -, below, -, he⟩ := (h.directory q).1 hget
    exact ⟨p, hp, below, he.symm⟩

/-- **Above everything that is stored there are directories.** -/
theorem Stores.get?_of_isAbove (h : fs.Stores paths) {dir q : Path} (hq : q ∈ fs.entries.keys)
    (habove : dir.IsAbove q) : fs.entries.get? dir = some .directory := by
  obtain ⟨p, hp, rest, hrest⟩ := h.exists_isPrefix hq
  obtain ⟨hne, below, hbelow, he⟩ := habove
  refine (h.directory dir).2 ⟨p, hp, hne, below ++ rest, ?_, ?_⟩
  · exact List.append_ne_nil_of_left_ne_nil hbelow _
  · rw [← hrest, he, List.append_assoc]

/-! ## What is listed -/

variable {p q dir : Path}

/-- A directory is where one is stored. -/
theorem isDirectory_iff : FileSystem.isDirectory fs p = true ↔
    fs.entries.get? p = some .directory := by
  simp only [FileSystem.isDirectory]
  split <;> simp_all

/-- A file is where one is stored, whatever bytes it has. -/
theorem isFile_iff : FileSystem.isFile fs p = true ↔
    ∃ content, fs.entries.get? p = some (.file content) := by
  simp only [FileSystem.isFile, contents]
  split <;> simp_all

/-- The files that are listed are the keys with a file at them. -/
theorem mem_files_iff : p ∈ fs.files ↔
    p ∈ fs.entries.keys ∧ FileSystem.isFile fs p = true := by
  rw [isFile_iff]
  constructor
  · intro h
    obtain ⟨⟨q, entry⟩, hentry, hp⟩ := List.mem_filterMap.1 h
    have hget := OrderedMap.get?_of_mem hentry
    cases entry with
    | directory => cases hp
    | file content =>
      obtain rfl := Option.some.inj hp
      exact ⟨List.mem_map.2 ⟨_, hentry, rfl⟩, content, hget⟩
  · rintro ⟨hkey, content, hget⟩
    obtain ⟨⟨q, entry⟩, hentry, rfl⟩ := List.mem_map.1 hkey
    have he := (OrderedMap.get?_of_mem hentry).symm.trans hget
    obtain rfl : entry = .file content := Option.some.inj he
    exact List.mem_filterMap.2 ⟨_, hentry, rfl⟩

/-- The empty path is no stored directory, though everything relative is below it. -/
theorem Stores.components_ne_nil (h : fs.Stores paths)
    (hdir : fs.entries.get? dir = some .directory) : dir.components ≠ [] := by
  obtain ⟨_, -, hne, -⟩ := (h.directory dir).1 hdir
  exact hne

/-- **A directory lists what is stored right below it.** -/
theorem list_spec (hdir : fs.entries.get? dir = some .directory) (hne : dir.components ≠ []) :
    ∃ children, FileSystem.list fs dir = .ok children ∧ ∀ q, q ∈ children ↔
      q ∈ fs.entries.keys ∧ ∃ c, q.components = dir.components ++ [c] := by
  refine ⟨fs.entries.keys.filter (·.parent == some dir), by simp only [FileSystem.list, hdir],
    fun q => ?_⟩
  rw [List.mem_filter]
  refine and_congr_right fun _ => ?_
  rcases q.parent_cases with ⟨hparent, hq⟩ | ⟨d, c, hparent, -, hq⟩
  · rw [hparent]
    refine iff_of_false (by simp) ?_
    rintro ⟨c, he⟩
    have hlength := congrArg List.length he
    rw [List.length_append, List.length_singleton] at hlength
    have := List.length_pos_iff.2 hne
    rcases hq with hq | hq <;> rw [hq] at hlength
    · exact absurd hlength (Nat.succ_ne_zero _).symm
    · exact absurd (Nat.succ.inj hlength) this.ne
  · rw [hparent, hq]
    have hbeq : ((some d == some dir) = true) ↔ d.components = dir.components := Path.beq_iff
    rw [hbeq]
    constructor
    · exact fun he => ⟨c, by rw [he]⟩
    · exact fun ⟨c', he⟩ => (List.append_inj' he rfl).1

end MemoryFiles

end IncrementalBuild
