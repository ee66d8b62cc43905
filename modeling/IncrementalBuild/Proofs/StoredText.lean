import IncrementalBuild.FileSystem.Disk
import IncrementalBuild.Proofs.SimulatedTools

/-!
# What is written is there to be read

A text that was written without a failure is read again, from files in memory and from a
disk. On a disk it is written under a temporary name and moved into its place. The place
that a path leads to stays the same meanwhile, because a walk steps on directories alone:
the file that is made, moved and replaced is none of them.
-/

namespace IncrementalBuild

/-- **Whether a text that was written without a failure is there to be read.** -/
def KeepsTexts (φ : Type) [FileSystem φ] : Prop :=
  ∀ (fs after : φ) (p : Path) (text : String),
    FileSystem.write fs p text.toUTF8 = (.ok (), after) →
      FileSystem.pathExists after p = true ∧ FileSystem.readText after p = .ok text

theorem MemoryFiles.keepsTexts : KeepsTexts MemoryFiles := by
  intro fs after p text h
  obtain rfl : fs.addFile p text.toUTF8 = after := (Prod.mk.inj h).2
  exact ⟨(fs.grown_addFile p _).there p List.mem_cons_self,
    readText_of_get? (OrderedMap.get?_insert_self _ _ _)⟩

namespace Disk

variable {d d' : Disk} {p q : Path} {place goal : Location} {e : DiskEntry}

/-- Whether a disk has the directories of another one. -/
def HasDirectories (d d' : Disk) : Prop :=
  d'.workingDir = d.workingDir ∧
    ∀ place, d.entry? place = some .directory → d'.entry? place = some .directory

theorem HasDirectories.walk (h : d.HasDirectories d') {steps : List String}
    (hwalk : d.walk place steps = .ok goal) : d'.walk place steps = .ok goal := by
  induction steps generalizing place with
  | nil => exact hwalk
  | cons step rest ih =>
    unfold Disk.walk at hwalk ⊢
    cases hplace : d.entry? place with
    | none =>
      rw [hplace] at hwalk
      cases hwalk
    | some e =>
      rw [hplace] at hwalk
      cases e with
      | file content executable => cases hwalk
      | directory =>
        rw [h.2 place hplace]
        dsimp only at hwalk ⊢
        by_cases hstay : (decide (step = "") || decide (step = ".")) = true
        · rw [if_pos hstay] at hwalk ⊢
          exact ih hwalk
        rw [if_neg hstay] at hwalk ⊢
        by_cases hup : step = ".."
        · rw [if_pos hup] at hwalk ⊢
          exact ih hwalk
        rw [if_neg hup] at hwalk ⊢
        by_cases hlong : longestName < step.utf8ByteSize
        · rw [if_pos hlong] at hwalk
          cases hwalk
        · rw [if_neg hlong] at hwalk ⊢
          exact ih hwalk

/-- **A path leads to the same place** as long as the directories are there. -/
theorem HasDirectories.locate (h : d.HasDirectories d') (hlocate : d.locate p = .ok goal) :
    d'.locate p = .ok goal := by
  unfold Disk.locate at hlocate ⊢
  by_cases hempty : p.text = ""
  · rw [if_pos hempty] at hlocate
    cases hlocate
  rw [if_neg hempty] at hlocate ⊢
  by_cases hlong : longestPath < p.text.utf8ByteSize
  · rw [if_pos hlong] at hlocate
    cases hlocate
  rw [if_neg hlong] at hlocate ⊢
  rw [h.1]
  exact h.walk hlocate

/-- What stands at a place after something was put at one. -/
theorem entry?_put (d : Disk) (goal place : Location) (e : DiskEntry) (hgoal : goal ≠ []) :
    Disk.entry? (d.put goal e) place = if place = goal then some e else d.entry? place := by
  unfold entry? put
  rw [OrderedMap.get?_insert]
  simp only [Std.compare_eq_iff_eq, @eq_comm _ goal place]
  by_cases hplace : place = goal
  · rw [if_neg (hplace ▸ hgoal), if_pos hplace, if_pos hplace]
  · rw [if_neg hplace, if_neg hplace]

/-- Where no directory stands, something can be put without losing one. -/
theorem hasDirectories_put (hgoal : d.entry? goal ≠ some .directory) :
    goal ≠ [] ∧ d.HasDirectories (d.put goal e) := by
  have hne : goal ≠ [] := fun h => hgoal (h ▸ rfl)
  refine ⟨hne, rfl, fun place hplace => ?_⟩
  rw [entry?_put _ _ _ _ hne, if_neg]
  · exact hplace
  · rintro rfl
    exact hgoal hplace

/-- What stands at a place after one was cleared. -/
theorem entry?_erase (d : Disk) (goal place : Location) (hgoal : goal ≠ []) :
    Disk.entry? { d with entries := d.entries.erase goal } place
      = if place = goal then none else d.entry? place := by
  unfold entry?
  rw [OrderedMap.get?_erase]
  simp only [Std.compare_eq_iff_eq, @eq_comm _ goal place]
  by_cases hplace : place = goal
  · rw [if_neg (hplace ▸ hgoal), if_pos hplace, if_pos hplace]
  · rw [if_neg hplace, if_neg hplace]

/-- A path names what stands at the place to which it leads. -/
theorem find_eq_ok_iff :
    d.find p = .ok (place, e) ↔ d.locate p = .ok place ∧ d.entry? place = some e := by
  unfold find
  cases d.locate p with
  | error fault => simp
  | ok goal =>
    dsimp only
    rw [Except.ok.injEq]
    constructor
    · intro h
      split at h
      · cases h
      · rename_i hentry
        obtain ⟨rfl, rfl⟩ := Prod.mk.inj (Except.ok.inj h)
        exact ⟨rfl, hentry⟩
    · rintro ⟨rfl, hentry⟩
      rw [hentry]

/-- **What is put where no directory stands is named by the path that leads there.** -/
theorem find_put (hlocate : d.locate p = .ok goal) (hgoal : d.entry? goal ≠ some .directory) :
    Disk.find (d.put goal e) p = .ok (goal, e) := by
  obtain ⟨hne, hdirectories⟩ := hasDirectories_put (e := e) hgoal
  refine find_eq_ok_iff.2 ⟨hdirectories.locate hlocate, ?_⟩
  rw [entry?_put _ _ _ _ hne, if_pos rfl]

/-- **A file that was made stands at its path.** -/
theorem find_of_createFile {content : ByteArray} (h : d.createFile p content = .ok d') :
    ∃ place executable, d'.find p = .ok (place, .file content executable) := by
  unfold createFile at h
  cases hlocate : d.locate p with
  | error e =>
    rw [hlocate] at h
    cases h
  | ok place =>
    rw [hlocate] at h
    dsimp only at h
    cases hentry : d.entry? place with
    | none =>
      rw [hentry] at h
      obtain rfl := Except.ok.inj h
      exact ⟨place, false, find_put hlocate (by rw [hentry]; nofun)⟩
    | some entry =>
      rw [hentry] at h
      cases entry with
      | directory => cases h
      | file old executable =>
        obtain rfl := Except.ok.inj h
        exact ⟨place, executable, find_put hlocate (by rw [hentry]; nofun)⟩

/-- **What was moved stands at its new path.** -/
theorem find_of_move {content : ByteArray} {executable : Bool}
    (hsource : d.find q = .ok (place, .file content executable)) (h : d.move q p = .ok d') :
    ∃ goal, d'.find p = .ok (goal, .file content executable) := by
  unfold move at h
  rw [hsource] at h
  cases hlocate : d.locate p with
  | error e =>
    rw [hlocate] at h
    cases h
  | ok goal =>
    rw [hlocate] at h
    dsimp only at h
    split at h
    · cases h
    split at h
    · cases h
    split at h
    · cases h
    rename_i hgoal
    obtain rfl := Except.ok.inj h
    have hplace : d.entry? place = some (.file content executable) := (find_eq_ok_iff.1 hsource).2
    have hne : place ≠ [] := by
      rintro rfl
      cases hplace
    -- The place that is cleared is that of a file, so no path leads elsewhere for it.
    have hcleared : d.HasDirectories { d with entries := d.entries.erase place } := by
      refine ⟨rfl, fun other hother => ?_⟩
      rw [entry?_erase _ _ _ hne, if_neg]
      · exact hother
      · rintro rfl
        cases hplace.symm.trans hother
    refine ⟨goal, find_put (hcleared.locate hlocate) ?_⟩
    rw [entry?_erase _ _ _ hne]
    split
    · nofun
    · intro hdirectory
      rw [hdirectory] at hgoal
      exact hgoal rfl

/-- **A file that was written stands at its path.** -/
theorem find_of_write {content : ByteArray} (h : FileSystem.write d p content = (.ok (), d')) :
    ∃ goal executable, d'.find p = .ok (goal, .file content executable) := by
  have hreplace : ∃ above, replace above p content = (.ok (), d') := by
    cases hdirs : d.makeDirsAbove p with
    | mk made above =>
      simp only [FileSystem.write, hdirs] at h
      cases made with
      | error e => cases h
      | ok u => exact ⟨above, h⟩
  obtain ⟨above, hreplace⟩ := hreplace
  unfold replace at hreplace
  cases hcreate : above.createFile (temporary p) content with
  | error e =>
    rw [hcreate] at hreplace
    cases hreplace
  | ok made =>
    rw [hcreate] at hreplace
    dsimp only at hreplace
    cases hmove : made.move (temporary p) p with
    | error e =>
      rw [hmove] at hreplace
      cases hreplace
    | ok moved =>
      rw [hmove] at hreplace
      obtain rfl : moved = d' := (Prod.mk.inj hreplace).2
      obtain ⟨place, executable, hplace⟩ := find_of_createFile hcreate
      obtain ⟨goal, hgoal⟩ := find_of_move hplace hmove
      exact ⟨goal, executable, hgoal⟩

theorem keepsTexts : KeepsTexts Disk := by
  intro d after p text h
  obtain ⟨goal, executable, hfind⟩ := find_of_write h
  constructor
  · show (after.named? p).isSome = true
    unfold named?
    rw [hfind]
    rfl
  · have hbytes : after.bytes p = .ok text.toUTF8 := by
      unfold bytes
      rw [hfind]
    simp only [FileSystem.readText, hbytes, Text.Utf8.decode_toUTF8]

end Disk

end IncrementalBuild
