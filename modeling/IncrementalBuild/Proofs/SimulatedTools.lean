import IncrementalBuild.SimulatedTools
import IncrementalBuild.Proofs.MemoryTree
import IncrementalBuild.Proofs.Plan.Spelled
import IncrementalBuild.Proofs.StateFile
import IncrementalBuild.Proofs.Tracker

/-!
# What simulated tools leave

Files in memory only ever gain files, and writing one leaves every other as it is. Where
nothing is set for any path, a command of a planned job therefore succeeds, all products of
the job are there afterwards, and so is for every input the record made from its text; and
they stay there while other jobs write elsewhere.
-/

namespace IncrementalBuild

open Command

namespace MemoryFiles

/-- **Whether files come from others by writing at some paths.** -/
structure Grown (fs fs' : MemoryFiles) (paths : List Path) : Prop where
  kept : ∀ q e, (∀ p ∈ paths, compare p q ≠ .eq) → fs.entries.get? q = some e →
    fs'.entries.get? q = some e
  stays : ∀ q, fs.entries.contains q = true → fs'.entries.contains q = true
  there : ∀ p ∈ paths, fs'.entries.contains p = true

theorem Grown.refl (fs : MemoryFiles) : fs.Grown fs [] :=
  ⟨fun _ _ _ h => h, fun _ h => h, fun _ h => absurd h List.not_mem_nil⟩

theorem Grown.congr {fs fs' : MemoryFiles} {paths paths' : List Path} (h : fs.Grown fs' paths)
    (hp : ∀ p, p ∈ paths ↔ p ∈ paths') : fs.Grown fs' paths' where
  kept q e hq he := h.kept q e (fun p hmem => hq p ((hp p).1 hmem)) he
  stays := h.stays
  there p hmem := h.there p ((hp p).2 hmem)

theorem Grown.trans {fs₁ fs₂ fs₃ : MemoryFiles} {paths paths' : List Path}
    (h : fs₁.Grown fs₂ paths) (h' : fs₂.Grown fs₃ paths') :
    fs₁.Grown fs₃ (paths ++ paths') where
  kept q e hq he := h'.kept q e (fun p hp => hq p (List.mem_append_right _ hp))
    (h.kept q e (fun p hp => hq p (List.mem_append_left _ hp)) he)
  stays q hq := h'.stays q (h.stays q hq)
  there p hp := (List.mem_append.1 hp).elim (fun hp => h'.stays p (h.there p hp)) (h'.there p)

/-- **Adding a file leaves every other entry as it is.** -/
theorem grown_addFile (fs : MemoryFiles) (p : Path) (content : ByteArray) :
    fs.Grown (fs.addFile p content) [p] := by
  refine ⟨fun q e hq he => ?_, fun q hq => ?_, fun q hq => ?_⟩
  · rw [get?_addFile, if_neg (hq p List.mem_cons_self), he, Option.some_or]
  · rw [← OrderedMap.isSome_get?] at hq ⊢
    obtain ⟨e, he⟩ := Option.isSome_iff_exists.1 hq
    rw [get?_addFile, he, Option.some_or]
    split <;> rfl
  · obtain rfl := List.mem_singleton.1 hq
    rw [← OrderedMap.isSome_get?, get?_addFile, if_pos Std.ReflOrd.compare_self]
    rfl

/-- A stored text is read. -/
theorem readText_of_get? {fs : MemoryFiles} {p : Path} {text : String}
    (h : fs.entries.get? p = some (.file text.toUTF8)) :
    FileSystem.readText fs p = .ok text := by
  have hbytes : fs.bytes p = .ok text.toUTF8 := by
    unfold MemoryFiles.bytes
    rw [h]
  simp only [FileSystem.readText, hbytes, Text.Utf8.decode_toUTF8]
  rfl

/-- **A saved state is there to be read.** -/
theorem ofFile_addFile (fs : MemoryFiles) (p : Path) (s : BuildState) :
    StateLoad.ofFile (fs.addFile p (SavedState.ofState s).print.toUTF8) p
      = StateLoad.ofText (SavedState.ofState s).print := by
  have hexists : FileSystem.pathExists
      (fs.addFile p (SavedState.ofState s).print.toUTF8) p = true :=
    (fs.grown_addFile p _).there p List.mem_cons_self
  have hread : FileSystem.readText (fs.addFile p (SavedState.ofState s).print.toUTF8) p
      = .ok (SavedState.ofState s).print :=
    readText_of_get? (OrderedMap.get?_insert_self _ _ _)
  unfold StateLoad.ofFile
  rw [if_pos hexists, hread]

end MemoryFiles

namespace SimulatedTools

/-- The tools keep their state files in memory. -/
theorem ofFile_files (t : SimulatedTools) (p : Path) :
    StateLoad.ofFile t p = StateLoad.ofFile t.files p := rfl

/-! ## Running one command -/

/-- A record that is written is made from some text of its input. -/
theorem exists_writeRecord (fs : MemoryFiles) (place : Path × Path) :
    ∃ text, writeRecord .empty fs place
      = fs.addFile place.2 (recordOf place.1 text).print.toUTF8 := ⟨_, rfl⟩

theorem grown_foldl_writeRecord (fs : MemoryFiles) (places : List (Path × Path)) :
    fs.Grown (places.foldl (writeRecord .empty) fs) (places.map (·.2)) := by
  induction places generalizing fs with
  | nil => exact .refl fs
  | cons place rest ih =>
    obtain ⟨text, htext⟩ := exists_writeRecord fs place
    rw [List.foldl_cons, htext]
    exact (fs.grown_addFile place.2 _).trans (ih _)

/-- **Every record is there at the end**, if they go to different places. -/
theorem exists_record_of_mem {places : List (Path × Path)}
    (hd : places.Pairwise fun a b => compare a.2 b.2 ≠ .eq) (fs : MemoryFiles)
    {place : Path × Path} (h : place ∈ places) :
    ∃ text, (places.foldl (writeRecord .empty) fs).entries.get? place.2
      = some (.file (recordOf place.1 text).print.toUTF8) := by
  induction places generalizing fs with
  | nil => exact absurd h List.not_mem_nil
  | cons first rest ih =>
    obtain ⟨hfirst, hrest⟩ := List.pairwise_cons.1 hd
    rw [List.foldl_cons]
    rcases List.mem_cons.1 h with rfl | h
    · obtain ⟨text, htext⟩ := exists_writeRecord fs place
      refine ⟨text, (grown_foldl_writeRecord _ rest).kept _ _ (fun p hp => ?_) ?_⟩
      · obtain ⟨other, hother, rfl⟩ := List.mem_map.1 hp
        exact fun he => hfirst other hother (Std.OrientedCmp.eq_symm he)
      · rw [htext]
        exact OrderedMap.get?_insert_self _ _ _
    · exact ih hrest _ h

/-- The files after a command, where nothing is set for any path. -/
theorem succeed_eq (fs : MemoryFiles) (c : Command) :
    succeed .empty fs c = (recordPlaces c).foldl (writeRecord .empty) (writeProducts fs c) := by
  have hreplace (places : List (Path × Path)) (fs : MemoryFiles) :
      places.foldl (replaceRecord .empty) fs = fs := by
    induction places generalizing fs with
    | nil => rfl
    | cons place rest ih => exact ih fs
  exact hreplace _ _

/-- **What a command leaves** is what was there, and what it writes. -/
theorem grown_succeed (fs : MemoryFiles) (c : Command) :
    fs.Grown (succeed .empty fs c)
      ((c.valuesOf outputFlag).map Path.mk ++ (recordPlaces c).map (·.2)) := by
  have hproducts (values : List String) (content : ByteArray) (fs : MemoryFiles) :
      fs.Grown (values.foldl (fun fs value => fs.addFile ⟨value⟩ content) fs)
        (values.map Path.mk) := by
    induction values generalizing fs with
    | nil => exact .refl fs
    | cons value rest ih => exact (fs.grown_addFile ⟨value⟩ content).trans (ih _)
  rw [succeed_eq]
  exact (hproducts _ _ fs).trans (grown_foldl_writeRecord _ _)

/-- **A command succeeds**, where nothing is set for any path. -/
theorem run_of_empty {t : SimulatedTools} (h : t.script = .empty) (c : Command) :
    (run t c).world.script = .empty ∧ (run t c).world.files = succeed .empty t.files c ∧
      ∃ output, (run t c).result = .ok output ∧ output.exitCode = 0 := by
  have hspawn : (touched c).any t.script.spawnFail.contains = false := by
    rw [h, List.any_eq_false]
    exact fun p _ => by simp [ToolScript.empty]
  have hfail : (touched c).findSome? t.script.fail.get? = none :=
    List.findSome?_eq_none_iff.2 fun p _ => by
      rw [h]
      rfl
  unfold run
  dsimp only
  rw [hspawn]
  simp only [hfail, Option.getD_none, if_true, Bool.false_eq_true, if_false]
  exact ⟨h, by rw [h], _, rfl, rfl⟩

/-! ## Records -/

/-- A word has a character. -/
theorem ne_empty_of_mem_words {line word : String} (h : word ∈ Text.words line) : word ≠ "" := by
  have key (cs current : List Char) : ∀ w ∈ Text.wordsAfter current cs, w ≠ [] := by
    induction cs generalizing current with
    | nil =>
      intro w hw
      unfold Text.wordsAfter at hw
      split at hw
      · exact absurd hw List.not_mem_nil
      · rename_i hcurrent
        obtain rfl := List.mem_singleton.1 hw
        simpa using hcurrent
    | cons c rest ih =>
      intro w hw
      unfold Text.wordsAfter at hw
      split at hw
      · split at hw
        · exact ih [] w hw
        · rename_i hcurrent
          rcases List.mem_cons.1 hw with rfl | hw
          · simpa using hcurrent
          · exact ih [] w hw
      · exact ih _ w hw
  obtain ⟨w, hw, rfl⟩ := List.mem_map.1 h
  intro he
  refine key _ _ w hw ?_
  rw [← String.toList_ofList (l := w), he]
  rfl

/-- **The declarations of a record that is made from a text have keys.** -/
theorem key_ne_empty_of_mem_recordOf {p : Path} {text : String} {d : Declaration}
    (h : d ∈ (recordOf p text).declarations) : d.key ≠ "" := by
  obtain ⟨line, -, hline⟩ := List.mem_filterMap.1 h
  unfold declaration? at hline
  split at hline
  · rename_i key options hwords
    obtain rfl := Option.some.inj hline
    have hkey : key ∈ Text.words line := by
      rw [hwords]
      exact List.mem_cons_of_mem _ List.mem_cons_self
    exact ne_empty_of_mem_words hkey
  · cases hline

/-! ## The files of a job -/

/-- Whether the record of an input is there, made from some text of it. -/
def HasRecord (t : SimulatedTools) (u : CompileUnit) : Prop :=
  ∃ a text, u.record = some a ∧
    t.files.entries.get? a.path = some (.file (recordOf u.primary text).print.toUTF8)

/-- **Whether everything that a job writes is there.** -/
structure Delivers (t : SimulatedTools) (job : Job) : Prop where
  outputs : ∀ a ∈ job.outputs, FileSystem.pathExists t a.path = true
  records : ∀ u ∈ job.units, t.HasRecord u

/-- A record that is there is read. -/
theorem HasRecord.recordOf?_eq {t : SimulatedTools} {u : CompileUnit} (h : t.HasRecord u) :
    ∃ text, Tracker.recordOf? t u = some (recordOf u.primary text) := by
  obtain ⟨a, text, ha, hget⟩ := h
  have hread : FileSystem.readText t a.path = .ok (recordOf u.primary text).print :=
    MemoryFiles.readText_of_get? hget
  refine ⟨text, ?_⟩
  unfold Tracker.recordOf? DependencyRecord.ofFile
  rw [ha, Option.bind_some, hread]
  dsimp only
  rw [DependencyRecord.parse_print]
  rfl

section Job

variable {t : SimulatedTools} {job other : Job}

/-- The paths that the command of a job writes are those of the job's products. -/
theorem perm_written (h : job.Spelled) :
    ((job.command.valuesOf outputFlag).map Path.mk ++ (recordPlaces job.command).map (·.2)).Perm
      (job.outputs.map (·.path)) := by
  have hlength : (job.command.valuesOf recordFlag).length
      ≤ (job.command.valuesOf primaryFlag).length := by
    have := congrArg List.length h.records
    rw [List.length_map, List.length_map] at this
    rw [this, h.primaries, List.length_map]
  have hplaces : (recordPlaces job.command).map (·.2)
      = (job.command.valuesOf recordFlag).map Path.mk := by
    unfold recordPlaces
    rw [List.map_map]
    calc List.map ((·.2) ∘ fun pair => ((⟨pair.1⟩ : Path), (⟨pair.2⟩ : Path)))
          ((job.command.valuesOf primaryFlag).zip (job.command.valuesOf recordFlag))
        = (((job.command.valuesOf primaryFlag).zip (job.command.valuesOf recordFlag)).map
            Prod.snd).map Path.mk := by rw [List.map_map]; rfl
      _ = (job.command.valuesOf recordFlag).map Path.mk := by rw [List.map_snd_zip hlength]
  have hpaths : job.outputs.map (·.path) = (job.outputs.map (·.path.text)).map Path.mk := by
    rw [List.map_map]
    rfl
  rw [hplaces, ← List.map_append, hpaths]
  exact h.outputs.map _

/-- Every input that a job compiles has a place for its record. -/
theorem mem_recordPlaces (h : job.Spelled) {u : CompileUnit} (hu : u ∈ job.units) :
    ∃ a, u.record = some a ∧ (u.primary, a.path) ∈ recordPlaces job.command := by
  have hzip (units : List CompileUnit) (records : List String)
      (hrecords : records.map some = units.map fun u => u.record.map (·.path.text))
      (hu : u ∈ units) : ∃ a, u.record = some a ∧
        (u.primary.text, a.path.text) ∈ (units.map (·.primary.text)).zip records := by
    induction units generalizing records with
    | nil => exact absurd hu List.not_mem_nil
    | cons v rest ih =>
      cases records with
      | nil => cases hrecords
      | cons record more =>
        obtain ⟨hrecord, hmore⟩ := List.cons.inj hrecords
        rcases List.mem_cons.1 hu with rfl | hu
        · obtain ⟨a, ha, rfl⟩ := Option.map_eq_some_iff.1 hrecord.symm
          exact ⟨a, ha, List.mem_cons_self⟩
        · obtain ⟨a, ha, hmem⟩ := ih more hmore hu
          exact ⟨a, ha, List.mem_cons_of_mem _ hmem⟩
  obtain ⟨a, ha, hmem⟩ := hzip job.units _ h.records hu
  refine ⟨a, ha, List.mem_map.2 ⟨(u.primary.text, a.path.text), ?_, rfl⟩⟩
  rw [h.primaries]
  exact hmem

/-- The command of a job writes the products of the job, and nothing else. -/
theorem grown_run (hs : t.script = .empty) (h : job.Spelled) :
    t.files.Grown (run t job.command).world.files (job.outputs.map (·.path)) := by
  rw [(run_of_empty hs job.command).2.1]
  exact (grown_succeed t.files job.command).congr fun p => (perm_written h).mem_iff

/-- **A job delivers.** -/
theorem delivers_run (hs : t.script = .empty) (h : job.Spelled)
    (hd : (job.outputs.map (·.path)).Pairwise fun p q => compare p q ≠ .eq) :
    (run t job.command).world.Delivers job where
  outputs a ha := (grown_run hs h).there a.path (List.mem_map.2 ⟨a, ha, rfl⟩)
  records u hu := by
    obtain ⟨a, ha, hmem⟩ := mem_recordPlaces h hu
    have hplaces : (recordPlaces job.command).Pairwise fun x y => compare x.2 y.2 ≠ .eq :=
      List.pairwise_map.1 (List.pairwise_append.1 (((perm_written h).symm.pairwise hd)
        fun hxy hyx => hxy (Std.OrientedCmp.eq_symm hyx))).2.1
    obtain ⟨text, htext⟩ := exists_record_of_mem hplaces (writeProducts t.files job.command) hmem
    refine ⟨a, text, ha, ?_⟩
    rw [(run_of_empty hs job.command).2.1, succeed_eq]
    exact htext

/-- **What a job delivered stays** while another one writes elsewhere. -/
theorem Delivers.run (h : t.Delivers job) (hs : t.script = .empty) (hjob : job.Spelled)
    (hother : other.Spelled)
    (hd : ∀ a ∈ other.outputs, ∀ b ∈ job.outputs, compare a.path b.path ≠ .eq) :
    (SimulatedTools.run t other.command).world.Delivers job where
  outputs a ha := (grown_run hs hother).stays a.path (h.outputs a ha)
  records u hu := by
    obtain ⟨a, text, ha, hget⟩ := h.records u hu
    obtain ⟨a', ha', hmem⟩ := mem_recordPlaces hjob hu
    obtain rfl := Option.some.inj (ha.symm.trans ha')
    obtain ⟨b, hb, hba⟩ := List.mem_map.1 ((perm_written hjob).mem_iff.1
      (List.mem_append_right _ (List.mem_map.2 ⟨_, hmem, rfl⟩)))
    refine ⟨a, text, ha, (grown_run hs hother).kept a.path _ (fun p hp => ?_) hget⟩
    obtain ⟨c, hc, rfl⟩ := List.mem_map.1 hp
    have := hd c hc b hb
    rw [hba] at this
    exact this

end Job

end SimulatedTools

end IncrementalBuild
