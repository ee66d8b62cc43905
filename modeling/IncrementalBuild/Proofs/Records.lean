import IncrementalBuild.Proofs.Delivery
import IncrementalBuild.Proofs.Forecast

/-!
# What simulated tools report

The record of an input is made from the input's text, or it is what the script has for the input.
Where no job writes to an input or to a product of another job, the text is the same whenever the
input is compiled, and the record is the same when it is read as when it was written. So all
records of a build can be told from the world in which its jobs begin to run.

That a record may be left unwritten is no exception. What is read then was there at the beginning,
since nothing else writes to its place.
-/

namespace IncrementalBuild

open Command

namespace MemoryFiles

variable {fs fs' : MemoryFiles} {p : Path}

/-- **Adding a file changes the content of no other.** The directories that are added above it
have none. -/
theorem contents_addFile_eq_ite (fs : MemoryFiles) (p q : Path) (content : ByteArray) :
    (fs.addFile p content).contents q
      = if compare p q = .eq then some content else fs.contents q := by
  unfold contents
  rw [get?_addFile]
  by_cases he : compare p q = .eq
  · rw [if_pos he, if_pos he]
  · rw [if_neg he, if_neg he]
    cases fs.entries.get? q with
    | some entry => rfl
    | none =>
      rw [Option.none_or]
      by_cases habove : q.IsAbove p
      · rw [if_pos habove]
      · rw [if_neg habove]

/-- A text is read from the content of a file. -/
theorem toOption_readText (fs : MemoryFiles) (p : Path) :
    (FileSystem.readText fs p).toOption
      = (fs.contents p).bind fun content => (Text.Utf8.decode content).toOption := by
  simp only [FileSystem.readText, bytes, contents]
  cases fs.entries.get? p with
  | none => rfl
  | some entry =>
    cases entry with
    | directory => rfl
    | file content =>
      dsimp only
      rw [Option.bind_some]
      cases Text.Utf8.decode content <;> rfl

end MemoryFiles

/-- The dependency record that a content describes. -/
def DependencyRecord.ofContent? (content : ByteArray) : Option DependencyRecord :=
  (Text.Utf8.decode content).toOption.bind fun text => (DependencyRecord.parse text).toOption

namespace SimulatedTools

/-- A record is read from the content of a file. -/
theorem recordOf?_eq (t : SimulatedTools) (u : CompileUnit) :
    Tracker.recordOf? t u
      = u.record.bind fun a => (t.files.contents a.path).bind DependencyRecord.ofContent? := by
  unfold Tracker.recordOf?
  refine congrArg u.record.bind (funext fun a => ?_)
  have hfile : (DependencyRecord.ofFile t a.path).toOption
      = (FileSystem.readText t.files a.path).toOption.bind fun text =>
        (DependencyRecord.parse text).toOption := by
    have hread : FileSystem.readText t a.path = FileSystem.readText t.files a.path := rfl
    unfold DependencyRecord.ofFile
    rw [hread]
    cases FileSystem.readText t.files a.path with
    | error e => rfl
    | ok text =>
      dsimp only
      cases h : DependencyRecord.parse text <;> simp [Except.mapError, Except.toOption, h]
  rw [hfile, MemoryFiles.toOption_readText, Option.bind_assoc]
  rfl

/-! ## One record -/

section Record

variable {script : ToolScript} {fs fs' : MemoryFiles} {place : Path × Path} {q : Path}

/-- The text of the record that is written for an input. -/
def recordText (script : ToolScript) (fs : MemoryFiles) (primary : Path) : String :=
  if script.garbled.contains primary then "\x7b not json"
  else (recordOf primary ((FileSystem.readText fs primary).toOption.getD "")).print

theorem recordText_congr {primary : Path} (h : fs.contents primary = fs'.contents primary) :
    recordText script fs primary = recordText script fs' primary := by
  unfold recordText
  rw [MemoryFiles.toOption_readText, MemoryFiles.toOption_readText, h]

theorem writeRecord_eq (script : ToolScript) (fs : MemoryFiles) (place : Path × Path) :
    writeRecord script fs place = if script.skipped.contains place.1 then fs
      else fs.addFile place.2 (recordText script fs place.1).toUTF8 := by
  unfold writeRecord recordText
  dsimp only
  cases FileSystem.readText fs place.1 <;> rfl

theorem contents_writeRecord (script : ToolScript) (fs : MemoryFiles) (place : Path × Path)
    (q : Path) :
    (writeRecord script fs place).contents q
      = if script.skipped.contains place.1 = false ∧ compare place.2 q = .eq then
          some (recordText script fs place.1).toUTF8
        else fs.contents q := by
  rw [writeRecord_eq]
  cases script.skipped.contains place.1 with
  | true => simp
  | false => simp [MemoryFiles.contents_addFile_eq_ite]

theorem contents_replaceRecord (script : ToolScript) (fs : MemoryFiles) (place : Path × Path)
    (q : Path) :
    (replaceRecord script fs place).contents q
      = if compare place.2 q = .eq then (script.records.get? place.1).or (fs.contents q)
        else fs.contents q := by
  unfold replaceRecord
  cases script.records.get? place.1 with
  | none => simp
  | some content => simp [MemoryFiles.contents_addFile_eq_ite]

/-- **What stands in the place of a record** once the input was compiled by itself. -/
def reportIn (script : ToolScript) (fs : MemoryFiles) (place : Path × Path) : Option ByteArray :=
  (replaceRecord script (writeRecord script fs place) place).contents place.2

theorem reportIn_eq (script : ToolScript) (fs : MemoryFiles) (place : Path × Path) :
    reportIn script fs place = (script.records.get? place.1).or
      (if script.skipped.contains place.1 then fs.contents place.2
        else some (recordText script fs place.1).toUTF8) := by
  unfold reportIn
  rw [contents_replaceRecord, if_pos Std.ReflOrd.compare_self, contents_writeRecord]
  cases script.skipped.contains place.1 <;> simp

/-- **A report is the same at any time**, as long as the input is what it was, and so is its
record or it has been written already. -/
theorem reportIn_congr (place : Path × Path) (hsource : fs'.contents place.1 = fs.contents place.1)
    (hrecord : fs'.contents place.2 = fs.contents place.2 ∨
      fs'.contents place.2 = reportIn script fs place) :
    reportIn script fs' place = reportIn script fs place := by
  rw [reportIn_eq] at hrecord
  rw [reportIn_eq, reportIn_eq, recordText_congr hsource]
  cases hscripted : script.records.get? place.1 with
  | some content => rfl
  | none =>
    cases hskipped : script.skipped.contains place.1 with
    | false => rfl
    | true =>
      rw [hscripted, hskipped, if_pos rfl, Option.none_or] at hrecord
      exact hrecord.elim id id

/-! ## The records of a command -/

variable {step : MemoryFiles → Path × Path → MemoryFiles} {places : List (Path × Path)}

/-- What a step at each of some places does not touch stays. -/
theorem contents_foldl_of_not
    (hother : ∀ fs place q, compare place.2 q ≠ .eq → (step fs place).contents q = fs.contents q)
    (h : ∀ place ∈ places, compare place.2 q ≠ .eq) (fs : MemoryFiles) :
    (places.foldl step fs).contents q = fs.contents q := by
  induction places generalizing fs with
  | nil => rfl
  | cons first rest ih =>
    rw [List.foldl_cons, ih fun place hp => h place (List.mem_cons_of_mem first hp)]
    exact hother fs first q (h first List.mem_cons_self)

/-- **What a step at each of some places leaves at one of them** is what it leaves there by
itself, if it depends on nothing that is written. -/
theorem contents_foldl_of_mem
    (hother : ∀ fs place q, compare place.2 q ≠ .eq → (step fs place).contents q = fs.contents q)
    (hown : ∀ fs fs' place, fs.contents place.1 = fs'.contents place.1 →
      fs.contents place.2 = fs'.contents place.2 →
      (step fs place).contents place.2 = (step fs' place).contents place.2)
    (hd : places.Pairwise fun a b => compare a.2 b.2 ≠ .eq)
    (hsources : ∀ a ∈ places, ∀ b ∈ places, compare a.2 b.1 ≠ .eq) (fs : MemoryFiles)
    (hplace : place ∈ places) :
    (places.foldl step fs).contents place.2 = (step fs place).contents place.2 := by
  induction places generalizing fs with
  | nil => exact absurd hplace List.not_mem_nil
  | cons first rest ih =>
    obtain ⟨hfirst, hrest⟩ := List.pairwise_cons.1 hd
    rw [List.foldl_cons]
    rcases List.mem_cons.1 hplace with rfl | hmem
    · exact contents_foldl_of_not hother
        (fun b hb he => hfirst b hb (Std.OrientedCmp.eq_symm he)) _
    · rw [ih hrest (fun a ha b hb => hsources a (List.mem_cons_of_mem first ha) b
        (List.mem_cons_of_mem first hb)) _ hmem]
      exact hown _ _ _ (hother fs first _ (hsources first List.mem_cons_self place hplace))
        (hother fs first _ (hfirst place hmem))

theorem contents_writeProducts {c : Command}
    (h : ∀ p ∈ (c.valuesOf outputFlag).map Path.mk, compare p q ≠ .eq) (fs : MemoryFiles) :
    (writeProducts fs c).contents q = fs.contents q := by
  unfold writeProducts
  generalize c.valuesOf outputFlag = values at h
  induction values generalizing fs with
  | nil => rfl
  | cons value rest ih =>
    rw [List.map_cons, List.forall_mem_cons] at h
    rw [List.foldl_cons, ih _ h.2, MemoryFiles.contents_addFile_eq_ite, if_neg h.1]

/-- The paths that a command writes to. -/
def written (c : Command) : List Path :=
  (c.valuesOf outputFlag).map Path.mk ++ (recordPlaces c).map (·.2)

/-- **A command changes nothing but what it writes.** -/
theorem contents_succeed_of_not {c : Command} (h : ∀ p ∈ written c, compare p q ≠ .eq)
    (fs : MemoryFiles) : (succeed script fs c).contents q = fs.contents q := by
  have hplaces : ∀ place ∈ recordPlaces c, compare place.2 q ≠ .eq := fun place hp =>
    h _ (List.mem_append_right _ (List.mem_map.2 ⟨place, hp, rfl⟩))
  show (List.foldl (replaceRecord script) (List.foldl (writeRecord script) _ _) _).contents q = _
  rw [contents_foldl_of_not
      (fun fs place q hq => by rw [contents_replaceRecord, if_neg hq]) hplaces,
    contents_foldl_of_not
      (fun fs place q hq => by rw [contents_writeRecord, if_neg fun h => hq h.2]) hplaces,
    contents_writeProducts fun p hp => h p (List.mem_append_left _ hp)]

/-- **A command leaves each record as if the input were compiled by itself**, if it writes to
different paths and to no input. -/
theorem contents_succeed_of_mem {c : Command}
    (hd : (written c).Pairwise fun p q => compare p q ≠ .eq)
    (hsources : ∀ p ∈ written c, ∀ place ∈ recordPlaces c, compare p place.1 ≠ .eq)
    (fs : MemoryFiles) (hplace : place ∈ recordPlaces c) :
    (succeed script fs c).contents place.2 = reportIn script fs place := by
  obtain ⟨-, hrecords, hproducts⟩ := List.pairwise_append.1 hd
  have hdistinct := List.pairwise_map.1 hrecords
  have hmem {a : Path × Path} (ha : a ∈ recordPlaces c) : a.2 ∈ (recordPlaces c).map (·.2) :=
    List.mem_map.2 ⟨a, ha, rfl⟩
  have hsep : ∀ a ∈ recordPlaces c, ∀ b ∈ recordPlaces c, compare a.2 b.1 ≠ .eq := fun a ha =>
    hsources a.2 (List.mem_append_right _ (hmem ha))
  have hwriteOther : ∀ (fs : MemoryFiles) (place : Path × Path) (q : Path),
      compare place.2 q ≠ .eq → (writeRecord script fs place).contents q = fs.contents q :=
    fun fs place q hq => by rw [contents_writeRecord, if_neg fun h => hq h.2]
  have hwriteOwn : ∀ (fs fs' : MemoryFiles) (place : Path × Path),
      fs.contents place.1 = fs'.contents place.1 → fs.contents place.2 = fs'.contents place.2 →
      (writeRecord script fs place).contents place.2
        = (writeRecord script fs' place).contents place.2 := fun fs fs' place h h' => by
    rw [contents_writeRecord, contents_writeRecord, recordText_congr h, h']
  have hproductsOf {q : Path} (h : ∀ p ∈ (c.valuesOf outputFlag).map Path.mk,
      compare p q ≠ .eq) := contents_writeProducts h fs
  have hwritten : ((recordPlaces c).foldl (writeRecord script) (writeProducts fs c)).contents
      place.2 = (writeRecord script fs place).contents place.2 := by
    rw [contents_foldl_of_mem hwriteOther hwriteOwn hdistinct hsep _ hplace]
    refine hwriteOwn _ _ place (hproductsOf fun p hp => ?_) (hproductsOf fun p hp => ?_)
    · exact hsources p (List.mem_append_left _ hp) place hplace
    · exact hproducts p hp _ (hmem hplace)
  show (List.foldl (replaceRecord script) (List.foldl (writeRecord script) _ _) _).contents _ = _
  rw [contents_foldl_of_mem (fun fs place q hq => by rw [contents_replaceRecord, if_neg hq])
    (fun fs fs' place _ h => by rw [contents_replaceRecord, contents_replaceRecord, h])
    hdistinct hsep _ hplace, contents_replaceRecord, if_pos Std.ReflOrd.compare_self, hwritten]
  unfold reportIn
  rw [contents_replaceRecord, if_pos Std.ReflOrd.compare_self]

end Record

/-! ## The records of a job -/

section Job

variable {t : SimulatedTools} {job : Job} {u : CompileUnit} {a : Artifact}

/-- **Running a command** leaves the files alone, unless it ends well. -/
theorem run_cases (t : SimulatedTools) (c : Command) : (run t c).world.script = t.script ∧
    ((run t c).world.files = succeed t.script t.files c ∨
      (run t c).world.files = t.files ∧
        ∀ output, (run t c).result = .ok output → output.exitCode ≠ 0) := by
  unfold run
  dsimp only
  split
  · exact ⟨rfl, .inr ⟨rfl, fun output h => by cases h⟩⟩
  · refine ⟨rfl, ?_⟩
    dsimp only
    split
    · exact .inl rfl
    · rename_i hcode
      refine .inr ⟨rfl, fun output h => ?_⟩
      rw [← Except.ok.inj h]
      exact hcode

theorem mem_written (h : job.Spelled) {p : Path} :
    p ∈ written job.command ↔ ∃ a ∈ job.outputs, a.path = p := by
  unfold written
  rw [(perm_written h).mem_iff, List.mem_map]

/-- The inputs of which a command writes records are those that the job compiles. -/
theorem exists_unit_of_mem_recordPlaces (h : job.Spelled) {place : Path × Path}
    (hplace : place ∈ recordPlaces job.command) : ∃ u ∈ job.units, u.primary = place.1 := by
  obtain ⟨⟨primary, record⟩, hzip, rfl⟩ := List.mem_map.1 hplace
  have hprimary := (List.of_mem_zip hzip).1
  rw [h.primaries] at hprimary
  obtain ⟨u, hu, rfl⟩ := List.mem_map.1 hprimary
  exact ⟨u, hu, rfl⟩

/-- The place of a record, and that the job writes to it. -/
theorem mem_recordPlaces_of_record (h : job.Spelled) (hu : u ∈ job.units)
    (ha : u.record = some a) : (u.primary, a.path) ∈ recordPlaces job.command ∧
      ∃ b ∈ job.outputs, b.path = a.path := by
  obtain ⟨a', ha', hmem⟩ := mem_recordPlaces h hu
  obtain rfl := Option.some.inj (ha.symm.trans ha')
  exact ⟨hmem, (mem_written h).1 (List.mem_append_right _ (List.mem_map.2 ⟨_, hmem, rfl⟩))⟩

/-- **A job changes nothing but its products.** -/
theorem contents_run_of_not (h : job.Spelled) {q : Path}
    (hq : ∀ a ∈ job.outputs, compare a.path q ≠ .eq) :
    (run t job.command).world.files.contents q = t.files.contents q := by
  rcases (run_cases t job.command).2 with hfiles | ⟨hfiles, -⟩
  · rw [hfiles]
    refine contents_succeed_of_not (fun p hp => ?_) t.files
    obtain ⟨a, ha, rfl⟩ := (mem_written h).1 hp
    exact hq a ha
  · rw [hfiles]

/-- **A job leaves each record as if the input were compiled by itself**, or as it was. It does
the former if it ends well. -/
theorem contents_run_of_record (h : job.Spelled)
    (hd : (job.outputs.map (·.path)).Pairwise fun p q => compare p q ≠ .eq)
    (hsources : ∀ a ∈ job.outputs, ∀ u ∈ job.units, compare a.path u.primary ≠ .eq)
    (hu : u ∈ job.units) (ha : u.record = some a) :
    (run t job.command).world.files.contents a.path
        = reportIn t.script t.files (u.primary, a.path) ∨
      (run t job.command).world.files.contents a.path = t.files.contents a.path ∧
        (Execution.outcomeOf job (run t job.command).result).1 ≠ .succeeded := by
  rcases (run_cases t job.command).2 with hfiles | ⟨hfiles, hcode⟩
  · have hdistinct : (written job.command).Pairwise fun p q => compare p q ≠ .eq :=
      ((perm_written h).symm.pairwise hd) fun hxy hyx => hxy (Std.OrientedCmp.eq_symm hyx)
    have hspares : ∀ p ∈ written job.command, ∀ place ∈ recordPlaces job.command,
        compare p place.1 ≠ .eq := by
      intro p hp place hplace
      obtain ⟨b, hb, rfl⟩ := (mem_written h).1 hp
      obtain ⟨v, hv, he⟩ := exists_unit_of_mem_recordPlaces h hplace
      exact he ▸ hsources b hb v hv
    have hrecord := @contents_succeed_of_mem t.script (u.primary, a.path) job.command hdistinct
      hspares t.files (mem_recordPlaces_of_record h hu ha).1
    exact .inl ((congrArg (MemoryFiles.contents · a.path) hfiles).trans hrecord)
  · refine .inr ⟨congrArg (MemoryFiles.contents · a.path) hfiles, fun hsucceeded => ?_⟩
    obtain ⟨output, hresult, hzero⟩ := Execution.outcomeOf_eq_succeeded_iff.1 hsucceeded
    exact hcode output hresult hzero

end Job

end SimulatedTools

/-! ## Along an execution -/

/-- **Whether a plan leaves its inputs alone**: no product is written in the place of one. -/
def BuildPlan.SparesSources (plan : BuildPlan) : Prop :=
  ∀ job ∈ plan.graph.jobs, ∀ a ∈ job.outputs, ∀ u ∈ plan.units, compare a.path u.primary ≠ .eq

instance (plan : BuildPlan) : Decidable plan.SparesSources :=
  inferInstanceAs (Decidable (∀ job ∈ plan.graph.jobs, ∀ a ∈ job.outputs, ∀ u ∈ plan.units, _))

namespace SimulatedTools

/-- Whether the records of a job are there that can be told from a world. -/
def Foretells (world t : SimulatedTools) (job : Job) : Prop :=
  ∀ u ∈ job.units, ∀ a, u.record = some a →
    t.files.contents a.path = reportIn world.script world.files (u.primary, a.path)

/-- **What can be told from a world**, and from what is declared. -/
def forecast (world : SimulatedTools) (g : DependencyGraph) : Forecast where
  graph := g
  record u := u.record.bind fun a =>
    (reportIn world.script world.files (u.primary, a.path)).bind DependencyRecord.ofContent?

/-- **What is true of the files wherever an execution stands.** -/
structure Foretold {σ : Type} (plan : BuildPlan) (world : SimulatedTools)
    (told : List (Told SimulatedTools)) (e : Execution SimulatedTools σ) : Prop where
  script : e.world.script = world.script
  sources : ∀ u ∈ plan.units, e.world.files.contents u.primary = world.files.contents u.primary
  records : ∀ u ∈ plan.units, ∀ a, u.record = some a →
    e.world.files.contents a.path = world.files.contents a.path ∨
      e.world.files.contents a.path = reportIn world.script world.files (u.primary, a.path)
  /-- What has happened and is not told. -/
  pending : ∀ job ∈ plan.graph.jobs, .jobFinished job.id .succeeded ∈ e.events →
    world.Foretells e.world job
  told : ∀ x ∈ told, ∀ job ∈ plan.graph.jobs, x.event = .jobFinished job.id .succeeded →
    world.Foretells x.world job

section Course

variable {σ : Type} {observe : WorldObserver SimulatedTools σ} {plan : BuildPlan}
  {policy : FailurePolicy} {concurrency : Nat} {world : SimulatedTools} {observed : σ}
  {told : List (Told SimulatedTools)} {e : Execution SimulatedTools σ}

/-- **Running a job keeps what was told beforehand.** -/
theorem Foretold.settle (hg : plan.graph.WellFormed)
    (hspelled : ∀ job ∈ plan.graph.jobs, job.Spelled) (hd : plan.DistinctOutputs)
    (hsources : plan.SparesSources)
    (h : Foretold plan world told e) {job : Job} (hjob : job ∈ plan.graph.jobs)
    (started : List JobId) :
    Foretold plan world told (({ e with started } : Execution SimulatedTools σ).settle job
      (ProcessWorld.run e.world job.command)) := by
  have hafter : (run e.world job.command).world.script = world.script :=
    (run_cases e.world job.command).1.trans h.script
  have hunits {u : CompileUnit} (hu : u ∈ job.units) : u ∈ plan.units :=
    List.mem_flatMap.2 ⟨job, hjob, hu⟩
  -- A record of the job itself is as told, or the job has failed and left it alone.
  have hown {u : CompileUnit} (hu : u ∈ job.units) {a : Artifact} (ha : u.record = some a) :
      (run e.world job.command).world.files.contents a.path
          = reportIn world.script world.files (u.primary, a.path) ∨
        (run e.world job.command).world.files.contents a.path = e.world.files.contents a.path ∧
          (Execution.outcomeOf job (run e.world job.command).result).1 ≠ .succeeded := by
    have hcases := contents_run_of_record (t := e.world) (hspelled job hjob) (hd.of_job hjob)
      (fun a ha u hu => hsources job hjob a ha u (hunits hu)) hu ha
    rwa [h.script, reportIn_congr (u.primary, a.path) (h.sources u (hunits hu))
      (h.records u (hunits hu) a ha)] at hcases
  -- A record of any other job is left alone.
  have hrest {other : Job} (hother : other ∈ plan.graph.jobs) (hne : job ≠ other)
      {u : CompileUnit} (hu : u ∈ other.units) {a : Artifact} (ha : u.record = some a) :
      (run e.world job.command).world.files.contents a.path = e.world.files.contents a.path := by
    obtain ⟨-, b, hb, hba⟩ := mem_recordPlaces_of_record (hspelled other hother) hu ha
    exact hba ▸ contents_run_of_not (hspelled job hjob) fun c hc =>
      hd.of_ne hother hjob hne hc hb
  refine ⟨hafter, fun u hu => ?_, fun u hu a ha => ?_, fun other hother hevent u hu a ha => ?_,
    h.told⟩
  · exact (contents_run_of_not (hspelled job hjob) fun a ha => hsources job hjob a ha u hu).trans
      (h.sources u hu)
  · obtain ⟨other, hother, hu'⟩ := List.mem_flatMap.1 hu
    by_cases hne : job = other
    · subst hne
      rcases hown hu' ha with he | ⟨he, -⟩
      · exact .inr he
      · exact (h.records u hu a ha).imp he.trans he.trans
    · have he := hrest hother hne hu' ha
      exact (h.records u hu a ha).imp he.trans he.trans
  · by_cases hne : job = other
    · subst hne
      rcases hown hu ha with he | ⟨he, hfailed⟩
      · exact he
      rcases Execution.jobFinished_mem_settle.1 hevent with hevent | ⟨-, houtcome⟩
      · exact he.trans (h.pending job hother hevent u hu a ha)
      · exact absurd houtcome.symm hfailed
    · refine (hrest hother hne hu ha).trans (h.pending other hother ?_ u hu a ha)
      refine (Execution.jobFinished_mem_settle.1 hevent).resolve_right fun hnew => hne ?_
      exact hg.eq_of_id_eq hjob hother hnew.1.symm

/-- **Wherever an execution stands, the records are those that were told beforehand.** -/
theorem foretold_of_course (hg : plan.graph.WellFormed)
    (hspelled : ∀ job ∈ plan.graph.jobs, job.Spelled) (hd : plan.DistinctOutputs)
    (hsources : plan.SparesSources)
    (h : Course (.ofProcesses SimulatedTools) observe
      (.start plan policy concurrency world observed) told e) : Foretold plan world told e := by
  induction h with
  | start =>
    exact ⟨rfl, fun _ _ => rfl, fun _ _ _ _ => .inl rfl,
      fun job _ he => absurd he List.not_mem_nil, fun x hx => absurd hx List.not_mem_nil⟩
  | @settle told e id job run hcourse hid hjob hrun ih =>
    obtain rfl := hrun
    rw [(hcourse.sound hg).plan_eq] at hjob
    exact ih.settle hg hspelled hd hsources (hg.job?_eq_some_iff.1 hjob).1 _
  | cancel _ ih =>
    refine ⟨ih.script, ih.sources, ih.records, fun job hjob he => ih.pending job hjob ?_, ih.told⟩
    refine (List.mem_append.1 he).resolve_right fun hnew => ?_
    cases List.mem_singleton.1 hnew
  | drift _ hdrift _ => exact hdrift.elim
  | @handle told e event _ _ hevent ih =>
    refine ⟨ih.script, ih.sources, ih.records,
      fun job hjob he => ih.pending job hjob (List.mem_of_mem_erase he), fun x hx job hjob he => ?_⟩
    rcases List.mem_append.1 hx with hx | hx
    · exact ih.told x hx job hjob he
    · obtain rfl := List.mem_singleton.1 hx
      have he : event = .jobFinished job.id .succeeded := he
      exact ih.pending job hjob (he ▸ hevent)

/-- **The records that are read along an execution can be told beforehand.** -/
theorem fulfilled_of_course (hg : plan.graph.WellFormed)
    (hspelled : ∀ job ∈ plan.graph.jobs, job.Spelled) (hd : plan.DistinctOutputs)
    (hsources : plan.SparesSources)
    (h : Course (.ofProcesses SimulatedTools) observe
      (.start plan policy concurrency world observed) told e) (g : DependencyGraph) :
    (world.forecast g).Fulfilled plan told := by
  intro x hx job hjob he u hu
  rw [recordOf?_eq]
  show _ = u.record.bind _
  cases hrecord : u.record with
  | none => rfl
  | some a =>
    have hforetold := foretold_of_course hg hspelled hd hsources h
    rw [Option.bind_some, Option.bind_some, hforetold.told x hx job hjob he u hu a hrecord]

end Course

end SimulatedTools

end IncrementalBuild
