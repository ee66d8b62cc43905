import IncrementalBuild.Program
import IncrementalBuild.Proofs.Plan.BatchKeys
import IncrementalBuild.Proofs.Plan.Outcome
import Mathlib.Data.List.TakeWhile

/-!
# Requests from request files are faultless

What is to be built is looked at twice. A request file is checked when it is read, and the
request made of it is checked again before it is planned. The two checks ask about the same
things in different words: the one wants a name of letters, digits and a few signs, the other
one that is not blank; the one wants files or patterns, the other inputs of which none is
listed twice. Between the two the inputs are searched for, and what was chosen on a command
line takes the place of what the file says.

No file that passes the first check is stopped by the second. A character of a name is not a
blank, so nothing is trimmed off the name; the inputs come out of a set of paths, so none is
there twice, however often it was named or found; and zero jobs at once are taken for one.
What may still go wrong on the way to a plan is said of something else than the request, even
where a scanner answers for the modules or batches get in each other's way.
-/

namespace IncrementalBuild

/-! ## Blanks -/

namespace Text

/-- A text that is trimmed away consists of blanks. -/
theorem isBlank_of_trim_eq_empty {s : String} (h : trim s = "") :
    ∀ c ∈ s.toList, isBlank c = true := by
  have hend : trimEndChars (s.toList.dropWhile isBlank) = [] := by
    have := congrArg String.toList h
    simpa [trim, trimChars] using this
  have hrest : ∀ c ∈ s.toList.dropWhile isBlank, isBlank c = true := fun c hc =>
    List.dropWhile_eq_nil_iff.1 (List.reverse_eq_nil_iff.1 hend) c (List.mem_reverse.2 hc)
  intro c hc
  rw [← List.takeWhile_append_dropWhile (p := isBlank) (l := s.toList), List.mem_append] at hc
  exact hc.elim List.mem_takeWhile_imp (hrest c)

end Text

namespace RequestFile

/-- **No character of a name is a blank.** -/
theorem isBlank_of_isNameChar {c : Char} (h : isNameChar c = true) : Text.isBlank c = false := by
  have hupper (h : c.isUpper = true) : 'A'.toNat ≤ c.toNat ∧ c.toNat ≤ 'Z'.toNat :=
    of_decide_eq_true h
  have hlower (h : c.isLower = true) : 'a'.toNat ≤ c.toNat ∧ c.toNat ≤ 'z'.toNat :=
    (Bool.and_eq_true_iff.1 h).imp of_decide_eq_true of_decide_eq_true
  have hsigns : (((c.isUpper || c.isLower) || c.isDigit) || c == '_' || c == '-') = true := h
  -- All characters of names lie between the sign `-` and the letter `z`.
  have hrange : '-'.toNat ≤ c.toNat ∧ c.toNat ≤ 'z'.toNat := by
    simp only [Bool.or_eq_true, beq_iff_eq] at hsigns
    rcases hsigns with (((h | h) | h) | rfl) | rfl
    · exact ⟨Nat.le_trans (by decide) (hupper h).1, Nat.le_trans (hupper h).2 (by decide)⟩
    · exact ⟨Nat.le_trans (by decide) (hlower h).1, (hlower h).2⟩
    · have hdigit := Char.isDigit_iff_toNat.1 h
      exact ⟨Nat.le_trans (by decide) hdigit.1, Nat.le_trans hdigit.2 (by decide)⟩
    · decide
    · decide
  obtain ⟨hlow, hhigh⟩ : 0x2D ≤ c.toNat ∧ c.toNat ≤ 0x7A := hrange
  simp only [Text.isBlank, Bool.or_eq_false_iff, Bool.and_eq_false_iff, decide_eq_false_iff_not,
    beq_eq_false_iff_ne]
  omega

/-- A name is not trimmed away. -/
theorem trim_ne_empty {name : String} (hne : name ≠ "")
    (h : ∀ c ∈ name.toList, isNameChar c = true) : Text.trim name ≠ "" := by
  intro htrim
  obtain ⟨c, hc⟩ := List.exists_mem_of_ne_nil name.toList fun he => hne (String.toList_inj.1 he)
  have hblank := Text.isBlank_of_trim_eq_empty htrim c hc
  rw [isBlank_of_isNameChar (h c hc)] at hblank
  exact Bool.false_ne_true hblank

end RequestFile

/-! ## What the planner finds wrong -/

namespace BuildRequest

/-- **A request with nothing wrong in itself.** -/
structure Faultless (r : BuildRequest) : Prop where
  name : Text.trim r.moduleName ≠ ""
  inputs : r.inputs ≠ []
  outputs : r.outputs.isEmpty = false
  concurrency : r.concurrency ≠ 0
  distinct : r.sourcePaths.Pairwise fun p q => compare p q ≠ .eq
  /-- Where imported modules are built, there is a tool that finds them. -/
  scanner : r.explicitModules = true → r.tools.scanner.isSome = true

variable {r : BuildRequest} {modules : Option ModuleGraph}

/-- Such a request has no fault, given the modules that it needs. -/
theorem Faultless.not_hasFault (h : r.Faultless)
    (hmodules : r.explicitModules = true → modules ≠ none) (fault : RequestFault) :
    ¬ r.HasFault modules fault := by
  intro hfault
  cases fault with
  | emptyModuleName => exact h.name hfault
  | noInputs => exact h.inputs hfault
  | noOutputs => exact Bool.false_ne_true (h.outputs.symm.trans hfault)
  | noConcurrency => exact h.concurrency hfault
  | repeatedInput path =>
    obtain ⟨before, p, after, hpaths, -, q, hq, hqp⟩ := hfault
    have hdistinct := h.distinct
    rw [hpaths, List.pairwise_append] at hdistinct
    exact hdistinct.2.2 q hq p List.mem_cons_self hqp
  | noModuleGraph => exact hmodules hfault.1 hfault.2
  | noScanner => exact hfault
  | misplacedJob key id position => exact hfault

end BuildRequest

/-- The start of a build is denied for a circle of declarations only. -/
theorem DirtyInputs.exists_key_of_compute {prior : StateLoad} {inputs : List InputFile}
    {e : PlanningError} (h : compute prior inputs = .error e) :
    ∃ key, e = .dependencyCycle key := by
  cases prior with
  | missing => cases h
  | corrupt fault => cases h
  | loaded state =>
    obtain ⟨key, -, he⟩ := ofState_eq_error_iff.1 h
    exact ⟨key, he⟩

/-- The scanner that asks a tool. Whatever goes wrong with the tool is a failed scan. -/
def Scanner.ofTool {ω : Type} (ask : ω → List Path → Except ScanFailure ModuleGraph × ω) :
    Scanner ω := fun world inputs =>
  let (answer, world) := ask world inputs
  (answer.mapError .scanFailed, world)

/-- What a tool on a disk answers. -/
def Disk.askTool (tool : String) (d : Disk) (inputs : List Path) :
    Except ScanFailure ModuleGraph × Disk :=
  match d.runTool tool (inputs.map (·.text)) with
  | .error message => (.error (.spawn tool message), d)
  | .ok e => (readScan tool e, e.disk)

/-- The scanner of a disk is one that asks a tool. -/
theorem Disk.toolScanner_eq (tool : String) : toolScanner tool = .ofTool (askTool tool) := by
  funext d inputs
  unfold toolScanner Scanner.ofTool askTool
  cases d.runTool tool (inputs.map (·.text)) <;> rfl

namespace BuildRequest

variable {ω : Type} [FileSystem ω] {r : BuildRequest} {world : ω} {fault : RequestFault}

/-- **Planning a build from its start calls a request malformed only for a fault it has.** The
start itself and the batches are no reason. -/
theorem hasFault_of_planFrom {start : DirtyInputs} {modules : Option ModuleGraph}
    (h : r.planFrom world start modules = .error (.malformedRequest fault)) :
    r.HasFault modules fault := by
  cases hg : r.plan modules with
  | error e =>
    rw [planFrom_eq_error hg] at h
    obtain rfl := Except.error.inj h
    exact refused_of_plan hg
  | ok g =>
    obtain ⟨-, order, -, hholds⟩ := holds_of_plan hg
    rw [planFrom_eq hg] at h
    rcases BuildPlan.partition_cases (p := g.prune (r.changesFor g start) world)
        hholds.wellFormed (fun job hjob first last => hholds.key_ne_batch hjob first last)
        r.batchSize with ⟨⟨plan, hplan⟩, -⟩ | ⟨run, -, other, -, -, -, hplan⟩
    · rw [hplan] at h
      cases h
    · rw [hplan] at h
      cases h

/-- **Preparing a build calls a request malformed only in two ways**: the modules are not
found for that reason, or the request has a fault, given the modules. -/
theorem cases_of_prepare {scan : Option (Scanner ω)}
    (h : (r.prepare scan world).1 = .error (.malformedRequest fault)) :
    (r.scanModules scan world).1 = .error (.malformedRequest fault) ∨
      ∃ modules, (r.scanModules scan world).1 = .ok modules ∧ r.HasFault modules fault := by
  unfold prepare at h
  split at h
  · rename_i e hstart
    obtain ⟨key, rfl⟩ := DirtyInputs.exists_key_of_compute hstart
    cases h
  split at h
  · rename_i e world' hscan
    rw [hscan]
    exact .inl (congrArg _ (Except.error.inj h))
  · rename_i start _ modules world' hscan
    rw [hscan]
    exact .inr ⟨modules, rfl, hasFault_of_planFrom h⟩

omit [FileSystem ω] in
/-- What asking a tool for modules comes to, if there is a tool wherever there is need. -/
theorem scanModules_cases {tool : String → ω → List Path → Except ScanFailure ModuleGraph × ω}
    (hscanner : r.explicitModules = true → r.tools.scanner.isSome = true) :
    (∃ failure, (r.scanModules (r.tools.scanner.map fun name => .ofTool (tool name)) world).1
        = .error (.scanFailed failure)) ∨
      ∃ modules, (r.scanModules (r.tools.scanner.map fun name => .ofTool (tool name)) world).1
        = .ok modules ∧ (r.explicitModules = true → modules ≠ none) := by
  by_cases he : r.explicitModules = true
  · obtain ⟨name, hname⟩ := Option.isSome_iff_exists.1 (hscanner he)
    unfold scanModules
    rw [if_pos he, hname, Option.map_some]
    dsimp only [Scanner.ofTool]
    cases (tool name world r.sourcePaths).1 with
    | error failure => exact .inl ⟨failure, rfl⟩
    | ok found => exact .inr ⟨some found, rfl, fun _ => Option.some_ne_none found⟩
  · rw [scanModules_of_plain (Bool.eq_false_iff.2 he)]
    exact .inr ⟨none, rfl, fun h => absurd h he⟩

/-- **A request with nothing wrong in itself is never called malformed**, whatever a tool
answers for its modules. -/
theorem Faultless.prepare_ne (h : r.Faultless)
    (tool : String → ω → List Path → Except ScanFailure ModuleGraph × ω) (world : ω)
    (fault : RequestFault) :
    (r.prepare (r.tools.scanner.map fun name => .ofTool (tool name)) world).1
      ≠ .error (.malformedRequest fault) := by
  intro hprepare
  rcases scanModules_cases h.scanner with ⟨failure, hscan⟩ | ⟨modules, hscan, hmodules⟩ <;>
    rcases cases_of_prepare hprepare with hbad | ⟨modules', hok, hfault⟩
  · cases hscan.symm.trans hbad
  · cases hscan.symm.trans hok
  · cases hscan.symm.trans hbad
  · obtain rfl := Except.ok.inj (hscan.symm.trans hok)
    exact h.not_hasFault hmodules fault hfault

end BuildRequest

/-! ## What a request file gives -/

section Errors

variable {ε ε' α β : Type}

/-- A chain of steps succeeds if each of them does. -/
theorem exists_of_bind_eq_ok {x : Except ε α} {g : α → Except ε β} {b : β}
    (h : x >>= g = .ok b) : ∃ a, x = .ok a ∧ g a = .ok b := by
  cases x with
  | error e => cases h
  | ok a => exact ⟨a, rfl, h⟩

/-- A chain of steps gives no error that none of them gives. -/
theorem bind_ne_error {x : Except ε α} {g : α → Except ε β} {e : ε} (hx : x ≠ .error e)
    (hg : ∀ a, g a ≠ .error e) : x >>= g ≠ .error e := by
  cases x with
  | error e' => exact fun h => hx (congrArg _ (Except.error.inj h))
  | ok a => exact hg a

/-- Renaming errors does not touch successes. -/
theorem mapError_eq_ok_iff {g : ε → ε'} {x : Except ε α} {a : α} :
    x.mapError g = .ok a ↔ x = .ok a := by
  cases x with
  | error e => exact iff_of_false (fun h => by cases h) fun h => by cases h
  | ok b => exact ⟨fun h => congrArg _ (Except.ok.inj h), fun h => congrArg _ (Except.ok.inj h)⟩

/-- An error that no other one is renamed to is not given. -/
theorem mapError_ne_error {g : ε → ε'} {e' : ε'} (h : ∀ e, g e ≠ e') (x : Except ε α) :
    x.mapError g ≠ .error e' := by
  cases x with
  | error e => exact fun he => h e (Except.error.inj he)
  | ok a => exact fun he => by cases he

/-- The results of a function that can fail, from which its arguments can be told. -/
theorem map_eq_of_mapM_eq_ok {f : α → Except ε β} {g : β → α}
    (hg : ∀ a b, f a = .ok b → g b = a) {l : List α} {results : List β}
    (h : l.mapM f = .ok results) : results.map g = l := by
  induction l generalizing results with
  | nil =>
    obtain rfl := Except.ok.inj h
    rfl
  | cons a rest ih =>
    rw [List.mapM_cons] at h
    obtain ⟨b, hb, h⟩ := exists_of_bind_eq_ok h
    obtain ⟨bs, hbs, h⟩ := exists_of_bind_eq_ok h
    obtain rfl := Except.ok.inj h
    rw [List.map_cons, hg a b hb, ih hbs]

end Errors

section Files

variable {φ : Type} [FileSystem φ] {fs : φ} {root : Path}

/-- An input that was found at a path has that path. -/
theorem InputFile.path_of_ofPath {p : Path} {i : InputFile} (h : ofPath fs p = .ok i) :
    i.path = p := by
  unfold ofPath at h
  cases hprint : Fingerprint.ofFile fs p with
  | error e =>
    rw [hprint] at h
    cases h
  | ok fingerprint =>
    rw [hprint] at h
    rw [← Except.ok.inj h]

/-- **The inputs that are found ascend**, so that each is found once. -/
theorem InputSelection.ascending_of_find {s : InputSelection} {paths : List Path}
    (h : s.find fs root = .ok paths) : paths.Pairwise fun p q => compare p q = .lt := by
  obtain ⟨found, rfl⟩ : ∃ found : OrderedSet Path, paths = found.toList := by
    unfold find at h
    obtain ⟨named, -, h⟩ := exists_of_bind_eq_ok h
    dsimp only at h
    split at h
    · exact ⟨_, (Except.ok.inj h).symm⟩
    · obtain ⟨patterns, -, h⟩ := exists_of_bind_eq_ok h
      obtain ⟨chosen, -, h⟩ := exists_of_bind_eq_ok h
      exact ⟨_, (Except.ok.inj h).symm⟩
  exact found.ascending_toList

namespace RequestFile

variable {f : RequestFile}

/-- The inputs that are read are those that were found, and there are some. -/
theorem of_trackedInputs {inputs : List InputFile} (h : f.trackedInputs fs root = .ok inputs) :
    inputs ≠ [] ∧ (inputs.map (·.path)).Pairwise fun p q => compare p q = .lt := by
  unfold trackedInputs at h
  obtain ⟨paths, hfind, h⟩ := exists_of_bind_eq_ok h
  obtain ⟨read, hread, h⟩ := exists_of_bind_eq_ok h
  dsimp only at h
  split at h
  · cases h
  rename_i hsome
  obtain rfl := Except.ok.inj h
  refine ⟨fun he => hsome (List.isEmpty_iff.2 he), ?_⟩
  rw [map_eq_of_mapM_eq_ok (fun p i => InputFile.path_of_ofPath)
    (mapError_eq_ok_iff.1 hread)]
  exact InputSelection.ascending_of_find (mapError_eq_ok_iff.1 hfind)

/-- At least one job may run at once. -/
theorem concurrency?_getD_ne_zero (f : RequestFile) (o : Overrides) (processors : Nat) :
    (f.concurrency? o).getD (max 1 processors) ≠ 0 := by
  unfold concurrency?
  cases o.jobs.or f.jobs with
  | none => exact Nat.ne_of_gt (Nat.le_max_left 1 processors)
  | some jobs => exact Nat.ne_of_gt (Nat.le_max_left 1 jobs)

/-- A fault is missing where its condition does not hold. -/
theorem faultIf_eq_none_iff {condition : Bool} {fault : ConfigurationFault} :
    faultIf condition fault = none ↔ condition = false := by
  cases condition <;> simp [faultIf]

/-- **What a file without faults says**, as far as its request depends on it. -/
theorem of_fault?_eq_none (h : f.fault? = none) :
    f.moduleName ≠ "" ∧ (∀ c ∈ f.moduleName.toList, isNameChar c = true) ∧
      f.outputs.isEmpty = false ∧
      (f.explicitModules = true → f.tools.scanner.isSome = true) := by
  have hfaults : ∀ fault ∈ f.faults, fault = none := List.findSome?_eq_none_iff.1 h
  simp only [faults, List.forall_mem_cons, faultIf_eq_none_iff] at hfaults
  obtain ⟨hempty, hname, houtputs, -, -, -, -, -, -, hscanner, -⟩ := hfaults
  refine ⟨of_decide_eq_false hempty, List.all_eq_true.1 ((Bool.not_eq_false' _).mp hname), houtputs,
    fun he => ?_⟩
  rw [he, Bool.true_and] at hscanner
  rw [← Option.not_isNone, hscanner]
  rfl

/-- **The request of a file without faults has none**, whatever files there are and whatever
is chosen on a command line. -/
theorem faultless_of_resolve {o : Overrides} {processors : Nat} {r : BuildRequest}
    (hf : f.fault? = none) (hr : f.resolve fs root o processors = .ok r) : r.Faultless := by
  obtain ⟨hempty, hname, houtputs, hscanner⟩ := of_fault?_eq_none hf
  unfold resolve at hr
  obtain ⟨inputs, hinputs, hr⟩ := exists_of_bind_eq_ok hr
  obtain ⟨header, -, hr⟩ := exists_of_bind_eq_ok hr
  obtain rfl := Except.ok.inj hr
  obtain ⟨hsome, hascending⟩ := of_trackedInputs hinputs
  exact {
    name := trim_ne_empty hempty hname
    inputs := hsome
    outputs := (OrderedSet.isEmpty_ofList f.outputs).trans houtputs
    concurrency := f.concurrency?_getD_ne_zero o processors
    distinct := hascending.imp fun hlt heq => by cases hlt.symm.trans heq
    scanner := hscanner }

/-- A file that is loaded has no faults. -/
theorem fault?_of_load {path : Path} (h : RequestFile.load fs path = .ok f) :
    f.fault? = none := by
  unfold load at h
  split at h
  · cases h
  split at h
  · cases h
  split at h
  · cases h
  · rename_i hnone
    rw [← Except.ok.inj h]
    exact hnone

end RequestFile

end Files

/-! ## Both checks agree -/

/-- **What a request file was accepted for, its request is not refused for.** Whatever files
there are, whatever is chosen on a command line, whatever was left by the last build and
whatever a scanner answers: the request of a file without faults is never called malformed. -/
theorem RequestFile.prepare_resolve_ne_malformedRequest {φ ω : Type} [FileSystem φ]
    [FileSystem ω] {fs : φ} {f : RequestFile} {root : Path} {o : Overrides} {processors : Nat}
    {r : BuildRequest} (hf : f.fault? = none) (hr : f.resolve fs root o processors = .ok r)
    (tool : String → ω → List Path → Except ScanFailure ModuleGraph × ω) (world : ω)
    (fault : RequestFault) :
    (r.prepare (r.tools.scanner.map fun name => .ofTool (tool name)) world).1
      ≠ .error (.malformedRequest fault) :=
  (faultless_of_resolve hf hr).prepare_ne tool world fault

/-! Two inputs are named and found again, one of them in another spelling, and no job at all
is asked for at once. -/

namespace NamedAndFound

/-- The two source files. -/
def files : MemoryFiles :=
  (MemoryFiles.empty.addFile ⟨"/p/src/a.src"⟩ .empty).addFile ⟨"/p/src/b.src"⟩ .empty

/-- The first file is named in another spelling, and both are found again by the pattern. -/
def file : RequestFile where
  moduleName := "App-1"
  outputs := [.object, .module]
  mode := .perFile
  jobs := some 4
  batchSize := none
  failFast := false
  outputDir := "build"
  stateFile := none
  explicitModules := true
  header := none
  libraries := []
  compilerArgs := []
  inputs := ⟨["src//b.src", "src/a.src"], ["src/*.src"], []⟩
  tools := ⟨"cc", none, some "scan"⟩

/-- On the command line no job at once is asked for, which counts as one. -/
def overrides : Overrides := ⟨some 0, none, false, none, none⟩

end NamedAndFound

open NamedAndFound in
/-- The request is accepted and names both files once. Whatever the tool for modules does, preparing
the build does not report a malformed request. -/
theorem RequestFile.prepare_resolve_ne_malformedRequest_namedAndFound :
    file.fault? = none ∧ ∃ r, file.resolve files ⟨"/p"⟩ overrides 8 = .ok r ∧
      r.sourcePaths.map (·.text) = ["/p/src/a.src", "/p/src//b.src"] ∧ r.concurrency = 1 ∧
      ∀ (tool : String → MemoryFiles → List Path → Except ScanFailure ModuleGraph × MemoryFiles)
        (world : MemoryFiles) (fault : RequestFault),
        (r.prepare (r.tools.scanner.map fun name => .ofTool (tool name)) world).1
          ≠ .error (.malformedRequest fault) := by
  have hf : file.fault? = none := by
    refine Option.isNone_iff_eq_none.1 ?_
    decide +kernel
  obtain ⟨r, hr, hfound⟩ := exists_eq_ok_of_toOption
    (x := file.resolve files ⟨"/p"⟩ overrides 8)
    (f := fun r => (r.sourcePaths.map (·.text), r.concurrency))
    (b := (["/p/src/a.src", "/p/src//b.src"], 1)) (by decide +kernel)
  exact ⟨hf, r, hr, congrArg Prod.fst hfound, congrArg Prod.snd hfound,
    RequestFile.prepare_resolve_ne_malformedRequest hf hr⟩

/-! ## The program -/

section Files

variable {φ : Type} [FileSystem φ] (fs : φ)

/-- **What keeps a request from being made is nothing that planning says.** -/
theorem RequestFile.load_bind_resolve_ne_planning (path root : Path) (o : Overrides)
    (processors : Nat) (e : PlanningError) :
    (RequestFile.load fs path >>= fun f => f.resolve fs root o processors)
      ≠ .error (.planning e) := by
  refine bind_ne_error ?load fun f => bind_ne_error ?inputs fun inputs =>
    bind_ne_error ?header fun header h => by cases h
  case load =>
    unfold load
    split
    · exact fun h => by cases h
    split
    · exact fun h => by cases h
    split <;> exact fun h => by cases h
  case inputs =>
    refine bind_ne_error (mapError_ne_error (fun _ h => by cases h) _) fun paths =>
      bind_ne_error (mapError_ne_error (fun _ h => by cases h) _) fun read => ?_
    split <;> exact fun h => by cases h
  case header =>
    unfold trackedHeader
    split
    · exact fun h => by cases h
    · exact mapError_ne_error (fun _ h => by cases h) _

end Files

namespace CommandLine

/-- A build is requested in two steps: the file is read, and then it is turned into a request. -/
theorem buildRequest_eq (c : CommandLine) (processors : Nat) (d : Disk) :
    c.buildRequest processors d = (RequestFile.load d ⟨c.request⟩ >>= fun f => f.resolve d
      (RequestFile.rootOf ⟨c.request⟩ d.workingPath) c.overrides processors) := rfl

/-- **The program never reports a malformed request.** What is wrong with a request file is
said of the file. -/
theorem run_ne_malformedRequest (c : CommandLine) (processors : Nat) (d : Disk)
    (fault : RequestFault) :
    (c.run processors d).result ≠ .error (.planning (.malformedRequest fault)) := by
  unfold run
  cases hr : c.buildRequest processors d with
  | error e =>
    rw [buildRequest_eq] at hr
    exact fun h => RequestFile.load_bind_resolve_ne_planning _ _ _ _ _ _
      (hr.trans (congrArg _ (Except.error.inj h)))
  | ok r =>
    rw [buildRequest_eq] at hr
    obtain ⟨f, hload, hresolve⟩ := exists_of_bind_eq_ok hr
    have hprepare := (RequestFile.faultless_of_resolve (RequestFile.fault?_of_load hload)
      hresolve).prepare_ne Disk.askTool d fault
    rw [← funext Disk.toolScanner_eq] at hprepare
    -- A build that is listed is prepared like one that is carried out.
    show (if c.dryRun then list r d else build r d).result ≠ _
    unfold list build
    generalize r.prepare (r.tools.scanner.map Disk.toolScanner) d = prepared at hprepare
    obtain ⟨_ | b, after⟩ := prepared
    · split <;> exact fun h => hprepare (congrArg _ (BuildError.planning.inj (Except.error.inj h)))
    · split <;> exact fun h => by cases h

end CommandLine

end IncrementalBuild
