import IncrementalBuild.Proofs.Plan.Seeds
import IncrementalBuild.Proofs.Plan.Stages
import IncrementalBuild.Proofs.Successive

/-!
# Commands of inputs whose siblings come and go

Where inputs are compiled one by one, the command of each lists all inputs, and so changes whenever
another input comes or goes. Its fingerprint leaves the listed inputs out of account and should not
change. But arguments are left out by their spelling, and each request leaves out those that are
spelled like inputs of its own. An argument that is spelled like an input of one request and not of
the other counts once and does not count the other time.

If there is no such argument, what is left of the command is the same: what it is made of besides
the listed inputs and the input itself depends on the request only through the names of its
products.
-/

namespace IncrementalBuild

/-- Whether a compile command is made of the listed inputs, the input after `--primary`, and
arguments of which none is spelled like one of some texts. -/
def Command.Unmixed (c : Command) (listed : List String) (primary : String) (texts : List String) :
    Prop :=
  ∃ front middle rest, c.args = front ++ listed ++ middle ++ primaryFlag :: primary :: rest ∧
    ∀ arg ∈ front ++ middle ++ primaryFlag :: rest, arg ∉ texts

namespace Command

/-- What a compile command is made of besides the listed inputs and the primary does not depend on
how it is taken apart, up to the order. -/
theorem perm_own {front listed middle rest : List String} {primary : String} :
    (front ++ listed ++ middle ++ primaryFlag :: primary :: rest).Perm
      (front ++ middle ++ primaryFlag :: rest ++ (listed ++ [primary])) := by
  refine List.perm_iff_count.2 fun arg => ?_
  simp only [List.count_append, List.count_cons, List.count_nil]
  omega

/-- Where the listed inputs and the primary are left out, what is left is what else the command is
made of. -/
theorem filter_args {front listed middle rest : List String} {primary : String}
    {keep : String → Bool} (hlisted : ∀ arg ∈ listed, keep arg = false)
    (hprimary : keep primary = false)
    (hown : ∀ arg ∈ front ++ middle ++ primaryFlag :: rest, keep arg = true) :
    (front ++ listed ++ middle ++ primaryFlag :: primary :: rest).filter keep
      = front ++ middle ++ primaryFlag :: rest := by
  have hnone : listed.filter keep = [] :=
    List.filter_eq_nil_iff.2 fun arg harg => Bool.not_eq_true _ ▸ hlisted arg harg
  have hflag : keep primaryFlag = true := hown _ (List.mem_append_right _ List.mem_cons_self)
  have hall := List.filter_eq_self.2 hown
  rw [List.filter_append, List.filter_cons_of_pos hflag] at hall
  rw [List.filter_append, List.filter_append, List.filter_append, hnone, List.append_nil,
    List.filter_cons_of_pos hflag,
    List.filter_cons_of_neg (by rw [hprimary]; exact Bool.false_ne_true), ← List.filter_append]
  exact hall

end Command

namespace BuildRequest

/-- The inputs of a request as its commands list them. -/
def sourceTexts (r : BuildRequest) : List String := r.sourcePaths.map (·.text)

/-- The products of compiling an input of a request. -/
def inputProducts (r : BuildRequest) (p : Path) : InputOutputs :=
  (OutputLayout.ofInputs r.outputDir r.moduleName r.sourcePaths).perInput p

end BuildRequest

/-- The products of an input are named after the stem that stands for it. -/
theorem OutputLayout.perInput_congr {l l' : OutputLayout} {p p' : Path}
    (hdir : l.outputDir = l'.outputDir) (hstem : l.stemOf p = l'.stemOf p') :
    l.perInput p = l'.perInput p' := by
  unfold perInput inDir
  rw [hdir, hstem]

namespace PlanSetting

/-- What the command of an input is made of, besides the listed inputs and the input itself. -/
def ownArgs (s : PlanSetting) (p : Path) : List String :=
  ["-c", "--module-name", s.request.moduleName] ++ s.request.compilerArgs
    ++ pathArgs (s.compileContext [p]) ++ [Command.primaryFlag]
    ++ (s.unitProducts p).flatMap (flagged Command.outputFlag)
    ++ flagged Command.recordFlag (s.layout.perInput p).record

/-- **The command of an input** lists all inputs and the input itself. -/
theorem exists_args_inputJob (s : PlanSetting) (p : Path) : ∃ front middle rest,
    (s.inputJob p).command.args
        = front ++ s.request.sourceTexts ++ middle ++ Command.primaryFlag :: p.text :: rest ∧
      s.ownArgs p = front ++ middle ++ Command.primaryFlag :: rest := by
  refine ⟨["-c", "--module-name", s.request.moduleName] ++ s.request.compilerArgs,
    pathArgs (s.compileContext [p]),
    (s.unitProducts p).flatMap (flagged Command.outputFlag)
      ++ flagged Command.recordFlag (s.layout.perInput p).record, ?_, ?_⟩
  · show s.compileArgs [] ++ _ ++ _ ++ _ ++ _ = _
    simp [compileArgs, BuildRequest.sourceTexts]
  · simp [ownArgs]

/-- An argument of an unmixed command that it is made of is spelled like none of the texts. -/
theorem not_mem_of_unmixed {s : PlanSetting} {p : Path} {texts : List String}
    (h : (s.inputJob p).command.Unmixed s.request.sourceTexts p.text texts) :
    ∀ arg ∈ s.ownArgs p, arg ∉ texts := by
  obtain ⟨front, middle, rest, hargs, hown⟩ := h
  obtain ⟨front', middle', rest', hargs', hown'⟩ := s.exists_args_inputJob p
  have hperm : (front ++ middle ++ Command.primaryFlag :: rest).Perm (s.ownArgs p) := by
    rw [hown']
    have := Command.perm_own.symm.trans ((List.Perm.of_eq (hargs.symm.trans hargs')).trans
      Command.perm_own)
    exact (List.perm_append_right_iff _).1 this
  exact fun arg harg => hown arg (hperm.mem_iff.2 harg)

/-- **What the fingerprint of an input's command takes account of** is what the command is made of
besides the listed inputs and the input itself, if none of that is spelled like an input. -/
theorem filter_inputJob {s : PlanSetting} {p : Path} (hp : p ∈ s.request.sourcePaths)
    (hown : ∀ arg ∈ s.ownArgs p, arg ∉ s.request.sourceTexts) :
    (s.inputJob p).command.args.filter (fun arg => !s.request.sourceTexts.contains arg)
      = s.ownArgs p := by
  obtain ⟨front, middle, rest, hargs, he⟩ := s.exists_args_inputJob p
  rw [he] at hown
  rw [hargs, he]
  refine Command.filter_args (fun arg harg => ?_) ?_ fun arg harg => ?_
  · rw [List.contains_iff_mem.2 harg]
    rfl
  · have hlisted : p.text ∈ s.request.sourceTexts := List.mem_map_of_mem hp
    rw [List.contains_iff_mem.2 hlisted]
    rfl
  · rw [Bool.not_eq_true', ← Bool.not_eq_true, List.contains_iff_mem]
    exact hown arg harg

end PlanSetting

/-- **An input that two requests list** which differ in nothing but their inputs, where the input is
compiled by itself, its products have the same names both times, and nothing else in its command is
spelled like an input of either request. -/
structure SharedInput (r r' : BuildRequest) (modules : Option ModuleGraph) (g g' : JobGraph)
    (p p' : Path) : Prop where
  differ : r' = { r with inputs := r'.inputs }
  mode : r.mode = .perFile
  planned : r.plan modules = .ok g
  planned' : r'.plan modules = .ok g'
  listed : p ∈ r.sourcePaths
  listed' : p' ∈ r'.sourcePaths
  /-- It may be spelled in two ways. -/
  same : compare p p' = .eq
  products : r.inputProducts p = r'.inputProducts p'
  unmixed : ∀ job ∈ g.jobs, job.key = .compile p →
    job.command.Unmixed r.sourceTexts p.text (r.sourceTexts ++ r'.sourceTexts)

namespace BuildRequest

/-- **What the command of an input is made of is the same for both requests.** -/
theorem ownArgs_eq {r : BuildRequest} {inputs : List InputFile} {p p' : Path}
    (modules : Option ModuleGraph) (order : List String) (hsame : compare p p' = .eq)
    (hproducts : r.inputProducts p = ({ r with inputs } : BuildRequest).inputProducts p') :
    (r.setting modules order).ownArgs p
      = (({ r with inputs } : BuildRequest).setting modules order).ownArgs p' := by
  have hneeded : (modules.getD .empty).neededBy p = (modules.getD .empty).neededBy p' := by
    unfold ModuleGraph.neededBy
    rw [OrderedMap.get?_congr _ hsame]
  have hcontext : (r.setting modules order).compileContext [p]
      = (({ r with inputs } : BuildRequest).setting modules order).compileContext [p'] := by
    unfold PlanSetting.compileContext PlanSetting.neededModules
    simp only [List.flatMap_cons, List.flatMap_nil]
    show _ ++ List.map _ (if _ then PlanSetting.builtModules _ (OrderedSet.ofList
      (((modules.getD .empty).neededBy p).toList ++ [])).toList else []) = _
    rw [hneeded]
    rfl
  have hperInput : (r.setting modules order).layout.perInput p
      = (({ r with inputs } : BuildRequest).setting modules order).layout.perInput p' := hproducts
  unfold PlanSetting.ownArgs PlanSetting.unitProducts
  rw [hcontext, hperInput]
  rfl

end BuildRequest

namespace BuildRequest

variable {r r' : BuildRequest} {modules : Option ModuleGraph} {g g' : JobGraph} {p p' : Path}

/-- The fingerprint of a job's command is found under its key. -/
theorem get?_commandFingerprints (r : BuildRequest) (hg : g.WellFormed) {job : Job}
    (hjob : job ∈ g.jobs) : (r.commandFingerprints g).get? job.key
      = some (job.command.fingerprint fun arg => job.isCompile && r.sourceTexts.contains arg) := by
  unfold commandFingerprints
  refine (OrderedMap.get?_ofList_eq_some_iff fun k f f' hf hf' => ?_).2
    (List.mem_map.2 ⟨job, hjob, rfl⟩)
  obtain ⟨a, ha, hak⟩ := List.mem_map.1 hf
  obtain ⟨b, hb, hbk⟩ := List.mem_map.1 hf'
  obtain ⟨rfl, rfl⟩ := Prod.mk.inj hak
  obtain ⟨hkey, rfl⟩ := Prod.mk.inj hbk
  rw [hg.eq_of_key_eq hb ha hkey]

/-- Where inputs are compiled one by one, each of them has its job. -/
theorem exists_inputJob {s : PlanSetting} (h : g.Holds s) (hmode : s.request.mode = .perFile)
    (hp : p ∈ s.request.sourcePaths) : ∃ id, { s.inputJob p with id } ∈ g.jobs :=
  h.exists_job (PlanSetting.mem_jobs_of_mem_compileJobs
    (PlanSetting.mem_compileJobs_iff.2 (.inl ⟨hmode, p, hp, rfl⟩)))

/-- Where inputs are compiled one by one, a job with the key of an input's compilation is it. -/
theorem eq_inputJob_of_key {s : PlanSetting} (h : g.Holds s) (hmode : s.request.mode = .perFile)
    {job : Job} (hjob : job ∈ g.jobs) (hkey : job.key = .compile p) :
    p ∈ s.request.sourcePaths ∧ job = { s.inputJob p with id := job.id } := by
  have hstage : job.stage = .compiling := by
    obtain ⟨rest, hrest⟩ := h.labelled hjob job.key
      (by rw [h.originKeys_eq job hjob]; exact List.mem_singleton_self _)
    rw [hkey] at hrest
    exact (Stage.eq_of_label_append (a := .compiling) (x := p.text) hrest).symm
  obtain ⟨q, hq, he⟩ := h.eq_inputJob hjob (Job.isCompile_iff.2 hstage) hmode
  have hkeys : JobKey.compile q = .compile p := by
    rw [← hkey, he]
    rfl
  have htext : q.text = p.text := by
    have := congrArg (String.toList ∘ JobKey.text) hkeys
    exact String.toList_inj.1 (by simpa [JobKey.compile] using this)
  obtain rfl : q = p := congrArg Path.mk htext
  exact ⟨hq, he⟩

/-- A command counts as changed only if it had another fingerprint. -/
theorem exists_of_contains_changedCommands {current prior : OrderedMap JobKey Fingerprint}
    {key : JobKey} (h : (changedCommands current prior).contains key = true) :
    ∃ f old, current.get? key = some f ∧ prior.get? key = some old ∧ old ≠ f := by
  unfold changedCommands at h
  rw [OrderedMap.contains_mapValues, ← OrderedMap.isSome_get?,
    OrderedMap.get?_filter _ _ _ fun k hk f => by rw [Std.LawfulEqOrd.eq_of_compare hk],
    Option.isSome_iff_exists] at h
  obtain ⟨f, hf⟩ := h
  obtain ⟨hcurrent, hchanged⟩ := Option.filter_eq_some_iff.1 hf
  cases hprior : prior.get? key with
  | none =>
    rw [hprior] at hchanged
    cases hchanged
  | some old =>
    rw [hprior] at hchanged
    exact ⟨f, old, hcurrent, rfl, of_decide_eq_true hchanged⟩

/-- The fingerprint of an input's command, where nothing else in it is spelled like an input. -/
theorem get?_compile {order : List String} (hg : g.Holds (r.setting modules order))
    (hmode : r.mode = .perFile) (hp : p ∈ r.sourcePaths)
    (hown : ∀ arg ∈ (r.setting modules order).ownArgs p, arg ∉ r.sourceTexts) :
    (r.commandFingerprints g).get? (.compile p)
      = some (.aggregate
        ((r.tools.compiler :: (r.setting modules order).ownArgs p).map .ofText)) := by
  obtain ⟨id, hjob⟩ := exists_inputJob hg hmode hp
  refine (r.get?_commandFingerprints hg.wellFormed hjob).trans (congrArg some ?_)
  have hfilter := PlanSetting.filter_inputJob (s := r.setting modules order) hp hown
  unfold Command.fingerprint
  rw [← hfilter]
  rfl

end BuildRequest

namespace SharedInput

variable {r r' : BuildRequest} {modules : Option ModuleGraph} {g g' : JobGraph} {p p' : Path}

/-- **The command of a shared input has one fingerprint**, whichever request it is planned for. -/
theorem exists_fingerprint (h : SharedInput r r' modules g g' p p') : ∃ f,
    (r.commandFingerprints g).get? (.compile p) = some f ∧
      (r'.commandFingerprints g').get? (.compile p') = some f := by
  obtain ⟨-, order, horder, hg⟩ := BuildRequest.holds_of_plan h.planned
  obtain ⟨-, order', horder', hg'⟩ := BuildRequest.holds_of_plan h.planned'
  have hdiffer := h.differ
  generalize r'.inputs = inputs at hdiffer
  subst hdiffer
  obtain rfl : order = order' := by
    by_cases hmodules : r.explicitModules = true
    · rw [if_pos hmodules] at horder horder'
      exact Except.ok.inj (horder.symm.trans horder')
    · rw [if_neg hmodules] at horder horder'
      rw [horder, horder']
  obtain ⟨id, hjob⟩ := BuildRequest.exists_inputJob hg h.mode h.listed
  have hown := PlanSetting.not_mem_of_unmixed (s := r.setting modules order)
    (h.unmixed { (r.setting modules order).inputJob p with id } hjob rfl)
  have hsame := BuildRequest.ownArgs_eq modules order h.same h.products
  refine ⟨_, BuildRequest.get?_compile hg h.mode h.listed fun arg harg hmem =>
    hown arg harg (List.mem_append_left _ hmem), ?_⟩
  rw [hsame] at hown ⊢
  exact BuildRequest.get?_compile hg' h.mode h.listed' fun arg harg hmem =>
    hown arg harg (List.mem_append_right _ hmem)

/-- A command that is known under the key of the input's compilation is that of the input. -/
theorem get?_eq_of_key (h : SharedInput r r' modules g g' p p') {old : Fingerprint}
    (hold : (r.commandFingerprints g).get? (.compile p') = some old) :
    (r.commandFingerprints g).get? (.compile p) = some old := by
  obtain ⟨haccepted, order, -, hg⟩ := BuildRequest.holds_of_plan h.planned
  obtain ⟨job, hjob, hkey, -⟩ := BuildRequest.exists_of_get?_commandFingerprints hold
  obtain ⟨hp', -⟩ := BuildRequest.eq_inputJob_of_key hg h.mode hjob hkey
  obtain rfl : p = p' := eq_of_pairwise_compare haccepted.distinct h.listed hp' h.same
  exact hold

/-- **No command that was recorded makes the input's own count as changed.** -/
theorem not_scheduled_commandChanged {φ : Type} [FileSystem φ]
    (h : SharedInput r r' modules g g' p p') {start : DirtyInputs}
    (hcommands : start.state.commands = r.commandFingerprints g) (fs : φ) {job : Job}
    (hjob : job ∈ g'.jobs) (hkey : job.key = .compile p') :
    (g'.prune (r'.changesFor g' start) fs).disposition job.id ≠ .scheduled .commandChanged := by
  intro hscheduled
  obtain ⟨-, order, -, hg'⟩ := BuildRequest.holds_of_plan h.planned'
  have hmode : r'.mode = .perFile := by
    rw [h.differ]
    exact h.mode
  have hmodule : job.isModuleBuild = false := by
    rw [(BuildRequest.eq_inputJob_of_key hg' hmode hjob hkey).2]
    rfl
  have hreason := (JobGraph.disposition_prune_cases hg'.wellFormed hjob hscheduled).resolve_right
    fun hdrawn => by cases hdrawn.2
  have hchanged : (BuildRequest.changedCommands (r'.commandFingerprints g')
      start.state.commands).contains job.key = true :=
    ((Changes.reason?_eq_some_iff hmodule).1 hreason).1
  rw [hcommands, hkey] at hchanged
  obtain ⟨f, hf, hf'⟩ := h.exists_fingerprint
  obtain ⟨now, old, hnow, hold, hne⟩ := BuildRequest.exists_of_contains_changedCommands hchanged
  have hsame : old = f := Option.some.inj ((h.get?_eq_of_key hold).symm.trans hf)
  exact hne (hsame.trans (Option.some.inj (hf'.symm.trans hnow)))

/-- **Siblings leave the command of an input alone.** The command of an input that two requests list
has one fingerprint, which every build that is prepared for one of them records. And where a build
finds what one for the other request has recorded, it does not schedule the compilation of the input
on account of its command. -/
theorem command_stays {ω : Type} [FileSystem ω] (h : SharedInput r r' modules g g' p p') : ∃ f,
    (r.commandFingerprints g).get? (.compile p) = some f ∧
      (r'.commandFingerprints g').get? (.compile p') = some f ∧
    (∀ (scan : Option (Scanner ω)) before after b,
      r.scanModules scan before = (.ok modules, after) → r.prepare scan before = (.ok b, after) →
        b.state.commands.get? (.compile p) = some f) ∧
    ∀ (scan : Option (Scanner ω)) before after b,
      r'.scanModules scan before = (.ok modules, after) → r'.prepare scan before = (.ok b, after) →
        b.state.commands.get? (.compile p') = some f ∧
        ∃ start, b.Prepared r' (r'.priorState before) modules after start g' ∧
          ((DirtyInputs.trusted (r'.priorState before)).commands = r.commandFingerprints g →
            ∀ job ∈ g'.jobs, job.key = .compile p' →
              (g'.prune (r'.changesFor g' start) after).disposition job.id
                ≠ .scheduled .commandChanged) := by
  obtain ⟨f, hf, hf'⟩ := h.exists_fingerprint
  have hprepared {r : BuildRequest} {g : JobGraph} (hg : r.plan modules = .ok g)
      {scan : Option (Scanner ω)} {before after : ω} {b : PlannedBuild}
      (hscan : r.scanModules scan before = (.ok modules, after))
      (hb : r.prepare scan before = (.ok b, after)) :
      ∃ start, b.Prepared r (r.priorState before) modules after start g := by
    obtain ⟨modules', start, found, hscan', hb⟩ := BuildRequest.prepared_of_prepare hb
    obtain rfl : modules = modules' := Except.ok.inj (Prod.mk.inj (hscan.symm.trans hscan')).1
    obtain rfl : g = found := Except.ok.inj (hg.symm.trans hb.planned)
    exact ⟨start, hb⟩
  refine ⟨f, hf, hf', fun scan before after b hscan hb => ?_,
    fun scan before after b hscan hb => ?_⟩
  · obtain ⟨start, hb⟩ := hprepared h.planned hscan hb
    rw [hb.state]
    exact hf
  · obtain ⟨start, hb⟩ := hprepared h.planned' hscan hb
    refine ⟨by rw [hb.state]; exact hf', start, hb, fun hcommands job hjob hkey => ?_⟩
    exact h.not_scheduled_commandChanged (hb.starts.commands.trans hcommands) after hjob hkey

end SharedInput

/-! An input that first stands behind one sibling, and then before another one. It is spelled in two
ways. -/

namespace SiblingsChange

def first : BuildRequest := .forObjects [⟨⟨"a"⟩, ⟨"1"⟩⟩, ⟨⟨"lib/b"⟩, ⟨"1"⟩⟩]

def second : BuildRequest := .forObjects [⟨⟨"lib//b"⟩, ⟨"1"⟩⟩, ⟨⟨"c"⟩, ⟨"1"⟩⟩]

theorem exists_plan (r : BuildRequest) (h : (r.plan none).toOption.isSome = true) :
    ∃ g, r.plan none = .ok g := by
  cases hg : r.plan none with
  | error e =>
    rw [hg] at h
    cases h
  | ok g => exact ⟨g, rfl⟩

theorem exists_sharedInput : ∃ g g',
    SharedInput first second none g g' ⟨"lib/b"⟩ ⟨"lib//b"⟩ := by
  obtain ⟨g, hg⟩ := exists_plan first (by decide +kernel)
  obtain ⟨g', hg'⟩ := exists_plan second (by decide +kernel)
  refine ⟨g, g', rfl, rfl, hg, hg', List.mem_cons_of_mem _ List.mem_cons_self, List.mem_cons_self,
    by decide +kernel, OutputLayout.perInput_congr rfl (by decide +kernel), ?_⟩
  intro job hjob hkey
  obtain ⟨-, order, horder, hholds⟩ := BuildRequest.holds_of_plan hg
  obtain rfl : order = [] := horder
  obtain ⟨front, middle, rest, hargs, hown⟩ :=
    (first.setting none []).exists_args_inputJob ⟨"lib/b"⟩
  rw [(BuildRequest.eq_inputJob_of_key hholds rfl hjob hkey).2]
  refine ⟨front, middle, rest, hargs, ?_⟩
  rw [← hown]
  decide +kernel

end SiblingsChange

open SiblingsChange in
theorem SharedInput.command_stays_siblings : ∃ g g',
    SharedInput first second none g g' ⟨"lib/b"⟩ ⟨"lib//b"⟩ ∧
      ∃ f, (first.commandFingerprints g).get? (.compile ⟨"lib/b"⟩) = some f ∧
        (second.commandFingerprints g').get? (.compile ⟨"lib//b"⟩) = some f := by
  obtain ⟨g, g', h⟩ := exists_sharedInput
  obtain ⟨f, hfirst, hsecond, -⟩ := @SharedInput.command_stays first second none g g' ⟨"lib/b"⟩
    ⟨"lib//b"⟩ SimulatedTools _ h
  exact ⟨g, g', h, f, hfirst, hsecond⟩

end IncrementalBuild
