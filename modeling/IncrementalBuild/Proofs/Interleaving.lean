import IncrementalBuild.Proofs.Run

/-!
# Workers that take turns

Where jobs run side by side, the process of each has a worker who looks after it. When the process
has ended, the worker files its diagnostics one at a time, notes the failure if there is one, and
tells the core last. Workers take turns in any order, and so do the things that the core is told.

The report of an execution is put together from two sides. Where the jobs stand is known to the
scheduler, which has it from what the core was told; diagnostics and failures are what the workers
have written. The two agree at the end for a reason that does not depend on the order of the turns:
nothing that a worker has done is undone, so **what has been done and what is left to do is together
what there was to do**. The core asks for more until it was told the end of every job that it has
handed out, and telling is what a worker does last. When it asks for no more, nothing is left to do.
-/

namespace IncrementalBuild

/-! ## What there is to do for a process -/

/-- One thing that a worker does. -/
inductive Deed where
  | file (d : DiagnosticOrigin × Diagnostic)
  | note (kind : FailureKind)
  | tell (outcome : JobOutcome)

/-- The worker of a process that has ended, and what is still left to do. -/
structure Worker where
  job : Job
  result : Except SpawnError ProcessOutput
  left : List Deed

namespace Worker

variable (w : Worker)

/-- How the job ended. -/
def outcome : JobOutcome := (Execution.outcomeOf w.job w.result).1

/-- The diagnostics of the job, each with what it belongs to. -/
def collected : List (DiagnosticOrigin × Diagnostic) := (Execution.outcomeOf w.job w.result).2

/-- What made the process fail, if it did. -/
def failure? : Option FailureKind :=
  match w.result with
  | .ok output => if output.exitCode = 0 then none else some (.exit output.exitCode)
  | .error e => some (.spawn e.message)

/-- All that there is to do, in its order. -/
def deeds : List Deed :=
  w.collected.map .file ++ w.failure?.toList.map .note ++ [.tell w.outcome]

/-- The worker who has done nothing yet. -/
def fresh (job : Job) (result : Except SpawnError ProcessOutput) : Worker :=
  { job, result, left := deeds ⟨job, result, []⟩ }

/-- What some workers have left to do, and for which jobs. -/
def owed (workers : List Worker) : List (JobId × Deed) :=
  workers.flatMap fun w => w.left.map (w.job.id, ·)

/-- What there was to do for some workers, and for which jobs. -/
def due (workers : List Worker) : List (JobId × Deed) :=
  workers.flatMap fun w => w.deeds.map (w.job.id, ·)

end Worker

namespace Execution

variable {ω σ : Type}

/-- Does one thing for a job. -/
def perform (e : Execution ω σ) (id : JobId) : Deed → Execution ω σ
  | .file d => { e with diagnostics := e.diagnostics.add d }
  | .note kind => { e with failures := e.failures.insert id kind }
  | .tell outcome => { e with events := e.events ++ [.jobFinished id outcome] }

/-- The process of a job has ended, and its worker has done nothing yet. -/
def exit (e : Execution ω σ) (id : JobId) (run : ProcessRun ω) : Execution ω σ :=
  { e with
    started := e.started.erase id
    world := run.world
    events := e.events ++ if run.cancelRequested then [.cancelRequested] else [] }

end Execution

/-- **The ways in which an execution can go where workers take turns**: what the core was told,
the workers, what they have done, and where the execution stands. -/
inductive Interleaving {ω σ : Type} (env : Environment ω) (observe : WorldObserver ω σ)
    (first : Execution ω σ) :
    List (Told ω) → List Worker → List (JobId × Deed) → Execution ω σ → Prop
  /-- Nothing has happened. -/
  | start : Interleaving env observe first [] [] [] first
  /-- The process of any started job ends. -/
  | exit {told workers done e id job run} : Interleaving env observe first told workers done e →
      id ∈ e.started → e.core.scheduler.plan.graph.job? id = some job →
      env.runs e.world job.command run →
      Interleaving env observe first told (workers ++ [.fresh job run.result]) done (e.exit id run)
  /-- Any worker does what is next. -/
  | perform {told before after done e job result deed rest} :
      Interleaving env observe first told (before ++ ⟨job, result, deed :: rest⟩ :: after) done e →
      Interleaving env observe first told (before ++ ⟨job, result, rest⟩ :: after)
        (done ++ [(job.id, deed)]) (e.perform job.id deed)
  /-- Someone asks to stop. -/
  | cancel {told workers done e} : Interleaving env observe first told workers done e →
      Interleaving env observe first told workers done
        { e with events := e.events ++ [.cancelRequested] }
  /-- The world changes by itself. -/
  | drift {told workers done e world} : Interleaving env observe first told workers done e →
      env.drifts e.world world →
      Interleaving env observe first told workers done { e with world }
  /-- The core is told any of the events. -/
  | handle {told workers done e event} : Interleaving env observe first told workers done e →
      e.keepRunning = true → event ∈ e.events →
      Interleaving env observe first (told ++ [⟨e.world, event⟩]) workers done
        (e.handleFirst observe event (e.events.erase event))

section Turns

variable {ω σ : Type} {env : Environment ω} {observe : WorldObserver ω σ} {first e : Execution ω σ}
  {told : List (Told ω)} {workers : List Worker} {done : List (JobId × Deed)}

/-! ## Without a pause -/

namespace Worker

/-- A job fails exactly if something made its process fail. -/
theorem outcome_eq (w : Worker) :
    w.outcome = match w.failure? with
      | some kind => .failed kind
      | none => .succeeded := by
  obtain ⟨job, result, left⟩ := w
  cases result with
  | error e => rfl
  | ok output =>
    by_cases hzero : output.exitCode = 0 <;>
      simp [outcome, failure?, Execution.outcomeOf, hzero]

end Worker

namespace Execution

theorem foldl_perform_file (e : Execution ω σ) (id : JobId)
    (ds : List (DiagnosticOrigin × Diagnostic)) :
    (ds.map Deed.file).foldl (·.perform id ·) e
      = { e with diagnostics := ds.foldl DiagnosticFile.add e.diagnostics } := by
  induction ds generalizing e with
  | nil => rfl
  | cons d rest ih => exact ih (e.perform id (.file d))

/-- **Settling a job is doing all that there is to do without a pause.** -/
theorem settle_eq (e : Execution ω σ) (job : Job) (run : ProcessRun ω) :
    ({ e with started := e.started.erase job.id } : Execution ω σ).settle job run
      = (Worker.fresh job run.result).deeds.foldl (·.perform job.id ·) (e.exit job.id run) := by
  have hfresh := (Worker.fresh job run.result).outcome_eq
  have houtcome : (outcomeOf job run.result).1 = _ := hfresh
  rw [Worker.deeds, List.foldl_append, List.foldl_append, foldl_perform_file, settle, hfresh]
  dsimp only
  rw [houtcome]
  cases (Worker.fresh job run.result).failure? <;> rfl

end Execution

/-- A worker may do several things in a row. -/
theorem Interleaving.work {job : Job} {result : Except SpawnError ProcessOutput}
    (before after : List Worker) (deeds rest : List Deed)
    (h : Interleaving env observe first told (before ++ ⟨job, result, deeds ++ rest⟩ :: after) done
      e) :
    Interleaving env observe first told (before ++ ⟨job, result, rest⟩ :: after)
      (done ++ deeds.map (job.id, ·)) (deeds.foldl (·.perform job.id ·) e) := by
  induction deeds generalizing done e with
  | nil =>
    rw [List.map_nil, List.append_nil]
    exact h
  | cons deed deeds ih =>
    have := ih h.perform
    rwa [List.append_assoc] at this

/-- **Where jobs are settled one after the other, workers take turns too.** -/
theorem Interleaving.settle (h : Interleaving env observe first told workers done e) {id : JobId}
    {job : Job} {run : ProcessRun ω} (hid : id ∈ e.started) (hjob : job.id = id)
    (hfind : e.core.scheduler.plan.graph.job? id = some job)
    (hrun : env.runs e.world job.command run) :
    Interleaving env observe first told (workers ++ [⟨job, run.result, []⟩])
      (done ++ (Worker.fresh job run.result).deeds.map (job.id, ·))
      (({ e with started := e.started.erase id } : Execution ω σ).settle job run) := by
  subst hjob
  rw [e.settle_eq]
  refine Interleaving.work workers [] _ [] ?_
  rw [List.append_nil]
  exact h.exit hid hfind hrun

/-! ## What is done and what is left -/

namespace RuntimeEvent

/-- The job of which an event tells the end, and how it ended. -/
def end? : RuntimeEvent → Option (JobId × JobOutcome)
  | .jobFinished id outcome => some (id, outcome)
  | .cancelRequested => none

theorem finished?_eq (event : RuntimeEvent) : event.finished? = event.end?.map (·.1) := by
  cases event <;> rfl

end RuntimeEvent

namespace Deed

/-- The diagnostic that was filed. -/
def filed? : JobId × Deed → Option (DiagnosticOrigin × Diagnostic)
  | (_, .file d) => some d
  | _ => none

/-- The failure that was noted. -/
def noted? : JobId × Deed → Option (JobId × FailureKind)
  | (id, .note kind) => some (id, kind)
  | _ => none

/-- The end that the core was told of. -/
def told? : JobId × Deed → Option (JobId × JobOutcome)
  | (id, .tell outcome) => some (id, outcome)
  | _ => none

end Deed

namespace Worker

theorem owed_append (ws vs : List Worker) : owed (ws ++ vs) = owed ws ++ owed vs :=
  List.flatMap_append

theorem due_append (ws vs : List Worker) : due (ws ++ vs) = due ws ++ due vs :=
  List.flatMap_append

/-- What one worker files, notes and tells. -/
theorem filterMap_deeds (w : Worker) :
    (w.deeds.map (w.job.id, ·)).filterMap Deed.filed? = w.collected
      ∧ (w.deeds.map (w.job.id, ·)).filterMap Deed.noted?
        = w.failure?.toList.map (w.job.id, ·)
      ∧ (w.deeds.map (w.job.id, ·)).filterMap Deed.told? = [(w.job.id, w.outcome)] := by
  have hfiles (ds : List (DiagnosticOrigin × Diagnostic)) :
      (ds.map fun d => (w.job.id, Deed.file d)).filterMap Deed.filed? = ds
        ∧ (ds.map fun d => (w.job.id, Deed.file d)).filterMap Deed.noted? = []
        ∧ (ds.map fun d => (w.job.id, Deed.file d)).filterMap Deed.told? = [] := by
    induction ds with
    | nil => exact ⟨rfl, rfl, rfl⟩
    | cons d rest ih => exact ⟨congrArg (d :: ·) ih.1, ih.2.1, ih.2.2⟩
  have hall : w.deeds.map (w.job.id, ·)
      = w.collected.map (fun d => (w.job.id, Deed.file d))
        ++ w.failure?.toList.map (fun kind => (w.job.id, Deed.note kind))
        ++ [(w.job.id, .tell w.outcome)] := by
    rw [deeds, List.map_append, List.map_append, List.map_map, List.map_map]
    rfl
  obtain ⟨h₁, h₂, h₃⟩ := hfiles w.collected
  rw [hall]
  simp only [List.filterMap_append, h₁, h₂, h₃]
  cases w.failure? <;> simp [Deed.filed?, Deed.noted?, Deed.told?]

theorem filterMap_filed?_due (ws : List Worker) :
    (due ws).filterMap Deed.filed? = ws.flatMap collected := by
  rw [due, List.filterMap_flatMap]
  exact List.flatMap_congr fun w _ => w.filterMap_deeds.1

theorem filterMap_noted?_due (ws : List Worker) :
    (due ws).filterMap Deed.noted? = ws.flatMap fun w => w.failure?.toList.map (w.job.id, ·) := by
  rw [due, List.filterMap_flatMap]
  exact List.flatMap_congr fun w _ => w.filterMap_deeds.2.1

theorem filterMap_told?_due (ws : List Worker) :
    (due ws).filterMap Deed.told? = ws.map fun w => (w.job.id, w.outcome) := by
  rw [due, List.filterMap_flatMap, List.map_eq_flatMap]
  exact List.flatMap_congr fun w _ => w.filterMap_deeds.2.2

/-- Telling the core is what a worker does last, so who has anything left to do has that. -/
theorem tell_mem_left {w : Worker} (h : w.left <:+ w.deeds) (hne : w.left ≠ []) :
    .tell w.outcome ∈ w.left := by
  obtain ⟨front, hfront⟩ := h
  have hlast : w.deeds.getLast? = some (.tell w.outcome) := List.getLast?_concat
  rw [← hfront, List.getLast?_append_of_ne_nil _ hne] at hlast
  exact List.mem_of_getLast? hlast

end Worker

/-- **What holds of an execution where workers take turns**: what is done and what is left is
together what there was to do, and all that is done is found again. -/
structure Execution.Settles (e : Execution ω σ) (told : List (Told ω)) (workers : List Worker)
    (done : List (JobId × Deed)) : Prop where
  left_suffix : ∀ w ∈ workers, w.left <:+ w.deeds
  balance : (done ++ Worker.owed workers).Perm (Worker.due workers)
  diagnostics : e.diagnostics = (done.filterMap Deed.filed?).foldl DiagnosticFile.add ∅
  failures : e.failures = OrderedMap.ofList (done.filterMap Deed.noted?)
  /-- Ends that the core was told of, or is yet to be told of, are those that workers told. -/
  ends : ((told.map (·.event) ++ e.events).filterMap RuntimeEvent.end?).Perm
    (done.filterMap Deed.told?)

/-- What holds of all workers stays where one of them is replaced by another of which it holds. -/
theorem Worker.forall_mem_replace {P : Worker → Prop} {before after : List Worker} {w w' : Worker}
    (h : ∀ x ∈ before ++ w :: after, P x) (hw : P w → P w') :
    ∀ x ∈ before ++ w' :: after, P x := by
  rw [List.forall_mem_append, List.forall_mem_cons] at h ⊢
  exact ⟨h.1, hw h.2.1, h.2.2⟩

namespace Execution.Settles

/-- Where a process ends, its worker owes all that is to be done. -/
theorem exit (h : e.Settles told workers done) (id : JobId) (job : Job) (run : ProcessRun ω) :
    (e.exit id run).Settles told (workers ++ [.fresh job run.result]) done where
  left_suffix := List.forall_mem_append.2
    ⟨h.left_suffix, List.forall_mem_singleton.2 List.suffix_rfl⟩
  balance := by
    rw [Worker.owed_append, Worker.due_append, ← List.append_assoc]
    exact h.balance.append_right _
  diagnostics := h.diagnostics
  failures := h.failures
  ends := by
    have hnone : (if run.cancelRequested = true then [RuntimeEvent.cancelRequested]
        else []).filterMap RuntimeEvent.end? = [] := by
      split <;> rfl
    show ((told.map _ ++ (e.events ++ _)).filterMap _).Perm _
    rw [← List.append_assoc, List.filterMap_append, hnone, List.append_nil]
    exact h.ends

/-- What a worker does is no longer owed, and it is found again. -/
theorem perform {before after : List Worker} {job : Job} {result : Except SpawnError ProcessOutput}
    {deed : Deed} {rest : List Deed}
    (h : e.Settles told (before ++ ⟨job, result, deed :: rest⟩ :: after) done) :
    (e.perform job.id deed).Settles told (before ++ ⟨job, result, rest⟩ :: after)
      (done ++ [(job.id, deed)]) where
  left_suffix := Worker.forall_mem_replace h.left_suffix (List.suffix_cons deed rest).trans
  balance := by
    have hbalance := h.balance
    rw [Worker.owed_append, Worker.due_append] at hbalance
    rw [Worker.owed_append, Worker.due_append]
    refine List.Perm.trans ?_ hbalance
    rw [List.append_assoc]
    refine List.Perm.append_left done (List.Perm.symm ?_)
    show (Worker.owed before ++ (job.id, deed) :: (rest.map (job.id, ·)
      ++ Worker.owed after)).Perm _
    exact List.perm_middle
  diagnostics := by
    rw [List.filterMap_append, List.foldl_append, ← h.diagnostics]
    cases deed <;> rfl
  failures := by
    unfold OrderedMap.ofList
    rw [List.filterMap_append, List.foldl_append]
    have hfailures : e.failures = List.foldl _ _ _ := h.failures
    rw [← hfailures]
    cases deed <;> rfl
  ends := by
    rw [List.filterMap_append (l := done)]
    cases deed with
    | file d => exact (List.append_nil (done.filterMap Deed.told?)).symm ▸ h.ends
    | note kind => exact (List.append_nil (done.filterMap Deed.told?)).symm ▸ h.ends
    | tell outcome =>
      show ((told.map _ ++ (e.events ++ [_])).filterMap _).Perm _
      rw [← List.append_assoc, List.filterMap_append]
      exact h.ends.append_right _

theorem cancel (h : e.Settles told workers done) :
    ({ e with events := e.events ++ [.cancelRequested] } : Execution ω σ).Settles told workers
      done := by
  refine ⟨h.left_suffix, h.balance, h.diagnostics, h.failures, ?_⟩
  show ((told.map _ ++ (e.events ++ [_])).filterMap _).Perm _
  rw [← List.append_assoc, List.filterMap_append]
  exact (List.append_nil _).symm ▸ h.ends

/-- An event of which the core is told is no longer waiting. -/
theorem handle (h : e.Settles told workers done) {event : RuntimeEvent}
    (hevent : event ∈ e.events) :
    (e.handleFirst observe event (e.events.erase event)).Settles (told ++ [⟨e.world, event⟩])
      workers done := by
  refine ⟨h.left_suffix, h.balance, h.diagnostics, h.failures, ?_⟩
  refine List.Perm.trans (List.Perm.filterMap _ ?_) h.ends
  show ((told ++ [_]).map (fun t : Told ω => t.event) ++ e.events.erase event).Perm _
  rw [List.map_append, List.append_assoc]
  exact (List.perm_cons_erase hevent).symm.append_left _

end Execution.Settles

/-- **Workers who take turns keep the balance.** -/
theorem Interleaving.settles (h : Interleaving env observe first told workers done e)
    (hevents : first.events = []) (hdiagnostics : first.diagnostics = ∅)
    (hfailures : first.failures = ∅) : e.Settles told workers done := by
  induction h with
  | start =>
    refine ⟨fun w hw => absurd hw List.not_mem_nil, .refl _, hdiagnostics, hfailures, ?_⟩
    rw [hevents]
    exact .refl _
  | exit _ _ _ _ ih => exact ih.exit _ _ _
  | perform _ ih => exact ih.perform
  | cancel _ ih => exact ih.cancel
  | drift _ _ ih => exact ⟨ih.left_suffix, ih.balance, ih.diagnostics, ih.failures, ih.ends⟩
  | handle _ _ hevent ih => exact ih.handle hevent

namespace Execution.Settles

/-- **Ends and what is left to tell are one for each worker.** -/
theorem perm_ids (h : e.Settles told workers done) :
    (endedIn told ++ e.untold ++ ((Worker.owed workers).filterMap Deed.told?).map (·.1)).Perm
      (workers.map (·.job.id)) := by
  have hends : endedIn told ++ e.untold
      = ((told.map (·.event) ++ e.events).filterMap RuntimeEvent.end?).map (·.1) := by
    unfold endedIn untold
    rw [List.map_filterMap, List.filterMap_append, List.filterMap_map,
      ← funext RuntimeEvent.finished?_eq]
    rfl
  have hbalance := (h.balance.filterMap Deed.told?).map (·.1)
  rw [List.filterMap_append, List.map_append, Worker.filterMap_told?_due, List.map_map] at hbalance
  rw [hends]
  exact ((h.ends.map (·.1)).append_right _).trans hbalance

/-- What a worker has told is an end. -/
theorem mem_told_or_events (h : e.Settles told workers done) {id : JobId} {outcome : JobOutcome}
    (hmem : (id, outcome) ∈ done.filterMap Deed.told?) :
    (∃ t ∈ told, t.event = .jobFinished id outcome) ∨ .jobFinished id outcome ∈ e.events := by
  obtain ⟨event, hevent, hend⟩ := List.mem_filterMap.1 (h.ends.mem_iff.2 hmem)
  have he : event = .jobFinished id outcome := by
    cases event with
    | cancelRequested => cases hend
    | jobFinished id' outcome' => cases hend; rfl
  rw [he, List.mem_append, List.mem_map] at hevent
  exact hevent

end Execution.Settles

/-! ## The core and the workers -/

/-- **What is started and what workers look after is what the core has handed out.** -/
structure Execution.Staffed (e : Execution ω σ) (env : Environment ω) (plan : BuildPlan)
    (workers : List Worker) (h : CoreHistory σ) (step : CoreStep) : Prop where
  core_eq : h.core = e.core
  observed_eq : h.observed = e.observed
  keepRunning_eq : step.keepRunning = e.keepRunning
  dispatched : (e.started ++ workers.map (·.job.id)).Perm h.dispatched
  /-- Each worker looks after a process of a job of the plan. -/
  processes : ∀ w ∈ workers, w.job ∈ plan.graph.jobs ∧
    ∃ world run, env.runs world w.job.command run ∧ w.result = run.result

namespace Execution.Staffed

variable {plan : BuildPlan} {history : CoreHistory σ} {step : CoreStep}

/-- A job whose process ends is no longer among the started ones, and has a worker. -/
theorem exit (h : e.Staffed env plan workers history step) {job : Job} {run : ProcessRun ω}
    (hstarted : job.id ∈ e.started) (hjob : job ∈ plan.graph.jobs)
    (hrun : env.runs e.world job.command run) :
    (e.exit job.id run).Staffed env plan (workers ++ [.fresh job run.result]) history step where
  core_eq := h.core_eq
  observed_eq := h.observed_eq
  keepRunning_eq := h.keepRunning_eq
  dispatched := by
    refine List.Perm.trans ?_ h.dispatched
    show (e.started.erase job.id ++ (workers ++ [_]).map _).Perm _
    rw [List.map_append, ← List.append_assoc]
    refine (List.perm_append_singleton job.id _).trans ?_
    exact (List.perm_cons_erase hstarted).symm.append_right _
  processes := List.forall_mem_append.2
    ⟨h.processes, List.forall_mem_singleton.2 ⟨hjob, e.world, run, hrun, rfl⟩⟩

/-- What a worker does is none of the core's business. -/
theorem perform {before after : List Worker} {job : Job} {result : Except SpawnError ProcessOutput}
    {deed : Deed} {rest : List Deed}
    (h : e.Staffed env plan (before ++ ⟨job, result, deed :: rest⟩ :: after) history step) :
    (e.perform job.id deed).Staffed env plan (before ++ ⟨job, result, rest⟩ :: after) history
      step := by
  have hids : (before ++ ⟨job, result, rest⟩ :: after).map (·.job.id)
      = (before ++ ⟨job, result, deed :: rest⟩ :: after).map (·.job.id) := by
    rw [List.map_append, List.map_append]
    rfl
  have hdispatched := h.dispatched
  rw [← hids] at hdispatched
  have hprocesses : ∀ w ∈ before ++ ⟨job, result, rest⟩ :: after, w.job ∈ plan.graph.jobs ∧
      ∃ world run, env.runs world w.job.command run ∧ w.result = run.result :=
    Worker.forall_mem_replace h.processes id
  cases deed <;> exact ⟨h.core_eq, h.observed_eq, h.keepRunning_eq, hdispatched, hprocesses⟩

/-- The core is told of an event as it is in its runs. -/
theorem handle (h : e.Staffed env plan workers history step) (event : RuntimeEvent) :
    (e.handleFirst observe event (e.events.erase event)).Staffed env plan workers
      (history.call (.tell (observe e.world) event))
      (history.reply (.tell (observe e.world) event)) := by
  obtain ⟨core, seen, dispatched⟩ := history
  obtain rfl : core = e.core := h.core_eq
  obtain rfl : seen = e.observed := h.observed_eq
  refine ⟨rfl, rfl, rfl, ?_, h.processes⟩
  have hswap (l r m : List JobId) : (l ++ r ++ m).Perm (l ++ m ++ r) := by
    rw [List.append_assoc, List.append_assoc]
    exact List.perm_append_comm.append_left l
  exact (hswap _ _ _).trans (h.dispatched.append_right _)

end Execution.Staffed

section Start

variable {plan : BuildPlan} {policy : FailurePolicy} {concurrency : Nat} {world : ω} {observed : σ}

/-- The balance of an execution from its beginning. -/
theorem Interleaving.settles_start
    (h : Interleaving env observe (.start plan policy concurrency world observed) told workers done
      e) : e.Settles told workers done :=
  h.settles rfl rfl rfl

/-- **Where workers take turns, the core goes through one of its runs.** An end that it is told is
that of a job that a worker looks after, and none is told twice. -/
theorem Interleaving.exists_run (hg : plan.graph.WellFormed)
    (h : Interleaving env observe (.start plan policy concurrency world observed) told workers done
      e) :
    ∃ history step, CoreRun observe (.start plan policy concurrency observed) told history step ∧
      e.Staffed env plan workers history step := by
  induction h with
  -- Nobody has been told of anything, and all that was handed out is still to be looked after.
  | start =>
    refine ⟨_, _, .begin, rfl, rfl, rfl, ?_, fun w hw => absurd hw List.not_mem_nil⟩
    exact .of_eq (List.append_nil _)
  -- A process ends. The core has not heard of it.
  | @exit told workers done e id job run hbefore hid hjob hrun ih =>
    obtain ⟨history, step, hcore, hs⟩ := ih
    have hplan : e.core.scheduler.plan = plan := hs.core_eq ▸ (hcore.tallied hg).plan_eq
    obtain ⟨hmem, rfl⟩ := hg.job?_eq_some_iff.1 (hplan ▸ hjob)
    exact ⟨history, step, hcore, hs.exit hid hmem hrun⟩
  | perform _ ih =>
    obtain ⟨history, step, hcore, hs⟩ := ih
    exact ⟨history, step, hcore, hs.perform⟩
  | cancel _ ih =>
    obtain ⟨history, step, hcore, hs⟩ := ih
    exact ⟨history, step, hcore, hs.core_eq, hs.observed_eq, hs.keepRunning_eq, hs.dispatched,
      hs.processes⟩
  | drift _ _ ih =>
    obtain ⟨history, step, hcore, hs⟩ := ih
    exact ⟨history, step, hcore, hs.core_eq, hs.observed_eq, hs.keepRunning_eq, hs.dispatched,
      hs.processes⟩
  -- The core is told of an end. It is the end of a job that was handed out, and was not told
  -- before, since each job is looked after once and its end is told or waiting to be told.
  | @handle told workers done e event hbefore _ hevent ih =>
    obtain ⟨history, step, hcore, hs⟩ := ih
    have hnodup : (workers.map (·.job.id)).Nodup :=
      (List.nodup_append.1 (hs.dispatched.nodup_iff.2 (hcore.tallied hg).nodup)).2.1
    have hids := hbefore.settles_start.perm_ids
    have hends : ∀ id ∈ event.finished?, id ∈ history.dispatched ∧ id ∉ endedIn told := by
      intro id hid
      have huntold : id ∈ e.untold := List.mem_filterMap.2 ⟨event, hevent, hid⟩
      refine ⟨hs.dispatched.mem_iff.1 (List.mem_append_right _ (hids.mem_iff.1 ?_)),
        fun htold => ?_⟩
      · exact List.mem_append_left _ (List.mem_append_right _ huntold)
      · have hboth := (List.nodup_append.1 (hids.nodup_iff.2 hnodup)).1
        exact (List.nodup_append.1 hboth).2.2 id htold id huntold rfl
    exact ⟨_, _, hcore.tell ⟨e.world, event⟩ hends, hs.handle event⟩

/-! ## Where the core asks for no more -/

/-- **All that there was to do is done** where the core asks for no more, and the core was told of
every end. -/
theorem Interleaving.all_done (hg : plan.graph.WellFormed)
    (h : Interleaving env observe (.start plan policy concurrency world observed) told workers done
      e) (hend : e.keepRunning = false) :
    (workers.map (·.job.id)).Nodup ∧ done.Perm (Worker.due workers) ∧
      ∀ w ∈ workers, ∃ t ∈ told, t.event = .jobFinished w.job.id w.outcome := by
  obtain ⟨history, step, hcore, hs⟩ := h.exists_run hg
  have hbooks := h.settles_start
  have htallied := hcore.tallied hg
  have hidle := (hcore.keepRunning_eq_false_iff hg).1 (hs.keepRunning_eq.trans hend)
  have hnodup : (workers.map (·.job.id)).Nodup :=
    (List.nodup_append.1 (hs.dispatched.nodup_iff.2 htallied.nodup)).2.1
  -- What was handed out and does not run has ended.
  have htold : ∀ w ∈ workers, w.job.id ∈ endedIn told := fun w hw => by
    by_contra hnot
    refine hidle w.job.id ((htallied.running_iff _).2 ⟨hs.dispatched.mem_iff.1 ?_, hnot⟩)
    exact List.mem_append_right _ (List.mem_map_of_mem hw)
  have hids := hbooks.perm_ids.nodup_iff.2 hnodup
  have hnothing : Worker.owed workers = [] := by
    refine List.flatMap_eq_nil_iff.2 fun w hw => List.map_eq_nil_iff.2 ?_
    by_contra hleft
    have htell := Worker.tell_mem_left (hbooks.left_suffix w hw) hleft
    have howed : w.job.id ∈ ((Worker.owed workers).filterMap Deed.told?).map (·.1) :=
      List.mem_map.2 ⟨(w.job.id, w.outcome), List.mem_filterMap.2 ⟨(w.job.id, .tell w.outcome),
        List.mem_flatMap.2 ⟨w, hw, List.mem_map_of_mem htell⟩, rfl⟩, rfl⟩
    exact (List.nodup_append.1 hids).2.2 _ (List.mem_append_left _ (htold w hw)) _ howed rfl
  have hall : done.Perm (Worker.due workers) := by
    have := hbooks.balance
    rwa [hnothing, List.append_nil] at this
  refine ⟨hnodup, hall, fun w hw => ?_⟩
  have hmem : (w.job.id, w.outcome) ∈ done.filterMap Deed.told? := by
    rw [(hall.filterMap Deed.told?).mem_iff, Worker.filterMap_told?_due]
    exact List.mem_map.2 ⟨w, hw, rfl⟩
  refine (hbooks.mem_told_or_events hmem).resolve_right fun hevent => ?_
  -- An event that the core was not told of would be a second end.
  have huntold : w.job.id ∈ e.untold := List.mem_filterMap.2 ⟨_, hevent, rfl⟩
  exact (List.nodup_append.1 (List.nodup_append.1 hids).1).2.2 _ (htold w hw) _ huntold rfl

end Start

end Turns

end IncrementalBuild
