import IncrementalBuild.Proofs.Run

/-!
# Ends that nobody waits for

A core may be told of the end of a job that does not run: the job was never handed out,
or its end was told before. The scheduler ignores it. What the core does besides could
still show, for it hands out jobs after every event, and after a success it asks the
observer first.

Handing out is no danger: after every call all that there is room for has been handed out,
so that handing out once more changes nothing. Asking the observer is one. It is asked
about a success that did not happen, may remember it, and the clean jobs in its answer are
revived. So such an end is without trace exactly when nobody is asked, as after a failure,
or the observer stays as it is and asks for nothing.

A success of a job that the plan does not have is another danger. There is nothing that the
observer could be asked about, and the core breaks off.
-/

namespace IncrementalBuild

/-- Without its first entry a map is the rest. -/
theorem OrderedMap.entries_erase_head {κ α : Type} [Ord κ] [Std.TransOrd κ]
    {m : OrderedMap κ α} {e : κ × α} {rest : List (κ × α)} (h : m.entries = e :: rest) :
    (m.erase e.1).entries = rest := by
  have hascending := m.ascending
  rw [h] at hascending
  show m.entries.filter (fun f => compare f.1 e.1 != .eq) = rest
  rw [h, List.filter_cons_of_neg (by simp)]
  refine List.filter_eq_self.2 fun f hf => ?_
  have hlt := (List.pairwise_cons.1 hascending).1 f hf
  rw [Std.OrientedCmp.gt_of_lt hlt]
  rfl

namespace Scheduler

/-! ## Handing out twice -/

/-- **Each job that is handed out leaves the ready ones and runs.** -/
theorem counts_handOut (room : Nat) (s : Scheduler) (hroom : room ≤ s.ready.size) :
    (s.handOut room).1.running = s.running + room
      ∧ (s.handOut room).1.ready.size + room = s.ready.size := by
  induction room generalizing s with
  | zero => exact ⟨rfl, rfl⟩
  | succ room ih =>
    cases hentries : s.ready.entries with
    | nil =>
      have hsize : s.ready.size = 0 := congrArg List.length hentries
      omega
    | cons e rest =>
      have hready : s.ready.toList = e.1 :: rest.map (·.1) := by
        show s.ready.entries.map (·.1) = _
        rw [hentries]
        rfl
      have hsize : s.ready.size = rest.length + 1 := congrArg List.length hentries
      have hleft : (s.handOne e.1).ready.size = rest.length :=
        congrArg List.length (OrderedMap.entries_erase_head hentries)
      have hone : (s.handOne e.1).running = s.running + 1 := rfl
      obtain ⟨hrunning, hrest⟩ := ih (s.handOne e.1) (by omega)
      rw [handOut_succ room hready]
      dsimp only
      omega

/-- **Handing out once more hands out nothing.** Either no room is left or nothing that is
ready, or the handing out has ended. -/
theorem dispatch_dispatch (s : Scheduler) (limit : Nat) :
    (s.dispatch limit).1.dispatch limit = ((s.dispatch limit).1, []) := by
  by_cases hclosed : s.isClosed = true
  · have hsame : s.dispatch limit = (s, []) := if_pos hclosed
    rw [hsame]
    exact hsame
  · let room := min (limit - s.running) s.ready.size
    have hout : s.dispatch limit = s.handOut room := if_neg hclosed
    obtain ⟨hrunning, hready⟩ := counts_handOut room s (Nat.min_le_right _ _)
    have hnone : min (limit - (s.handOut room).1.running) (s.handOut room).1.ready.size = 0 := by
      omega
    rw [hout]
    unfold dispatch
    split
    · rfl
    · rw [hnone]
      rfl

end Scheduler

namespace CoreHistory

variable {σ : Type}

/-- All that there is room for is handed out. -/
def Sated (h : CoreHistory σ) : Prop :=
  h.core.scheduler.dispatch h.core.concurrency = (h.core.scheduler, [])

theorem sated_begin (h : CoreHistory σ) : (h.call .begin).Sated :=
  Scheduler.dispatch_dispatch _ _

/-- **After every call all that there is room for is handed out**, also where the core breaks
off, as it is left as it was. -/
theorem Sated.call {h : CoreHistory σ} (hh : h.Sated) (call : CoreCall σ) :
    (h.call call).Sated := by
  cases call with
  | begin => exact h.sated_begin
  | tell observe event =>
    cases event with
    | cancelRequested => exact Scheduler.dispatch_cancel _ _
    | jobFinished id outcome =>
      unfold Sated CoreHistory.call Core.handle
      dsimp only
      split
      · exact Scheduler.dispatch_dispatch _ _
      · exact hh
      · exact Scheduler.dispatch_dispatch _ _

theorem Sated.after {h : CoreHistory σ} (hh : h.Sated) (calls : List (CoreCall σ)) :
    (h.after calls).Sated := by
  induction calls generalizing h with
  | nil => exact hh
  | cons call rest ih => exact ih (hh.call call)

theorem after_append (h : CoreHistory σ) (calls more : List (CoreCall σ)) :
    h.after (calls ++ more) = (h.after calls).after more :=
  List.foldl_append

/-! ## What is answered and what is asked -/

/-- What a core answers to some calls, one after the other. -/
def replies (h : CoreHistory σ) : List (CoreCall σ) → List CoreStep
  | [] => []
  | call :: rest => h.reply call :: replies (h.call call) rest

theorem replies_append (h : CoreHistory σ) (calls more : List (CoreCall σ)) :
    h.replies (calls ++ more) = h.replies calls ++ (h.after calls).replies more := by
  induction calls generalizing h with
  | nil => rfl
  | cons call rest ih => exact congrArg (h.reply call :: ·) (ih (h.call call))

/-- The job about which a call makes the core ask the observer. -/
def question? (h : CoreHistory σ) : CoreCall σ → Option Job
  | .tell _ (.jobFinished id .succeeded) => h.core.scheduler.plan.graph.job? id
  | _ => none

/-- The jobs about which some calls make the core ask observers, each with the state that the
observer is in then. -/
def questions (h : CoreHistory σ) : List (CoreCall σ) → List (σ × Job)
  | [] => []
  | call :: rest =>
    ((h.question? call).map fun job => (h.observed, job)).toList ++ questions (h.call call) rest

theorem questions_append (h : CoreHistory σ) (calls more : List (CoreCall σ)) :
    h.questions (calls ++ more) = h.questions calls ++ (h.after calls).questions more := by
  induction calls generalizing h with
  | nil => rfl
  | cons call rest ih =>
    show _ ++ (h.call call).questions (rest ++ more) = _
    rw [ih (h.call call), ← List.append_assoc]
    rfl

/-! ## The end of a job that does not run -/

section Unawaited

variable {h : CoreHistory σ} {id : JobId}

/-- **What the end of a job that does not run does**, if the core does not break off: the
observer is asked about a success, what it answers is revived, and jobs are handed out. -/
theorem call_of_not_running (hidle : h.core.scheduler.stateOf? id ≠ some .running)
    {observe : Observer σ} {outcome : JobOutcome}
    (hknown : ¬ (CoreCall.tell observe (.jobFinished id outcome)).Strays h.core.scheduler.plan) :
    let answer := Core.answer observe h.core.scheduler.plan.graph h.observed id outcome
    let out := (h.core.scheduler.revive answer.2).1.dispatch h.core.concurrency
    h.call (.tell observe (.jobFinished id outcome))
      = ⟨{ h.core with scheduler := out.1 }, answer.1, h.dispatched ++ out.2⟩ := by
  unfold CoreHistory.call Core.handle Core.answer
  dsimp only
  rw [Scheduler.complete_of_not_running outcome hidle]
  cases outcome with
  | failed kind =>
    rw [Scheduler.revive_nil]
    rfl
  | succeeded =>
    obtain ⟨job, hjob⟩ := JobGraph.exists_job?_of_lt (Nat.not_le.1 hknown)
    rw [hjob]
    dsimp only
    split
    · rename_i hroots
      rw [List.isEmpty_iff.1 hroots, Scheduler.revive_nil]
      rfl
    · rfl

/-- Where nobody is asked, or the observer stays as it is and asks for nothing, nothing is
answered. -/
theorem answer_of_quiet {observe : Observer σ} {outcome : JobOutcome}
    (hquiet : ∀ job ∈ h.question? (.tell observe (.jobFinished id outcome)),
      observe h.observed job = (h.observed, [])) :
    Core.answer observe h.core.scheduler.plan.graph h.observed id outcome = (h.observed, []) := by
  unfold Core.answer
  cases outcome with
  | failed kind => rfl
  | succeeded =>
    cases hjob : h.core.scheduler.plan.graph.job? id with
    | none => rfl
    | some job => exact hquiet job hjob

/-- **Then the call leaves no trace.** -/
theorem Sated.call_eq_self (hh : h.Sated) (hidle : h.core.scheduler.stateOf? id ≠ some .running)
    {observe : Observer σ} {outcome : JobOutcome}
    (hquiet : ∀ job ∈ h.question? (.tell observe (.jobFinished id outcome)),
      observe h.observed job = (h.observed, [])) :
    h.call (.tell observe (.jobFinished id outcome)) = h := by
  by_cases hstrays : (CoreCall.tell observe (.jobFinished id outcome)).Strays h.core.scheduler.plan
  · exact call_of_strays hstrays
  · rw [call_of_not_running hidle hstrays, answer_of_quiet hquiet, Scheduler.revive_nil, hh,
      List.append_nil]

end Unawaited

/-- A call that leaves no trace is answered with no jobs to be started, if it is answered. -/
theorem reply_of_call_eq_self {h : CoreHistory σ} {call : CoreCall σ} (hsame : h.call call = h)
    (hsafe : (h.reply call).crashed = false) :
    h.reply call = ⟨[], !(h.call call).core.scheduler.isFinished, false⟩ := by
  have hall : (h.call call).dispatched = h.dispatched ++ (h.reply call).dispatched := by
    cases call <;> rfl
  have hnone : (h.reply call).dispatched = [] := by
    rw [hsame] at hall
    exact List.self_eq_append_right.1 hall
  rw [← h.keepRunning_reply hsafe, ← hnone, ← hsafe]

/-- **The end of a job that does not run leaves no trace**, wherever it is told, unless it is
a success that the observer takes up, or one of a job that the plan does not have: the core,
the state of the observer and what was handed out are the same at the end as without it, and
so are all other answers, of the core and of the observer. The core itself answers that
nothing is to be started, and whether there is more to wait for is what it was before. -/
theorem after_unawaited_end (plan : BuildPlan) (policy : FailurePolicy) (concurrency : Nat)
    (observed : σ) (before after : List (CoreCall σ)) (observe : Observer σ) (id : JobId)
    (outcome : JobOutcome) :
    let first := start plan policy concurrency observed
    let h := first.after (.begin :: before)
    let unawaited : CoreCall σ := .tell observe (.jobFinished id outcome)
    h.core.scheduler.stateOf? id ≠ some .running → (h.reply unawaited).crashed = false →
    (∀ job ∈ h.question? unawaited, observe h.observed job = (h.observed, [])) →
      first.after (.begin :: before ++ unawaited :: after) = first.after (.begin :: before ++ after)
      ∧ first.replies (.begin :: before ++ after)
          = first.replies (.begin :: before) ++ h.replies after
      ∧ first.replies (.begin :: before ++ unawaited :: after)
          = first.replies (.begin :: before)
            ++ ⟨[], !h.core.scheduler.isFinished, false⟩ :: h.replies after
      ∧ first.questions (.begin :: before ++ after)
          = first.questions (.begin :: before) ++ h.questions after
      ∧ first.questions (.begin :: before ++ unawaited :: after)
          = first.questions (.begin :: before)
            ++ ((h.question? unawaited).map fun job => (h.observed, job)).toList
            ++ h.questions after := by
  intro first h unawaited hidle hsafe hquiet
  have hsated : h.Sated := first.sated_begin.after before
  have hsame : h.call unawaited = h := hsated.call_eq_self hidle hquiet
  have hreply : h.reply unawaited = ⟨[], !h.core.scheduler.isFinished, false⟩ :=
    (reply_of_call_eq_self hsame hsafe).trans (by rw [hsame])
  have hafter (calls : List (CoreCall σ)) :
      first.after (.begin :: before ++ calls) = h.after calls := first.after_append _ calls
  refine ⟨?_, first.replies_append _ after, ?_, first.questions_append _ after, ?_⟩
  · rw [hafter, hafter]
    show (h.call unawaited).after after = h.after after
    rw [hsame]
  · rw [first.replies_append]
    show _ ++ h.reply unawaited :: (h.call unawaited).replies after = _
    rw [hsame, hreply]
  · rw [first.questions_append, List.append_assoc]
    show _ ++ (_ ++ (h.call unawaited).questions after) = _
    rw [hsame]

/-! The top of the diamond ends, which asks for the right side, and its end is told once
more. An observer that remembers what it was asked about takes up the first of the two ends
only. One that does not is made to ask for the right side by the end of a job that was left
as it is. -/

namespace Diamond

open Scheduler.Diamond

/-- An observer that asks for the right side whenever it learns of another job. -/
def attentive : Observer (List JobId) := fun known job =>
  if job.id ∈ known then (known, []) else (known ++ [job.id], [2])

/-- The job succeeds and the attentive observer listens. -/
def success (id : JobId) : CoreCall (List JobId) := .tell attentive (.jobFinished id .succeeded)

/-- An observer that asks for the right side when that has succeeded. -/
def hasty : Observer Unit := fun _ job => ((), if job.id = 2 then [2] else [])

/-- The job succeeds and the hasty observer listens. -/
def hastySuccess (id : JobId) : CoreCall Unit := .tell hasty (.jobFinished id .succeeded)

end Diamond

open Scheduler.Diamond Diamond in
theorem after_unawaited_end_diamond :
    let first := start plan .failFast 0 []
    let h := first.after [.begin, success 0]
    h.core.scheduler.stateOf? 0 ≠ some .running ∧ (h.reply (success 0)).crashed = false
      ∧ (∀ job ∈ h.question? (success 0), attentive h.observed job = (h.observed, []))
      ∧ first.after [.begin, success 0, success 0, success 1, success 2]
          = first.after [.begin, success 0, success 1, success 2]
      ∧ (first.after [.begin, success 0, success 1, success 2]).dispatched = [0, 1, 2, 3] := by
  intro first h
  have hall := after_unawaited_end plan .failFast 0 [] [success 0] [success 1, success 2] attentive
    0 .succeeded (by decide +kernel) (by decide +kernel) (by decide +kernel)
  exact ⟨by decide +kernel, by decide +kernel, by decide +kernel, hall.1, by decide +kernel⟩

open Scheduler.Diamond Diamond in
/-- **A success that did not happen can start a job**: the right side is left as it is, and
after its end is told it runs. And it can break the core off, if the plan has no such job. -/
theorem exists_started_by_unawaited_end :
    let first := start plan .continueOnFailure 2 ()
    (first.after [.begin]).core.scheduler.stateOf? 2 = some .clean
      ∧ (first.after [.begin, hastySuccess 2]).core.scheduler.stateOf? 2 = some .pending
      ∧ first.replies [.begin, hastySuccess 0] = [⟨[0], true, false⟩, ⟨[1], true, false⟩]
      ∧ first.replies [.begin, hastySuccess 2, hastySuccess 0]
          = [⟨[0], true, false⟩, ⟨[], true, false⟩, ⟨[1, 2], true, false⟩]
      ∧ first.replies [.begin, hastySuccess 4] = [⟨[0], true, false⟩, .crash]
      ∧ (first.questions [.begin, hastySuccess 0]).map (·.2.id) = [0]
      ∧ (first.questions [.begin, hastySuccess 2, hastySuccess 0]).map (·.2.id) = [2, 0] := by
  intro first
  refine ⟨?_, ?_, ?_, ?_, ?_, ?_, ?_⟩ <;> decide +kernel

end CoreHistory

end IncrementalBuild
