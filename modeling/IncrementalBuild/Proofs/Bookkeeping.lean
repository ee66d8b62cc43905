import IncrementalBuild.Proofs.Scheduler

/-!
# The books of a scheduler

Three things that a scheduler keeps up to date are determined by the states of its
jobs: how many jobs are running, how many prerequisites of a pending job are still to
be done, and which jobs can be handed out. Each operation changes them by a rule of
its own: a job that starts is counted, one that ends is no longer waited for, jobs
behind a failure leave, and a revived job is counted anew and makes those behind it
wait.

Within an operation the books run ahead of the states or behind them. They are
**balanced** up to the jobs that are still to be released and those that are still to
be delayed, and each release and each delay takes one job off such a list.
-/

namespace IncrementalBuild

namespace Scheduler

/-- A job that is still to be done: it is pending or running. -/
def isOpen (s : Scheduler) (id : JobId) : Bool :=
  s.stateOf? id == some .pending || s.stateOf? id == some .running

/-- How many prerequisites of a job are still to be done. -/
def waitsFor (s : Scheduler) (id : JobId) : Nat :=
  (s.plan.graph.prerequisitesOf id).countP s.isOpen

/-- **Balanced books**, where the jobs of one list are still counted as waiting for a
prerequisite that is done, and those of another do not count yet one that has come
back. -/
structure Balanced (s : Scheduler) (owed missed : List JobId) : Prop where
  length_states : s.states.length = s.plan.graph.size
  length_remaining : s.remaining.length = s.plan.graph.size
  running_eq : s.running = s.states.count .running
  remaining_eq : ∀ j, s.stateOf? j = some .pending →
    s.remaining.getD j 0 + missed.count j = s.waitsFor j + owed.count j
  ready_iff : ∀ j, s.ready.contains j = true ↔
    s.stateOf? j = some .pending ∧ s.remaining.getD j 0 = 0

/-- The books agree with the states. -/
abbrev Counted (s : Scheduler) : Prop := s.Balanced [] []

section Open

variable {s s' : Scheduler} {id j : JobId}

/-- In a scheduler with its books in order every job has a state. -/
theorem Balanced.sound {owed missed : List JobId} (hs : s.Balanced owed missed) : s.Sound where
  length_states := hs.length_states
  pending_of_ready j h := ((hs.ready_iff j).1 h).1

/-- A job is open as long as its state is not final. -/
theorem isOpen_of_stateOf? {state : JobState} (h : s.stateOf? j = some state) :
    s.isOpen j = !state.isTerminal := by
  unfold isOpen
  rw [h]
  cases state <;> rfl

/-- Whether a job is open depends on its state. -/
theorem isOpen_congr (h : s'.stateOf? j = s.stateOf? j) : s'.isOpen j = s.isOpen j := by
  unfold isOpen
  rw [h]

/-- **What a scheduler counts when it counts afresh.** -/
theorem unfinished_eq_waitsFor (s : Scheduler) (id : JobId) :
    unfinished s.plan.graph s.states id = s.waitsFor id := by
  refine List.countP_congr fun p _ => ?_
  rw [List.getD_eq_getElem?_getD]
  unfold isOpen stateOf?
  cases s.states[p]? with
  | none => simp [JobState.isTerminal]
  | some state => cases state <;> simp [JobState.isTerminal]

/-- How many a job waits for depends on which of its prerequisites are open. -/
theorem waitsFor_congr (hplan : s'.plan = s.plan)
    (h : ∀ p ∈ s.plan.graph.prerequisitesOf id, s'.isOpen p = s.isOpen p) :
    s'.waitsFor id = s.waitsFor id := by
  unfold waitsFor
  rw [hplan]
  exact List.countP_congr fun p hp => by rw [h p hp]

end Open

/-! ## One job moves -/

/-- Two predicates that differ at one element count it apart. -/
theorem countP_eq_add_count {α : Type} [DecidableEq α] {p q : α → Bool} {a : α}
    (hp : p a = true) (hq : q a = false) (h : ∀ b, b ≠ a → p b = q b) (l : List α) :
    l.countP p = l.countP q + l.count a := by
  induction l with
  | nil => rfl
  | cons b rest ih =>
    rw [List.countP_cons, List.countP_cons, List.count_cons, ih]
    by_cases hb : b = a
    · subst hb
      simp only [hp, hq, if_true, beq_self_eq_true, Bool.false_eq_true, if_false]
      omega
    · have hne : ¬(b == a) = true := fun e => hb (beq_iff_eq.1 e)
      rw [h b hb, if_neg hne]
      omega

/-- **A job that is open before and closed after is waited for once less**, by each of its
dependents. -/
theorem waitsFor_eq_add {s s' : Scheduler} {id : JobId} (hplan : s'.plan = s.plan)
    (hg : s.plan.graph.WellFormed) (hopen : s.isOpen id = true) (hclosed : s'.isOpen id = false)
    (hrest : ∀ b, b ≠ id → s.isOpen b = s'.isOpen b) (j : JobId) :
    s.waitsFor j = s'.waitsFor j + (s.plan.graph.dependentsOf id).count j := by
  unfold waitsFor
  rw [hplan, ← hg.count_prerequisitesOf]
  exact countP_eq_add_count hopen hclosed hrest _

/-- **One job has gone from one state into another**, and no other has moved. -/
structure Moved (s s' : Scheduler) (id : JobId) (old new : JobState) : Prop where
  plan_eq : s'.plan = s.plan
  stood : s.stateOf? id = some old
  states_eq : s'.states = s.states.set id new

namespace Moved

variable {s s' : Scheduler} {id : JobId} {old new : JobState}

/-- The states after a move. -/
theorem stateOf?_eq (h : Moved s s' id old new) (j : JobId) :
    s'.stateOf? j = if j = id then some new else s.stateOf? j := by
  unfold stateOf?
  rw [h.states_eq, getElem?_set_states, h.stood]
  rfl

/-- The job that was moved has its new state. -/
theorem stands (h : Moved s s' id old new) : s'.stateOf? id = some new := by
  rw [h.stateOf?_eq, if_pos rfl]

/-- Other jobs keep their states. -/
theorem stateOf?_of_ne (h : Moved s s' id old new) {j : JobId} (hj : j ≠ id) :
    s'.stateOf? j = s.stateOf? j := by
  rw [h.stateOf?_eq, if_neg hj]

/-- No state is lost by a move. -/
theorem length_states (h : Moved s s' id old new)
    (hs : s.states.length = s.plan.graph.size) : s'.states.length = s'.plan.graph.size := by
  rw [h.states_eq, List.length_set, h.plan_eq]
  exact hs

/-- How many jobs run changes by the job that moves. -/
theorem count_running (h : Moved s s' id old new) :
    s'.states.count .running + (if old = .running then 1 else 0)
      = s.states.count .running + (if new = .running then 1 else 0) := by
  obtain ⟨hid, hold⟩ := List.getElem?_eq_some_iff.1 h.stood
  -- `List.count_set` subtracts, so a job that ran has to be among those counted.
  have hpos : old = .running → 0 < s.states.count .running := fun e =>
    List.count_pos_iff.2 (e ▸ hold ▸ List.getElem_mem hid)
  rw [h.states_eq, List.count_set hid, hold]
  simp only [beq_iff_eq]
  by_cases hrun : old = .running
  · have := hpos hrun
    rw [if_pos hrun]
    omega
  · rw [if_neg hrun]
    omega

/-- A job that stays open or stays closed is waited for as before. -/
theorem waitsFor_eq (h : Moved s s' id old new) (hsame : new.isTerminal = old.isTerminal)
    (j : JobId) : s'.waitsFor j = s.waitsFor j := by
  refine waitsFor_congr h.plan_eq fun p _ => ?_
  by_cases hp : p = id
  · rw [hp, isOpen_of_stateOf? h.stands, isOpen_of_stateOf? h.stood, hsame]
  · exact isOpen_congr (h.stateOf?_of_ne hp)

/-- **A job that closes is no longer waited for**, by any of its dependents. -/
theorem waitsFor_of_closed (h : Moved s s' id old new) (hg : s.plan.graph.WellFormed)
    (hold : old.isTerminal = false) (hnew : new.isTerminal = true) (j : JobId) :
    s.waitsFor j = s'.waitsFor j + (s.plan.graph.dependentsOf id).count j :=
  waitsFor_eq_add h.plan_eq hg (by rw [isOpen_of_stateOf? h.stood, hold]; rfl)
    (by rw [isOpen_of_stateOf? h.stands, hnew]; rfl)
    (fun _ hb => (isOpen_congr (h.stateOf?_of_ne hb)).symm) j

/-- **A job that opens again is waited for once more**, by each of its dependents. -/
theorem waitsFor_of_opened (h : Moved s s' id old new) (hg : s.plan.graph.WellFormed)
    (hold : old.isTerminal = true) (hnew : new.isTerminal = false) (j : JobId) :
    s'.waitsFor j = s.waitsFor j + (s.plan.graph.dependentsOf id).count j := by
  have hg' : s'.plan.graph.WellFormed := h.plan_eq ▸ hg
  rw [← h.plan_eq]
  exact waitsFor_eq_add h.plan_eq.symm hg' (by rw [isOpen_of_stateOf? h.stands, hnew]; rfl)
    (by rw [isOpen_of_stateOf? h.stood, hold]; rfl)
    (fun _ hb => isOpen_congr (h.stateOf?_of_ne hb)) j

end Moved

/-! ## The beginning -/

/-- The members of a list are those of its set. -/
theorem contains_ofList_iff {l : List JobId} {j : JobId} :
    (OrderedSet.ofList l).contains j = true ↔ j ∈ l := by
  rw [OrderedSet.contains_iff_mem_toList, OrderedSet.mem_toList_ofList]

/-- What is left without a member are the others. -/
theorem contains_erase_iff {r : OrderedSet JobId} {id j : JobId} :
    OrderedMap.contains (r.erase id) j = true ↔ j ≠ id ∧ r.contains j = true := by
  rw [OrderedMap.contains_erase, Bool.and_eq_true, bne_iff_ne, ne_eq, Std.compare_eq_iff_eq]
  exact and_congr_left' (not_congr eq_comm)

/-- What is there with one more member is that one or was there. -/
theorem contains_add_iff {r : OrderedSet JobId} {id j : JobId} :
    (r.add id).contains j = true ↔ j = id ∨ r.contains j = true := by
  rw [OrderedSet.contains_add, Bool.or_eq_true, beq_iff_eq, Std.compare_eq_iff_eq]
  exact or_congr_left eq_comm

/-- **A scheduler begins with its books in order.** -/
theorem counted_start (plan : BuildPlan) (policy : FailurePolicy) :
    (start plan policy).Counted where
  length_states := (sound_start plan policy).length_states
  length_remaining := by
    show (plan.graph.ids.map _).length = plan.graph.size
    rw [List.length_map, JobGraph.ids, List.length_range]
  -- Nothing runs at the beginning.
  running_eq := by
    refine (List.count_eq_zero_of_not_mem fun h => ?_).symm
    obtain ⟨d, -, hd⟩ := List.mem_map.1 h
    split at hd <;> cases hd
  -- The count of a pending job was taken from the states that are there.
  remaining_eq j hj := by
    have hlt : j < plan.graph.size := (sound_start plan policy).lt_size hj
    have hpending : (start plan policy).states.getD j .clean = .pending := by
      rw [List.getD_eq_getElem?_getD]
      exact congrArg (·.getD .clean) hj
    rw [← unfinished_eq_waitsFor, List.getD_eq_getElem?_getD]
    show ((plan.graph.ids.map _)[j]?).getD 0 + 0 = _ + 0
    rw [List.getElem?_map, JobGraph.ids, List.getElem?_range hlt]
    show (if (start plan policy).states.getD j .clean == .pending then _ else 0) + 0 = _
    rw [if_pos (beq_iff_eq.2 hpending)]
    rfl
  -- Ready are the pending jobs with a count of zero.
  ready_iff j := by
    show (OrderedSet.ofList (plan.graph.ids.filter fun id =>
      (start plan policy).states.getD id .clean == .pending
        && (start plan policy).remaining.getD id 0 == 0)).contains j = true ↔ _
    rw [contains_ofList_iff, List.mem_filter, Bool.and_eq_true, beq_iff_eq, beq_iff_eq,
      JobGraph.mem_ids, List.getD_eq_getElem?_getD]
    unfold stateOf?
    constructor
    · rintro ⟨-, hstate, hzero⟩
      refine ⟨?_, hzero⟩
      cases h : (start plan policy).states[j]? with
      | none =>
        rw [h] at hstate
        cases hstate
      | some state =>
        rw [h] at hstate
        exact congrArg some hstate
    · rintro ⟨hstate, hzero⟩
      exact ⟨(sound_start plan policy).lt_size hstate, by rw [hstate]; rfl, hzero⟩

/-! ## Handing out -/

/-- The scheduler once a job is handed out. -/
def handOne (s : Scheduler) (id : JobId) : Scheduler :=
  { s with
    states := s.states.set id .running
    ready := s.ready.erase id
    running := s.running + 1 }

/-- Handing out goes through the ready jobs in their order. -/
theorem handOut_succ {s : Scheduler} {id : JobId} {rest : List JobId} (room : Nat)
    (h : s.ready.toList = id :: rest) :
    s.handOut (room + 1)
      = (((s.handOne id).handOut room).1, id :: ((s.handOne id).handOut room).2) := by
  rw [handOut, h]
  rfl

/-- A job that is handed out moves from pending to running. -/
theorem moved_handOne {s : Scheduler} {id : JobId} (h : s.stateOf? id = some .pending) :
    Moved s (s.handOne id) id .pending .running :=
  ⟨rfl, h, rfl⟩

/-- **Handing out a ready job keeps the books.** -/
theorem Balanced.handOne {s : Scheduler} (hs : s.Counted) {id : JobId}
    (hid : s.ready.contains id = true) : (s.handOne id).Counted := by
  have hpending := ((hs.ready_iff id).1 hid).1
  have hmoved := moved_handOne hpending
  have hstill {j : JobId} (hj : (s.handOne id).stateOf? j = some .pending) :
      j ≠ id ∧ s.stateOf? j = some .pending := by
    rw [hmoved.stateOf?_eq] at hj
    split at hj
    · cases hj
    · exact ⟨‹_›, hj⟩
  constructor
  case length_states => exact hmoved.length_states hs.length_states
  case length_remaining => exact hs.length_remaining
  case running_eq =>
    have := hmoved.count_running
    rw [if_neg (by decide), if_pos rfl, ← hs.running_eq] at this
    exact this.symm
  case remaining_eq =>
    intro j hj
    rw [hmoved.waitsFor_eq rfl]
    exact hs.remaining_eq j (hstill hj).2
  case ready_iff =>
    intro j
    refine contains_erase_iff.trans ?_
    rw [hs.ready_iff]
    constructor
    · rintro ⟨hne, hstate, hzero⟩
      exact ⟨(hmoved.stateOf?_of_ne hne).trans hstate, hzero⟩
    · rintro ⟨hstate, hzero⟩
      exact ⟨(hstill hstate).1, (hstill hstate).2, hzero⟩

/-- **Handing out some jobs keeps the books in order.** -/
theorem Balanced.handOut (room : Nat) {s : Scheduler} (hs : s.Counted) :
    (s.handOut room).1.Counted := by
  induction room generalizing s with
  | zero => exact hs
  | succ room ih =>
    cases hready : s.ready.toList with
    | nil =>
      unfold Scheduler.handOut
      rw [hready]
      exact hs
    | cons id rest =>
      rw [handOut_succ room hready]
      exact ih (hs.handOne (OrderedSet.contains_iff_mem_toList.2
        (by rw [hready]; exact List.mem_cons_self)))

/-- **A dispatch keeps the books in order.** -/
theorem Balanced.dispatch (limit : Nat) {s : Scheduler} (hs : s.Counted) :
    (s.dispatch limit).1.Counted := by
  unfold Scheduler.dispatch
  split
  · exact hs
  · exact hs.handOut _

/-- **What is handed out waits for nothing.** -/
theorem Balanced.waitsFor_of_mem_handOut (room : Nat) {s : Scheduler} (hs : s.Counted)
    {j : JobId} (hj : j ∈ (s.handOut room).2) : s.waitsFor j = 0 := by
  induction room generalizing s with
  | zero => exact absurd hj List.not_mem_nil
  | succ room ih =>
    cases hready : s.ready.toList with
    | nil =>
      unfold Scheduler.handOut at hj
      rw [hready] at hj
      exact absurd hj List.not_mem_nil
    | cons id rest =>
      have hid : s.ready.contains id = true :=
        OrderedSet.contains_iff_mem_toList.2 (by rw [hready]; exact List.mem_cons_self)
      obtain ⟨hpending, hzero⟩ := (hs.ready_iff id).1 hid
      rw [handOut_succ room hready] at hj
      rcases List.mem_cons.1 hj with rfl | hj
      · have heq : s.remaining.getD j 0 = s.waitsFor j := hs.remaining_eq j hpending
        exact heq.symm.trans hzero
      · have hzero := ih (hs.handOne hid) hj
        rwa [(moved_handOne hpending).waitsFor_eq rfl] at hzero

/-- What a job that is handed out waits for is not open any more. -/
theorem Balanced.isOpen_of_mem_dispatch {limit : Nat} {s : Scheduler} (hs : s.Counted)
    {j p : JobId} (hj : j ∈ (s.dispatch limit).2) (hp : p ∈ s.plan.graph.prerequisitesOf j) :
    s.isOpen p = false := by
  unfold Scheduler.dispatch at hj
  split at hj
  · exact absurd hj List.not_mem_nil
  · exact Bool.eq_false_iff.2 (List.countP_eq_zero.1 (hs.waitsFor_of_mem_handOut _ hj) p hp)

/-- Handing out closes no job and opens none. -/
theorem HandedOut.isOpen_eq {s s' : Scheduler} {ids : List JobId} (h : HandedOut s s' ids)
    (j : JobId) : s'.isOpen j = s.isOpen j := by
  by_cases hj : j ∈ ids
  · rw [isOpen_of_stateOf? (h.is_running j hj), isOpen_of_stateOf? (h.was_pending j hj)]
    rfl
  · exact isOpen_congr (h.others j hj)

/-! ## Releasing what waited -/

/-- The end of a running job moves it to its last state. -/
theorem moved_close {s : Scheduler} {id : JobId} (h : s.stateOf? id = some .running)
    (state : JobState) : Moved s (s.close id state) id .running state :=
  ⟨rfl, h, rfl⟩

/-- **A count that is taken down for a pending job is positive**, each time a list of
jobs is released. -/
def ReleasesExactly (s : Scheduler) : List JobId → Prop
  | [] => True
  | id :: rest =>
    (s.stateOf? id = some .pending → 0 < s.remaining.getD id 0)
      ∧ (s.releaseOne id).1.ReleasesExactly rest

/-- A running job is counted. -/
theorem Balanced.running_pos {s : Scheduler} {owed missed : List JobId}
    (hs : s.Balanced owed missed) {id : JobId} (h : s.stateOf? id = some .running) :
    0 < s.running := by
  rw [hs.running_eq]
  exact List.count_pos_iff.2 (List.mem_of_getElem? h)

/-- How many jobs run, once one has ended. -/
theorem Balanced.running_close {s : Scheduler} {owed missed : List JobId}
    (hs : s.Balanced owed missed) {id : JobId} (h : s.stateOf? id = some .running)
    {state : JobState} (hstate : state ≠ .running) :
    (s.close id state).running = (s.close id state).states.count .running := by
  have := (moved_close h state).count_running
  rw [if_pos rfl, if_neg hstate] at this
  show s.running - 1 = _
  rw [hs.running_eq]
  omega

/-- A count that is set is found at its job, and the others are as they were. -/
theorem remaining_getD_set {s : Scheduler} (hlen : s.remaining.length = s.plan.graph.size)
    {id : JobId} (hid : id < s.plan.graph.size) (n : Nat) (j : JobId) :
    (s.remaining.set id n).getD j 0 = if j = id then n else s.remaining.getD j 0 := by
  rw [List.getD_eq_getElem?_getD, List.getD_eq_getElem?_getD, List.getElem?_set]
  by_cases h : id = j
  · subst h
    rw [if_pos rfl, if_pos (hlen ▸ hid), if_pos rfl]
    rfl
  · rw [if_neg h, if_neg (Ne.symm h)]

/-- **When a job has succeeded, all that wait for it are still to be released.** -/
theorem Balanced.close {s : Scheduler} (hs : s.Counted) (hg : s.plan.graph.WellFormed)
    {id : JobId} (h : s.stateOf? id = some .running) :
    (s.close id .succeeded).Balanced (s.plan.graph.dependentsOf id) [] := by
  have hmoved := moved_close h .succeeded
  have hpending (j : JobId) : (s.close id .succeeded).stateOf? j = some .pending ↔
      s.stateOf? j = some .pending := by
    by_cases hj : j = id
    · rw [hj, hmoved.stands, h]
      decide
    · rw [hmoved.stateOf?_of_ne hj]
  refine ⟨hmoved.length_states hs.length_states, hs.length_remaining,
    hs.running_close h (by decide), fun j hj => ?_, fun j => ?_⟩
  · have hwait := hmoved.waitsFor_of_closed hg rfl rfl j
    have heq := hs.remaining_eq j ((hpending j).1 hj)
    rw [← hwait]
    exact heq
  · rw [hpending]
    exact hs.ready_iff j

/-- **Releasing one job** takes it off the list of those still to be released. -/
theorem Balanced.releaseOne {s : Scheduler} {id : JobId} {owed : List JobId}
    (hs : s.Balanced (id :: owed) []) : (s.releaseOne id).1.Balanced owed [] := by
  unfold Scheduler.releaseOne
  split
  · rename_i hpending
    have hpending : s.stateOf? id = some .pending := beq_iff_eq.1 hpending
    have hset (j : JobId) := remaining_getD_set hs.length_remaining (hs.sound.lt_size hpending)
      (s.remaining.getD id 0 - 1) j
    have heq := hs.remaining_eq id hpending
    rw [List.count_cons_self, List.count_nil] at heq
    have hidle : s.ready.contains id = false := by
      rw [← Bool.not_eq_true]
      intro h
      have := ((hs.ready_iff id).1 h).2
      omega
    -- The books after the count is taken down, whatever becomes of the ready jobs.
    have hbooks (r : OrderedSet JobId) (hr : ∀ j, r.contains j = true ↔
        s.ready.contains j = true ∨ j = id ∧ s.remaining.getD id 0 - 1 = 0) :
        Balanced { s with
          remaining := s.remaining.set id (s.remaining.getD id 0 - 1), ready := r } owed [] := by
      constructor
      case length_states => exact hs.length_states
      case length_remaining => exact List.length_set.trans hs.length_remaining
      case running_eq => exact hs.running_eq
      case remaining_eq =>
        intro j hj
        show (s.remaining.set id _).getD j 0 + _ = s.waitsFor j + _
        rw [hset]
        by_cases hid : j = id
        · subst hid
          rw [if_pos rfl, List.count_nil]
          omega
        · rw [if_neg hid, hs.remaining_eq j hj, List.count_cons_of_ne (Ne.symm hid)]
      case ready_iff =>
        intro j
        refine (hr j).trans ?_
        show _ ↔ s.stateOf? j = _ ∧ (s.remaining.set id _).getD j 0 = 0
        rw [hset]
        by_cases hid : j = id
        · subst hid
          simp [hidle, hpending]
        · simp [hid, hs.ready_iff]
    dsimp only
    split
    · rename_i hzero
      rw [Bool.and_eq_true, decide_eq_true_eq] at hzero
      refine hbooks _ fun j => contains_add_iff.trans (or_comm.trans (or_congr_right ?_))
      exact (and_iff_left hzero.1).symm
    · rename_i hzero
      refine hbooks s.ready fun j => ⟨.inl, fun h => h.resolve_right fun h => hzero ?_⟩
      rw [Bool.and_eq_true, decide_eq_true_eq, hidle]
      exact ⟨h.2, rfl⟩
  · rename_i hpending
    refine ⟨hs.length_states, hs.length_remaining, hs.running_eq, fun j hj => ?_, hs.ready_iff⟩
    have hne : id ≠ j := fun e => hpending (beq_iff_eq.2 (e ▸ hj))
    rw [hs.remaining_eq j hj, List.count_cons_of_ne hne]

/-- When all that is owed has been released the books are in order again. -/
theorem Balanced.releaseAll {owed : List JobId} {s : Scheduler} (hs : s.Balanced owed []) :
    (s.releaseAll owed).1.Counted := by
  induction owed generalizing s with
  | nil => exact hs
  | cons id rest ih => exact ih hs.releaseOne

/-- **No count falls below zero**: a job that is still to be released has a positive
count. -/
theorem Balanced.releasesExactly {owed : List JobId} {s : Scheduler}
    (hs : s.Balanced owed []) : s.ReleasesExactly owed := by
  induction owed generalizing s with
  | nil => trivial
  | cons id rest ih =>
    refine ⟨fun hpending => ?_, ih hs.releaseOne⟩
    have := hs.remaining_eq id hpending
    rw [List.count_cons_self, List.count_nil] at this
    omega

/-! ## Blocking what is behind a failure -/

/-- **Blocking leaves the counts alone** and takes the blocked jobs from the ready ones. -/
theorem blockAll_counts {s : Scheduler} (hs : s.Sound) (ids : List JobId) :
    (s.blockAll ids).1.remaining = s.remaining ∧ (s.blockAll ids).1.running = s.running ∧
      (s.blockAll ids).1.states.count .running = s.states.count .running ∧
      ∀ j, (s.blockAll ids).1.ready.contains j = true ↔
        s.ready.contains j = true ∧ ¬(j ∈ ids ∧ s.stateOf? j = some .pending) := by
  induction ids generalizing s with
  | nil => exact ⟨rfl, rfl, rfl, fun j => by simp [blockAll]⟩
  | cons id rest ih =>
    unfold blockAll
    split
    · rename_i hpending
      have hpending : s.stateOf? id = some .pending := beq_iff_eq.1 hpending
      let next : Scheduler :=
        { s with states := s.states.set id .blocked, ready := s.ready.erase id }
      have hmoved : Moved s next id .pending .blocked := ⟨rfl, hpending, rfl⟩
      have hnext : next.Sound :=
        ⟨hmoved.length_states hs.length_states, fun j hj => by
          obtain ⟨hne, hj⟩ := contains_erase_iff.1 hj
          exact (hmoved.stateOf?_of_ne hne).trans (hs.pending_of_ready j hj)⟩
      obtain ⟨hremaining, hrunning, hcount, hready⟩ := ih hnext
      refine ⟨hremaining, hrunning, hcount.trans hmoved.count_running, fun j => ?_⟩
      refine (hready j).trans ((and_congr_left' contains_erase_iff).trans ?_)
      by_cases hj : j = id
      · subst hj
        simp [hpending]
      · simp [hj, hmoved.stateOf?_of_ne hj]
    · rename_i hpending
      obtain ⟨hremaining, hrunning, hcount, hready⟩ := ih hs
      refine ⟨hremaining, hrunning, hcount, fun j => (hready j).trans ?_⟩
      by_cases hj : j = id
      · subst hj
        have hne : s.stateOf? j ≠ some .pending := fun h => hpending (beq_iff_eq.2 h)
        simp [hne]
      · simp [hj]

/-- **When a job has failed, the books are in order once all behind it is blocked.** A job
that stays pending waits for none of the jobs that are closed. -/
theorem Balanced.blockAll {s : Scheduler} (hs : s.Counted) (hg : s.plan.graph.WellFormed)
    {id : JobId} (h : s.stateOf? id = some .running) :
    ((s.close id .failed).blockAll
      (s.plan.graph.transitiveDependents id).toList).1.Counted := by
  have hmoved := moved_close h .failed
  have hclosed := sound_close hs.sound h .failed
  obtain ⟨hsound, hplan, hstates⟩ :=
    blockAll_spec hclosed (s.plan.graph.transitiveDependents id).toList
  obtain ⟨hremaining, hrunning, hcount, hready⟩ :=
    blockAll_counts hclosed (s.plan.graph.transitiveDependents id).toList
  have hpending (j : JobId) :
      ((s.close id .failed).blockAll (s.plan.graph.transitiveDependents id).toList).1.stateOf? j
        = some .pending ↔
      s.stateOf? j = some .pending ∧ j ∉ (s.plan.graph.transitiveDependents id).toList := by
    rw [hstates]
    by_cases hj : j = id
    · rw [hj, hmoved.stands, h]
      simp
    · rw [hmoved.stateOf?_of_ne hj]
      split
      · rename_i hb
        simp [hb.1]
      · rename_i hb
        exact ⟨fun hp => ⟨hp, fun hm => hb ⟨hm, hp⟩⟩, And.left⟩
  constructor
  case length_states => exact hsound.length_states
  case length_remaining =>
    rw [hremaining, hplan]
    exact hs.length_remaining
  case running_eq =>
    rw [hrunning, hcount]
    exact hs.running_close h (by decide)
  case remaining_eq =>
    intro j hj
    obtain ⟨hp, hnot⟩ := (hpending j).1 hj
    -- Whatever such a job waits for is not behind the failure, so it has not moved.
    have hwait : ((s.close id .failed).blockAll
        (s.plan.graph.transitiveDependents id).toList).1.waitsFor j = s.waitsFor j := by
      refine waitsFor_congr hplan fun p hpre => isOpen_congr ?_
      have hpj : j ∈ s.plan.graph.dependentsOf p := hg.mem_dependentsOf_iff.2 hpre
      rw [hstates, if_neg fun hb => hnot (hg.transitiveDependents_closed hb.1 hpj)]
      refine hmoved.stateOf?_of_ne fun e => hnot (hg.mem_transitiveDependents (e ▸ hpj))
    rw [hremaining, hwait]
    exact hs.remaining_eq j hp
  case ready_iff =>
    intro j
    rw [hready, hpending, hremaining]
    show s.ready.contains j = true ∧ _ ↔ (_ ∧ _) ∧ s.remaining.getD j 0 = 0
    rw [hs.ready_iff]
    constructor
    · rintro ⟨⟨hp, hzero⟩, hb⟩
      refine ⟨⟨hp, fun hm => hb ⟨hm, ?_⟩⟩, hzero⟩
      refine (hmoved.stateOf?_of_ne fun e => ?_).trans hp
      rw [e, h] at hp
      cases hp
    · rintro ⟨⟨hp, hnot⟩, hzero⟩
      exact ⟨⟨hp, hzero⟩, fun hb => hnot hb.1⟩

/-! ## Ends of jobs -/

/-- **Learning how a job ended keeps the books.** -/
theorem Balanced.complete {s : Scheduler} (hs : s.Counted) (hg : s.plan.graph.WellFormed)
    (id : JobId) (outcome : JobOutcome) : (s.complete id outcome).1.Counted := by
  by_cases h : s.stateOf? id = some .running
  · cases outcome with
    | succeeded =>
      rw [complete_succeeded h]
      exact (hs.close hg h).releaseAll
    | failed kind =>
      have hblocked := hs.blockAll hg h
      unfold Scheduler.complete
      rw [if_neg fun hne => hne h]
      exact ⟨hblocked.length_states, hblocked.length_remaining, hblocked.running_eq,
        hblocked.remaining_eq, hblocked.ready_iff⟩
  · rw [complete_of_not_running outcome h]
    exact hs

/-! ## Reviving -/

/-- **Delaying one job** takes it off the list of those still to be delayed. -/
theorem Balanced.delay {s : Scheduler} {id : JobId} {missed : List JobId}
    (hs : s.Balanced [] (id :: missed)) : (s.delay id).Balanced [] missed := by
  unfold Scheduler.delay
  split
  · rename_i hpending
    have hpending : s.stateOf? id = some .pending := beq_iff_eq.1 hpending
    have hset (j : JobId) := remaining_getD_set hs.length_remaining (hs.sound.lt_size hpending)
      (s.remaining.getD id 0 + 1) j
    constructor
    case length_states => exact hs.length_states
    case length_remaining => exact List.length_set.trans hs.length_remaining
    case running_eq => exact hs.running_eq
    case remaining_eq =>
      intro j hj
      have heq := hs.remaining_eq j hj
      show (s.remaining.set id _).getD j 0 + _ = s.waitsFor j + _
      rw [hset]
      by_cases hid : j = id
      · subst hid
        rw [List.count_cons_self] at heq
        rw [if_pos rfl]
        omega
      · rwa [if_neg hid, ← List.count_cons_of_ne (Ne.symm hid)]
    case ready_iff =>
      intro j
      refine contains_erase_iff.trans ?_
      show _ ↔ s.stateOf? j = _ ∧ (s.remaining.set id _).getD j 0 = 0
      rw [hset]
      by_cases hid : j = id
      · simp [hid]
      · simp [hid, hs.ready_iff]
  · rename_i hpending
    refine ⟨hs.length_states, hs.length_remaining, hs.running_eq, fun j hj => ?_, hs.ready_iff⟩
    have hne : id ≠ j := fun e => hpending (beq_iff_eq.2 (e ▸ hj))
    rw [← hs.remaining_eq j hj, List.count_cons_of_ne hne]

/-- When all that was missed has been counted the books are in order again. -/
theorem Balanced.foldl_delay {missed : List JobId} {s : Scheduler}
    (hs : s.Balanced [] missed) : (missed.foldl Scheduler.delay s).Counted := by
  induction missed generalizing s with
  | nil => exact hs
  | cons id rest ih => exact ih hs.delay

/-- Blocking a clean job keeps the books: nothing has waited for it, and nothing does. -/
theorem Balanced.block {s : Scheduler} (hs : s.Counted) {id : JobId} (hclean : s.isClean id) :
    Counted { s with states := s.states.set id .blocked } := by
  have hmoved : Moved s { s with states := s.states.set id .blocked } id .clean .blocked :=
    ⟨rfl, hclean, rfl⟩
  have hpending (j : JobId) :
      (s.states.set id .blocked)[j]? = some .pending ↔ s.stateOf? j = some .pending := by
    refine (Eq.congr_left (hmoved.stateOf?_eq j)).trans ?_
    by_cases hj : j = id
    · rw [hj, if_pos rfl, show s.stateOf? id = some .clean from hclean]
      decide
    · rw [if_neg hj]
  refine ⟨hmoved.length_states hs.length_states, hs.length_remaining,
    hs.running_eq.trans hmoved.count_running.symm, fun j hj => ?_, fun j => ?_⟩
  · rw [hmoved.waitsFor_eq rfl]
    exact hs.remaining_eq j ((hpending j).1 hj)
  · exact (hs.ready_iff j).trans (and_congr_left' (hpending j).symm)

/-- The scheduler once a clean job is pending, and what it waits for is counted afresh. -/
def reopen (s : Scheduler) (id : JobId) : Scheduler :=
  let waiting := unfinished s.plan.graph (s.states.set id .pending) id
  { s with
    states := s.states.set id .pending
    remaining := s.remaining.set id waiting
    ready := if waiting = 0 then s.ready.add id else s.ready }

/-- **When a job is opened again, the pending jobs that wait for it are still to be
delayed.** -/
theorem Balanced.reopen {s : Scheduler} (hs : s.Counted) (hg : s.plan.graph.WellFormed)
    {id : JobId} (hclean : s.isClean id) {later : List JobId} (hself : id ∉ later)
    (hlater : ∀ j, s.stateOf? j = some .pending →
      later.count j = (s.plan.graph.dependentsOf id).count j) :
    (s.reopen id).Balanced [] later := by
  -- What is set for `id` itself is right at once, for it is counted when it is opened. The
  -- others still have their old counts, which are by those too low that `later` lists.
  have hmoved : Moved s (s.reopen id) id .clean .pending := ⟨rfl, hclean, rfl⟩
  have hcount : unfinished s.plan.graph (s.states.set id .pending) id = (s.reopen id).waitsFor id :=
    unfinished_eq_waitsFor (s.reopen id) id
  have hset (j : JobId) : (s.reopen id).remaining.getD j 0
      = if j = id then (s.reopen id).waitsFor id else s.remaining.getD j 0 := by
    rw [← hcount]
    exact remaining_getD_set hs.length_remaining (hs.sound.lt_size hclean) _ j
  have hready : (s.reopen id).ready
      = if (s.reopen id).waitsFor id = 0 then s.ready.add id else s.ready := by
    rw [← hcount]
    rfl
  constructor
  case length_states => exact hmoved.length_states hs.length_states
  case length_remaining => exact List.length_set.trans hs.length_remaining
  case running_eq => exact hs.running_eq.trans hmoved.count_running.symm
  case remaining_eq =>
    intro j hj
    rw [hset, List.count_nil]
    by_cases hid : j = id
    · rw [hid, if_pos rfl, List.count_eq_zero_of_not_mem hself]
    · rw [hmoved.stateOf?_of_ne hid] at hj
      have heq : s.remaining.getD j 0 = s.waitsFor j := hs.remaining_eq j hj
      rw [if_neg hid, hmoved.waitsFor_of_opened hg rfl rfl j, heq, hlater j hj]
      rfl
  case ready_iff =>
    intro j
    rw [hset, hmoved.stateOf?_eq, hready]
    by_cases hid : j = id
    · have hidle : s.ready.contains j = false := by
        rw [← Bool.not_eq_true, hs.ready_iff, hid, show s.stateOf? id = some .clean from hclean]
        simp
      rw [if_pos hid, if_pos hid]
      split
      · rename_i hzero
        exact iff_of_true (contains_add_iff.2 (.inl hid)) ⟨rfl, hzero⟩
      · rename_i hzero
        exact iff_of_false (by rw [hidle]; decide) fun h => hzero h.2
    -- Another job is ready as it was before.
    · rw [if_neg hid, if_neg hid, ← hs.ready_iff]
      split
      · exact contains_add_iff.trans (or_iff_right hid)
      · rfl

/-- **Reviving one job keeps the books**, when those of the selected jobs that are pending
already do not wait for it. -/
theorem Balanced.reviveOne {s : Scheduler} (hs : s.Counted) (hg : s.plan.graph.WellFormed)
    {selected : List JobId} (step : SchedulerStep) {id : JobId} (hid : id ∈ selected)
    (hclean : s.isClean id)
    (hearlier : ∀ j ∈ selected, s.stateOf? j = some .pending →
      id ∉ s.plan.graph.prerequisitesOf j) :
    (Scheduler.reviveOne selected (s, step) id).1.Counted := by
  unfold Scheduler.reviveOne
  dsimp only
  split
  · exact hs.block hclean
  · refine (hs.reopen hg hclean (fun h => ?_) fun j hj => ?_).foldl_delay
    · simpa [hid] using (List.mem_filter.1 h).2
    · -- A selected job that is pending already does not wait, so leaving it out is right.
      by_cases hsel : j ∈ selected
      · have hno : j ∉ s.plan.graph.dependentsOf id := fun h =>
          hearlier j hsel hj (hg.mem_dependentsOf_iff.1 h)
        rw [List.count_eq_zero_of_not_mem hno,
          List.count_eq_zero_of_not_mem fun h => hno (List.mem_filter.1 h).1]
      · exact List.count_filter (by simpa using hsel)

/-- Reviving jobs one after the other keeps the books, when each comes behind its
prerequisites. -/
theorem Balanced.foldl_reviveOne {selected ids : List JobId} {s : Scheduler}
    (hs : s.Counted) (hg : s.plan.graph.WellFormed) (step : SchedulerStep) (hn : ids.Nodup)
    (hsub : ∀ id ∈ ids, id ∈ selected) (hclean : ∀ id ∈ ids, s.isClean id)
    (horder : ids.Pairwise fun a b => b ∉ s.plan.graph.prerequisitesOf a)
    (hdone : ∀ j ∈ selected, j ∉ ids → ∀ id ∈ ids, id ∉ s.plan.graph.prerequisitesOf j) :
    (ids.foldl (Scheduler.reviveOne selected) (s, step)).1.Counted := by
  induction ids generalizing s step with
  | nil => exact hs
  | cons id rest ih =>
    obtain ⟨hnot, hrest⟩ := List.nodup_cons.1 hn
    obtain ⟨hfirst, hlater⟩ := List.pairwise_cons.1 horder
    have hid := hclean id List.mem_cons_self
    have hone := revived_reviveOne hs.sound selected step hid
    have hcounted := hs.reviveOne hg step (hsub id List.mem_cons_self) hid fun j hj hp =>
      hdone j hj (fun hm => by
        have := hclean j hm
        rw [isClean, hp] at this
        cases this) id List.mem_cons_self
    rw [List.foldl_cons]
    refine ih hcounted (hone.plan_eq ▸ hg) _ hrest
      (fun j hj => hsub j (List.mem_cons_of_mem _ hj)) (fun j hj => ?_)
      (hone.plan_eq ▸ hlater) (fun j hj hnm k hk => ?_)
    · exact (hone.others j fun h => hnot (List.mem_singleton.1 h ▸ hj)).trans
        (hclean j (List.mem_cons_of_mem _ hj))
    · rw [hone.plan_eq]
      by_cases hjd : j = id
      · exact hjd ▸ hfirst k hk
      · exact hdone j hj (fun h => (List.mem_cons.1 h).elim hjd hnm) k
          (List.mem_cons_of_mem _ hk)

/-- **Reviving keeps the books**: what is revived comes in topological order. -/
theorem Balanced.revive {s : Scheduler} (hs : s.Counted) (hg : s.plan.graph.WellFormed)
    (roots : List JobId) : (s.revive roots).1.Counted := by
  have hmem {j : JobId} := mem_filter_cleanBehind (j := j) hs.sound hg roots
  -- In topological order no job is revived before one that it waits for.
  exact Balanced.foldl_reviveOne hs hg .none (hg.nodup_topologicalOrder.filter _)
    (fun j hj => hmem.1 hj) (fun j hj => isClean_of_mem_cleanBehind (hmem.1 hj))
    (hg.pairwise_topologicalOrder.filter _) fun j hj hnot => absurd (hmem.2 hj) hnot

/-! ## Ending -/

/-- Ending the handing out of jobs touches no count. -/
theorem Balanced.cancel {s : Scheduler} (hs : s.Counted) : s.cancel.Counted :=
  ⟨hs.length_states, hs.length_remaining, hs.running_eq, hs.remaining_eq, hs.ready_iff⟩

/-- **Giving up the pending jobs keeps the books**: none is left to be counted. -/
theorem Balanced.finalize {s : Scheduler} (hs : s.Counted) : s.finalize.1.Counted := by
  have hnone (j : JobId) : s.finalize.1.stateOf? j ≠ some .pending := by
    rw [stateOf?_finalize]
    cases s.stateOf? j with
    | none => simp
    | some state => cases state <;> simp
  refine ⟨(List.length_map _).trans hs.length_states, hs.length_remaining, ?_,
    fun j hj => absurd hj (hnone j), fun j => ?_⟩
  · refine hs.running_eq.trans ?_
    show s.states.count JobState.running = (s.states.map _).count JobState.running
    rw [List.count_eq_countP, List.count_eq_countP, List.countP_map]
    exact List.countP_congr fun state _ => by cases state <;> decide
  · exact iff_of_false (by simp [Scheduler.finalize]) fun h => hnone j h.1

/-! ## Operations in any order -/

/-- What can be asked of a scheduler. -/
inductive Operation where
  | dispatch (limit : Nat)
  | complete (id : JobId) (outcome : JobOutcome)
  | revive (roots : List JobId)
  | cancel
  | finalize
  deriving DecidableEq

/-- The scheduler after one operation. -/
def apply (s : Scheduler) : Operation → Scheduler
  | .dispatch limit => (s.dispatch limit).1
  | .complete id outcome => (s.complete id outcome).1
  | .revive roots => (s.revive roots).1
  | .cancel => s.cancel
  | .finalize => s.finalize.1

/-- The scheduler after some operations, one after the other. -/
def applyAll (s : Scheduler) (ops : List Operation) : Scheduler := ops.foldl apply s

/-- An end does not change the plan. -/
theorem plan_complete {s : Scheduler} (hs : s.Sound) (id : JobId) (outcome : JobOutcome) :
    (s.complete id outcome).1.plan = s.plan := by
  by_cases h : s.stateOf? id = some .running
  · exact (ended_complete hs outcome h).plan_eq
  · rw [complete_of_not_running outcome h]

/-- No operation touches the plan. -/
theorem plan_apply {s : Scheduler} (hs : s.Sound) (hg : s.plan.graph.WellFormed)
    (op : Operation) : (s.apply op).plan = s.plan := by
  cases op with
  | dispatch limit => exact (handedOut_dispatch limit hs).plan_eq
  | complete id outcome => exact plan_complete hs id outcome
  | revive roots => exact (revived_revive hs hg roots).plan_eq
  | cancel => rfl
  | finalize => rfl

/-- **Each operation keeps the books.** -/
theorem Balanced.apply {s : Scheduler} (hs : s.Counted) (hg : s.plan.graph.WellFormed)
    (op : Operation) : (s.apply op).Counted := by
  cases op with
  | dispatch limit => exact hs.dispatch limit
  | complete id outcome => exact hs.complete hg id outcome
  | revive roots => exact hs.revive hg roots
  | cancel => exact hs.cancel
  | finalize => exact hs.finalize

/-- **Whatever is done, the books stay in order.** -/
theorem Balanced.applyAll (ops : List Operation) {s : Scheduler} (hs : s.Counted)
    (hg : s.plan.graph.WellFormed) :
    (s.applyAll ops).Counted ∧ (s.applyAll ops).plan = s.plan := by
  induction ops generalizing s with
  | nil => exact ⟨hs, rfl⟩
  | cons op rest ih =>
    have hplan := plan_apply hs.sound hg op
    obtain ⟨hcounted, hrest⟩ := ih (hs.apply hg op) (hplan ▸ hg)
    exact ⟨hcounted, hrest.trans hplan⟩

/-- **The books are in order whatever is asked of a scheduler, and in whatever order.**
What it says of the running jobs, of the prerequisites a pending job waits for and of
the jobs that can be handed out is what the states say. So the count of the running
jobs is positive where a job ends, and no count is at zero when it is taken down for a
success. -/
theorem books_in_order (plan : BuildPlan) (hg : plan.graph.WellFormed) (policy : FailurePolicy)
    (ops : List Operation) :
    let s := (start plan policy).applyAll ops
    s.running = s.states.count .running
      ∧ (∀ id, s.stateOf? id = some .pending →
          s.remaining[id]? = some ((plan.graph.prerequisitesOf id).countP s.isOpen))
      ∧ (∀ id, id ∈ s.ready.toList ↔
          s.stateOf? id = some .pending ∧ s.remaining[id]? = some 0)
      ∧ ∀ id, s.stateOf? id = some .running →
          0 < s.running
            ∧ (s.complete id .succeeded).1
                = ((s.close id .succeeded).releaseAll (plan.graph.dependentsOf id)).1
            ∧ (s.close id .succeeded).ReleasesExactly (plan.graph.dependentsOf id) := by
  intro s
  obtain ⟨hs, hplan⟩ : s.Counted ∧ s.plan = plan :=
    Balanced.applyAll ops (counted_start plan policy) hg
  have hcount (id : JobId) (h : s.stateOf? id = some .pending) :
      s.remaining[id]? = some (s.remaining.getD id 0) := by
    have hlt : id < s.remaining.length := hs.length_remaining ▸ hs.sound.lt_size h
    rw [List.getD_eq_getElem?_getD, List.getElem?_eq_getElem hlt]
    rfl
  refine ⟨hs.running_eq, fun id h => ?_, fun id => ?_, fun id h => ?_⟩
  · have heq : s.remaining.getD id 0 = s.waitsFor id := hs.remaining_eq id h
    rw [hcount id h, heq, ← hplan]
    rfl
  · rw [← OrderedSet.contains_iff_mem_toList, hs.ready_iff]
    refine and_congr_right fun h => ?_
    rw [hcount id h, Option.some_inj]
  · have hg' : s.plan.graph.WellFormed := hplan ▸ hg
    rw [← hplan]
    exact ⟨hs.running_pos h, complete_succeeded h, (hs.close hg' h).releasesExactly⟩

/-! Four jobs, two of them behind the first and before the last. One of the two is clean
until it is revived. -/

namespace Diamond

/-- A job of the diamond, known by its name and by what it waits for. -/
def job (id : JobId) (name : String) (prerequisites : List JobId) : Job :=
  { (default : Job) with
    id, key := ⟨name⟩, kind := .mergeModule name
    prerequisites := OrderedSet.ofList prerequisites }

/-- A top, two sides that wait for it, and a bottom that waits for both. -/
def graph : JobGraph :=
  ⟨[job 0 "top" [], job 1 "left" [0], job 2 "right" [0], job 3 "bottom" [1, 2]]⟩

/-- The diamond is accepted as a graph. -/
theorem graph_wellFormed : graph.WellFormed :=
  JobGraph.wellFormed_of_isOk (by decide +kernel)

/-- The plan that leaves the job on the right as it is. -/
def plan : BuildPlan := .cleanWhere graph [2].contains

/-- The right side is revived after the top is done, and the left side starts. -/
def operations : List Operation :=
  [.dispatch 8, .complete 0 .succeeded, .revive [2], .dispatch 1]

end Diamond

/-- After these operations the right side is ready, the bottom waits for both sides, and the end of
the left one releases nothing yet. -/
theorem books_in_order_diamond :
    let s := (start Diamond.plan .continueOnFailure).applyAll Diamond.operations
    Diamond.plan.graph.WellFormed
      ∧ s.states = [.succeeded, .running, .pending, .pending]
      ∧ s.remaining[3]? = some 2 ∧ 2 ∈ s.ready.toList ∧ 0 < s.running
      ∧ (s.close 1 .succeeded).ReleasesExactly (Diamond.plan.graph.dependentsOf 1) := by
  intro s
  have hstates : s.states = [.succeeded, .running, .pending, .pending] := by decide +kernel
  have hstate (id : JobId) : s.stateOf? id
      = [JobState.succeeded, .running, .pending, .pending][id]? := congrArg (·[id]?) hstates
  obtain ⟨-, hwait, hready, hrunning⟩ :=
    books_in_order Diamond.plan Diamond.graph_wellFormed .continueOnFailure Diamond.operations
  obtain ⟨hpos, -, hexact⟩ := hrunning 1 (hstate 1)
  refine ⟨Diamond.graph_wellFormed, hstates, ?_, ?_, hpos, hexact⟩
  · exact (hwait 3 (hstate 3)).trans (by decide +kernel)
  · exact (hready 2).2 ⟨hstate 2, (hwait 2 (hstate 2)).trans (by decide +kernel)⟩

end Scheduler

end IncrementalBuild
