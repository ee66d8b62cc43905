import IncrementalBuild.Proofs.Truncation
import IncrementalBuild.Proofs.Unfinished

/-!
# Starting from scratch

A state is trusted if its file is there and reads as a text, the text describes a state of the
known version, no file in it declares a key twice or an empty one, and it was made with the
choices of the request. Where one of these fails, nothing of it is used: every tracked input
is dirty for want of a state, nothing is remembered of it, and every job is scheduled.

The last of these is not said by the dirty inputs alone. A job that reads none of them waits
for one that does, or builds an imported module and is scheduled always; batches are scheduled
as their members are.
-/

namespace IncrementalBuild

/-! ## Which files hold a state -/

namespace SavedState

/-- **The declarations of a file are accepted** if each has a key of its own. -/
theorem checkKeys_eq_ok_iff {p : Path} {before : List String} {ds : List Declaration} :
    checkKeys p before ds = .ok () ↔
      (∀ d ∈ ds, d.key ≠ "" ∧ d.key ∉ before) ∧ (ds.map (·.key)).Nodup := by
  induction ds generalizing before with
  | nil => exact iff_of_true rfl ⟨fun d hd => absurd hd List.not_mem_nil, List.nodup_nil⟩
  | cons d rest ih =>
    unfold checkKeys
    rw [List.forall_mem_cons, List.map_cons, List.nodup_cons]
    by_cases hempty : d.key = ""
    · rw [if_pos hempty]
      exact iff_of_false (fun h => by cases h) fun h => h.1.1.1 hempty
    rw [if_neg hempty]
    by_cases hbefore : d.key ∈ before
    · rw [if_pos hbefore]
      exact iff_of_false (fun h => by cases h) fun h => h.1.1.2 hbefore
    rw [if_neg hbefore, ih]
    constructor
    · rintro ⟨hrest, hnodup⟩
      refine ⟨⟨⟨hempty, hbefore⟩, fun e he => ⟨(hrest e he).1, fun h => (hrest e he).2 ?_⟩⟩, ?_,
        hnodup⟩
      · exact List.mem_cons_of_mem _ h
      · intro hmem
        obtain ⟨e, he, hkey⟩ := List.mem_map.1 hmem
        exact (hrest e he).2 (hkey ▸ List.mem_cons_self)
    · rintro ⟨⟨-, hrest⟩, hnot, hnodup⟩
      refine ⟨fun e he => ⟨(hrest e he).1, fun h => ?_⟩, hnodup⟩
      rcases List.mem_cons.1 h with h | h
      · exact hnot (List.mem_map.2 ⟨e, he, h⟩)
      · exact (hrest e he).2 h

/-- A graph is made of declarations if those of every file are accepted. -/
theorem exists_graphOf_iff {entries : List (Path × List Declaration)} {g : DependencyGraph} :
    (∃ g', graphOf entries g = .ok g') ↔ ∀ e ∈ entries, checkKeys e.1 [] e.2 = .ok () := by
  induction entries generalizing g with
  | nil => exact iff_of_true ⟨g, rfl⟩ fun e he => absurd he List.not_mem_nil
  | cons e rest ih =>
    obtain ⟨p, ds⟩ := e
    rw [List.forall_mem_cons, ← ih (g := (g.replace p ds).1)]
    constructor
    · rintro ⟨g', h⟩
      obtain ⟨hds, hrest⟩ := graphOf_cons_eq_ok.1 h
      exact ⟨hds, g', hrest⟩
    · rintro ⟨hds, g', hrest⟩
      exact ⟨g', graphOf_cons_eq_ok.2 ⟨hds, hrest⟩⟩

/-- **What is saved is a state** if it has the version, and every declaration a key that no
other one in its file has. -/
theorem exists_toState_iff {saved : SavedState} :
    (∃ state, saved.toState = .ok state) ↔ saved.version = stateVersion ∧
      ∀ e ∈ saved.declarations.entries,
        (∀ d ∈ e.2, d.key ≠ "") ∧ (e.2.map (·.key)).Nodup := by
  have hkeys : (∀ e ∈ saved.declarations.entries,
      (∀ d ∈ e.2, d.key ≠ "") ∧ (e.2.map (·.key)).Nodup) ↔
      ∃ g, graphOf saved.declarations.entries .empty = .ok g := by
    rw [exists_graphOf_iff]
    simp only [checkKeys_eq_ok_iff, List.not_mem_nil, not_false_eq_true, and_true]
  rw [hkeys]
  unfold toState
  by_cases hversion : saved.version = stateVersion
  · rw [if_neg (not_not_intro hversion), and_iff_right hversion]
    constructor
    · rintro ⟨state, h⟩
      cases hg : graphOf saved.declarations.entries .empty with
      | ok g => exact ⟨g, rfl⟩
      | error fault =>
        rw [hg] at h
        cases h
    · rintro ⟨g, hg⟩
      rw [hg]
      exact ⟨_, rfl⟩
  · rw [if_pos hversion]
    exact iff_of_false (fun ⟨state, h⟩ => by cases h) fun h => hversion h.1

theorem options_of_toState {saved : SavedState} {state : BuildState}
    (h : saved.toState = .ok state) : state.options = saved.options := by
  unfold toState at h
  split at h
  · cases h
  · cases hg : graphOf saved.declarations.entries .empty with
    | ok g =>
      rw [hg] at h
      cases h
      rfl
    | error fault =>
      rw [hg] at h
      cases h

end SavedState

namespace StateLoad

/-- **A text is loaded as a state** if what is saved in it is one. -/
theorem ofText_eq_loaded_iff {text : String} {state : BuildState} :
    ofText text = .loaded state ↔
      ∃ saved, SavedState.read? text = some saved ∧ saved.toState = .ok state := by
  unfold ofText
  cases SavedState.read? text with
  | none => exact iff_of_false nofun fun ⟨_, h, _⟩ => nomatch h
  | some saved =>
    dsimp only
    cases hstate : saved.toState with
    | ok found =>
      constructor
      · intro h
        obtain rfl := StateLoad.loaded.inj h
        exact ⟨saved, rfl, hstate⟩
      · rintro ⟨_, hsame, h⟩
        obtain rfl := Option.some.inj hsame
        exact congrArg loaded (Except.ok.inj (hstate.symm.trans h))
    | error fault =>
      refine iff_of_false nofun ?_
      rintro ⟨_, hsame, h⟩
      obtain rfl := Option.some.inj hsame
      exact nomatch hstate.symm.trans h

theorem ofFile_eq_loaded_iff {φ : Type} [FileSystem φ] {fs : φ} {p : Path} {state : BuildState} :
    ofFile fs p = .loaded state ↔ FileSystem.pathExists fs p = true ∧
      ∃ text, FileSystem.readText fs p = .ok text ∧ ofText text = .loaded state := by
  unfold ofFile
  by_cases hthere : FileSystem.pathExists fs p = true
  · rw [if_pos hthere, and_iff_right hthere]
    cases FileSystem.readText fs p with
    | error cause => exact iff_of_false nofun fun ⟨_, h, _⟩ => nomatch h
    | ok text =>
      constructor
      · exact fun h => ⟨text, rfl, h⟩
      · rintro ⟨text', hsame, h⟩
        rw [Except.ok.inj hsame]
        exact h
  · rw [if_neg hthere]
    exact iff_of_false nofun fun h => hthere h.1

end StateLoad

namespace BuildRequest

variable {ω : Type} [FileSystem ω] {r : BuildRequest} {world : ω}

/-- Whether the state file of a request holds what is saved of a state. -/
def Finds (r : BuildRequest) (world : ω) (saved : SavedState) : Prop :=
  ∃ text, FileSystem.readText world r.statePath = .ok text ∧ SavedState.read? text = some saved

/-- **Why there is no state to start from.** -/
inductive Stateless (r : BuildRequest) (world : ω) : Prop
  | missing (h : FileSystem.pathExists world r.statePath = false)
  /-- The file cannot be read as a text. -/
  | notText {cause : FileError} (h : FileSystem.readText world r.statePath = .error cause)
  /-- The text is no value that describes a state. -/
  | notState {text : String} (hread : FileSystem.readText world r.statePath = .ok text)
      (h : SavedState.read? text = none)
  | otherVersion {saved : SavedState} (hfound : r.Finds world saved)
      (h : saved.version ≠ stateVersion)
  | emptyKey {saved : SavedState} (hfound : r.Finds world saved) {p : Path}
      {ds : List Declaration} (hfile : (p, ds) ∈ saved.declarations.entries)
      (h : ∃ d ∈ ds, d.key = "")
  | repeatedKey {saved : SavedState} (hfound : r.Finds world saved) {p : Path}
      {ds : List Declaration} (hfile : (p, ds) ∈ saved.declarations.entries)
      (h : ¬ (ds.map (·.key)).Nodup)
  /-- The state was made with other choices, or with none that are known. -/
  | otherChoices {saved : SavedState} (hfound : r.Finds world saved)
      (h : saved.options ≠ some r.optionsFingerprint)

/-- **These are all reasons for which no state is trusted.** -/
theorem stateless_iff : r.Stateless world ↔ ∀ state, r.priorState world ≠ .loaded state := by
  constructor
  -- Each reason contradicts one of the facts that a loaded state comes with. The file is read in
  -- one way only, so a reason that speaks of what stands there speaks of the same.
  · intro h state hstate
    obtain ⟨hload, hoptions⟩ := priorState_eq_loaded_iff.1 hstate
    obtain ⟨hthere, text, hread, htext⟩ := StateLoad.ofFile_eq_loaded_iff.1 hload
    obtain ⟨saved, hsaved, hvalid⟩ := StateLoad.ofText_eq_loaded_iff.1 htext
    have hunique {found : SavedState} (hfound : r.Finds world found) : found = saved := by
      obtain ⟨text', hread', hsaved'⟩ := hfound
      obtain rfl := Except.ok.inj (hread.symm.trans hread')
      exact Option.some.inj (hsaved'.symm.trans hsaved)
    obtain ⟨hversion, hkeys⟩ := SavedState.exists_toState_iff.1 ⟨state, hvalid⟩
    cases h with
    | missing h => exact Bool.false_ne_true (h.symm.trans hthere)
    | notText h => exact nomatch h.symm.trans hread
    | notState hread' h =>
      obtain rfl := Except.ok.inj (hread.symm.trans hread')
      exact nomatch h.symm.trans hsaved
    | otherVersion hfound h => exact h (hunique hfound ▸ hversion)
    | emptyKey hfound hfile h =>
      obtain ⟨d, hd, hkey⟩ := h
      exact (hkeys _ (hunique hfound ▸ hfile)).1 d hd hkey
    | repeatedKey hfound hfile h => exact h (hkeys _ (hunique hfound ▸ hfile)).2
    | otherChoices hfound h =>
      rw [hunique hfound, ← SavedState.options_of_toState hvalid] at h
      exact h hoptions
  -- The reader is followed until something goes wrong; if nothing does, a state is loaded.
  · intro h
    by_cases hthere : FileSystem.pathExists world r.statePath = true
    case neg => exact .missing (Bool.not_eq_true _ ▸ hthere)
    cases hread : FileSystem.readText world r.statePath with
    | error cause => exact .notText hread
    | ok text =>
      cases hsaved : SavedState.read? text with
      | none => exact .notState hread hsaved
      | some saved =>
        have hfound : r.Finds world saved := ⟨text, hread, hsaved⟩
        by_cases hversion : saved.version = stateVersion
        case neg => exact .otherVersion hfound hversion
        by_cases hkeys : ∀ e ∈ saved.declarations.entries,
            (∀ d ∈ e.2, d.key ≠ "") ∧ (e.2.map (·.key)).Nodup
        case neg =>
          push Not at hkeys
          obtain ⟨⟨p, ds⟩, hfile, hbad⟩ := hkeys
          by_cases hempty : ∃ d ∈ ds, d.key = ""
          · exact .emptyKey hfound hfile hempty
          · push Not at hempty
            exact .repeatedKey hfound hfile (hbad hempty)
        obtain ⟨state, hstate⟩ := SavedState.exists_toState_iff.2 ⟨hversion, hkeys⟩
        refine .otherChoices hfound fun hoptions => h state (priorState_eq_loaded_iff.2 ⟨?_, ?_⟩)
        · exact StateLoad.ofFile_eq_loaded_iff.2
            ⟨hthere, text, hread, StateLoad.ofText_eq_loaded_iff.2 ⟨saved, hsaved, hstate⟩⟩
        · rw [SavedState.options_of_toState hstate, hoptions]

end BuildRequest

/-! ## What is planned then -/

namespace DirtyInputs

/-- A start from nothing gives one reason for every input. -/
theorem get?_dirty_fresh {inputs : List InputFile} {i : InputFile} (hi : i ∈ inputs) :
    (fresh inputs).dirty.get? i.path = some .noPriorState := by
  have hadd {d : DirtySet} (hd : ∀ q found, d.get? q = some found → found = .noPriorState)
      (p : Path) : ∀ q found, (DirtySet.add d p .noPriorState).1.get? q = some found →
        found = .noPriorState := by
    intro q found h
    unfold DirtySet.add at h
    split at h
    · exact hd q found h
    · dsimp only at h
      rw [OrderedMap.get?_insert] at h
      split at h
      · exact (Option.some.inj h).symm
      · exact hd q found h
  have hreasons (l : List InputFile) (d : DirtySet)
      (hd : ∀ q found, d.get? q = some found → found = .noPriorState) :
      ∀ q found, (l.foldl (fun d i => (DirtySet.add d i.path .noPriorState).1) d).get? q
        = some found → found = .noPriorState := by
    induction l generalizing d with
    | nil => exact hd
    | cons j rest ih => exact ih _ (hadd hd j.path)
  have hthere := contains_dirty_fresh hi
  rw [← OrderedMap.isSome_get?] at hthere
  obtain ⟨found, hfound⟩ := Option.isSome_iff_exists.1 hthere
  rw [hfound, hreasons inputs ∅ (fun q found h => by cases h) i.path found hfound]

theorem fingerprintOf_fresh (inputs : List InputFile) (q : Path) :
    (fresh inputs).state.fingerprintOf q = none := by
  have key (l : List InputFile) (s : BuildState) (hs : s.fingerprintOf q = none) :
      (l.foldl (fun s i => s.markNeedsRebuild i.path) s).fingerprintOf q = none := by
    induction l generalizing s with
    | nil => exact hs
    | cons i rest ih =>
      refine ih _ ?_
      show (s.setFingerprint i.path none).fingerprintOf q = none
      rw [BuildState.fingerprintOf_setFingerprint, hs, ite_self]
  exact key inputs .empty rfl

/-- Without a state a build starts from nothing. -/
theorem compute_eq_fresh {prior : StateLoad} (h : ∀ state, prior ≠ .loaded state)
    (inputs : List InputFile) : compute prior inputs = .ok (fresh inputs) := by
  cases prior with
  | loaded state => exact absurd rfl (h state)
  | missing => rfl
  | corrupt fault => rfl

end DirtyInputs

/-- **Whether a build does everything anew**, and remembers nothing of a build before. -/
structure PlannedBuild.FromScratch (b : PlannedBuild) (r : BuildRequest) : Prop where
  scheduled : ∀ job ∈ b.plan.graph.jobs, (b.plan.disposition job.id).isScheduled = true
  dirty : ∀ i ∈ r.trackedInputs, b.dirty.get? i.path = some .noPriorState
  declarations : b.state.graph = .empty
  staleJobs : b.state.staleJobs = ∅
  fingerprints : ∀ q, b.state.fingerprintOf q = none

/-- **Without a state everything is built.** Whatever is wrong with the state file, a build that
is prepared does everything anew: with one compile job for each input or one for all, with a
header or without, with modules that are built first or without, and in whatever batches. -/
theorem BuildRequest.fromScratch_of_stateless {ω : Type} [FileSystem ω] {r : BuildRequest}
    {scan : Option (Scanner ω)} {world world' : ω} {b : PlannedBuild}
    (hstate : r.Stateless world) (hprep : r.prepare scan world = (.ok b, world')) :
    b.FromScratch r := by
  have hnone := stateless_iff.1 hstate
  obtain ⟨modules, start, g, -, hb⟩ := prepared_of_prepare hprep
  obtain ⟨place, hgathers⟩ := hb.gathers
  obtain rfl : DirtyInputs.fresh r.trackedInputs = start :=
    Except.ok.inj ((DirtyInputs.compute_eq_fresh hnone _).symm.trans hb.started)
  constructor
  case scheduled =>
    intro job hjob
    obtain ⟨first, rest, hgathered⟩ := hgathers.gathered job hjob
    rw [hgathered.isScheduled_eq List.mem_cons_self]
    have hfirst := ((hgathered.mem_iff first).1 List.mem_cons_self).1
    exact hb.isScheduled_of_stale hfirst (.inr hnone)
  case dirty =>
    intro i hi
    rw [hb.dirty]
    exact DirtyInputs.get?_dirty_fresh hi
  case declarations =>
    rw [hb.state]
    exact (DirtyInputs.fresh_rest _).1
  case staleJobs =>
    rw [hb.state]
    exact (DirtyInputs.fresh_rest _).2.1
  case fingerprints =>
    intro q
    rw [hb.state]
    exact DirtyInputs.fingerprintOf_fresh _ q

/-! ### A state of another version -/

namespace OtherVersion

/-- Three inputs in batches of two, with a header and with the modules that they import. -/
def request : BuildRequest :=
  { BuildRequest.forObjects [⟨⟨"a"⟩, ⟨"1"⟩⟩, ⟨⟨"b"⟩, ⟨"1"⟩⟩, ⟨⟨"c"⟩, ⟨"1"⟩⟩] with
    batchSize := some 2
    header := some ⟨⟨"h"⟩, ⟨"1"⟩⟩
    explicitModules := true }

/-- The last input imports a module. -/
def modules : ModuleGraph where
  modules := OrderedMap.ofList [("M", ⟨⟨"M.interface"⟩, ∅⟩)]
  imports := OrderedMap.ofList [(⟨"c"⟩, OrderedSet.ofList ["M"])]

def text : String := "\x7b\"version\": 2\x7d"

/-- Nothing is there but a state file that is too new. -/
def world : SimulatedTools := .ofFiles (MemoryFiles.empty.addFile request.statePath text.toUTF8)

theorem fromScratch_of_stateless_otherVersion : ∃ (b : PlannedBuild) (world' : SimulatedTools),
    request.prepare (some (.known modules)) world = (.ok b, world') ∧
      b.plan.graph.jobs.map (fun job => job.originKeys.map (·.text))
        = [["generate-pch:h"], ["build-module:M"], ["compile:a", "compile:b"], ["compile:c"]] ∧
      b.FromScratch request := by
  obtain ⟨saved, hsaved, hversion⟩ : ∃ saved, SavedState.read? text = some saved ∧
      saved.version = 2 := by
    have h : (SavedState.read? text).map (·.version) = some 2 := by decide +kernel
    exact Option.map_eq_some_iff.1 h
  have hread : FileSystem.readText world.files request.statePath = .ok text :=
    MemoryFiles.readText_of_get? (OrderedMap.get?_insert_self _ _ _)
  have hstate : request.Stateless world :=
    .otherVersion ⟨text, hread, hsaved⟩ (by rw [hversion]; decide)
  obtain ⟨b, hb, hjobs⟩ := exists_eq_ok_of_toOption
    (x := (request.prepare (some (.known modules)) world).1)
    (f := fun b => b.plan.graph.jobs.map fun job => job.originKeys.map (·.text))
    (b := [["generate-pch:h"], ["build-module:M"], ["compile:a", "compile:b"], ["compile:c"]])
    (by decide +kernel)
  cases hprep : request.prepare (some (.known modules)) world with
  | mk prepared world' =>
    rw [hprep] at hb
    obtain rfl : prepared = .ok b := hb
    exact ⟨b, world', rfl, hjobs, BuildRequest.fromScratch_of_stateless hstate hprep⟩

end OtherVersion

end IncrementalBuild
