import IncrementalBuild.Proofs.DeclarationTable
import IncrementalBuild.Proofs.Reload
import IncrementalBuild.Proofs.StoredText

/-!
# Saving and loading lose nothing

A state comes from the state before any build or from one that was loaded, by taking over
records, marking inputs and noting what is left to do. What is saved for it is loaded as an
equal state, for which the same bytes are written, exactly if every declaration has a key.
This needs a file system that keeps texts, as files in memory and a disk do.

A record may hold a declaration with an empty key, and it is taken over with it. The state
is then saved without a complaint, and refused when it is loaded. Nothing else is ever
refused: no file declares a key twice, because the declarations of a record are merged.
-/

namespace IncrementalBuild

/-! ## States whose declarations have keys -/

namespace SavedState

/-- Putting in declarations makes up no other path. -/
theorem mem_paths_graphOf {entries : List (Path × List Declaration)} {g g' : DependencyGraph}
    (h : graphOf entries g = .ok g') {q : Path} (hq : q ∈ g'.paths.values) :
    q ∈ g.paths.values ∨ ∃ e ∈ entries, e.1 = q := by
  induction entries generalizing g with
  | nil =>
    obtain rfl : g = g' := Except.ok.inj h
    exact .inl hq
  | cons entry rest ih =>
    obtain ⟨p, ds⟩ := entry
    obtain ⟨-, h⟩ := graphOf_cons_eq_ok.1 h
    rcases ih h with hq | ⟨e, he, heq⟩
    · exact (g.consistent.mem_paths_replace hq).imp_right fun hq =>
        ⟨(p, ds), List.mem_cons_self, hq.symm⟩
    · exact .inr ⟨e, List.mem_cons_of_mem _ he, heq⟩

/-- **The declarations of a state are put together again**, with every file in the spelling
that it had. -/
theorem exists_graphOf_files {s : BuildState} (h : s.graph.Keyed) :
    ∃ g, graphOf (ofState s).declarations.entries .empty = .ok g ∧ g.files = s.graph.files := by
  obtain ⟨g, hg, hdeclared, -⟩ := exists_graphOf_ofState h
  -- Equal paths may be spelled differently, so it matters which ones the new graph knows.
  have hsub : ∀ p ∈ g.fileList, p ∈ s.graph.fileList := by
    intro p hp
    rcases mem_paths_graphOf hg (g.consistent.mem_paths_of_mem_fileList hp) with hp | ⟨e, he, rfl⟩
    · cases hp
    · rw [← s.graph.keys_files]
      exact List.mem_map.2 ⟨e, he, rfl⟩
  have hlist : g.fileList = s.graph.fileList := by
    refine OrderedMap.eq_of_ascending g.pairwise_fileList s.graph.pairwise_fileList hsub
      fun p => ?_
    rw [g.consistent.exists_mem_fileList, s.graph.consistent.exists_mem_fileList,
      g.consistent.containsFile_eq, s.graph.consistent.containsFile_eq, hdeclared]
  refine ⟨g, hg, ?_⟩
  unfold DeclarationStore.files
  simp only [hlist, hdeclared]

/-- **The first file with an empty key is refused**, where no file declares a key twice. -/
theorem graphOf_eq_emptyKey {entries : List (Path × List Declaration)}
    (hn : ∀ e ∈ entries, (e.2.map (·.key)).Nodup) (h : ∃ e ∈ entries, ∃ d ∈ e.2, d.key = "")
    (g : DependencyGraph) : ∃ e ∈ entries, (∃ d ∈ e.2, d.key = "") ∧
      graphOf entries g = .error (.emptyKey e.1) := by
  induction entries generalizing g with
  | nil =>
    obtain ⟨e, he, -⟩ := h
    cases he
  | cons entry rest ih =>
    obtain ⟨p, ds⟩ := entry
    have hcheck := checkKeys_eq (p := p) (hn _ List.mem_cons_self) fun d _ => List.not_mem_nil
    unfold graphOf
    by_cases hkeys : ∀ d ∈ ds, d.key ≠ ""
    · obtain ⟨e, he, d, hd, hkey⟩ := h
      have he : e ∈ rest := (List.mem_cons.1 he).resolve_left fun h => by
        subst h
        exact hkeys d hd hkey
      obtain ⟨e', he', hlater, hrest⟩ := ih (fun e he => hn e (List.mem_cons_of_mem _ he))
        ⟨e, he, d, hd, hkey⟩ (g.replace p ds).1
      refine ⟨e', List.mem_cons_of_mem _ he', hlater, ?_⟩
      rw [hcheck, if_pos hkeys]
      exact hrest
    · refine ⟨(p, ds), List.mem_cons_self, by push Not at hkeys; exact hkeys, ?_⟩
      rw [hcheck, if_neg hkeys]
      rfl

end SavedState

namespace BuildState

variable {s : BuildState}

/-- **A state is loaded as it was saved** if every declaration has a key. -/
theorem exists_loaded (h : s.graph.Keyed) :
    ∃ s', StateLoad.ofText (SavedState.ofState s).print = .loaded s' ∧
      SavedState.ofState s' = SavedState.ofState s := by
  obtain ⟨g, hg, hfiles⟩ := SavedState.exists_graphOf_files h
  refine ⟨{ s with graph := g }, StateLoad.ofText_print_of_graphOf hg, ?_⟩
  unfold SavedState.ofState
  rw [hfiles]

/-- **A state with an empty key is refused**, on account of a file that declares it. -/
theorem exists_emptyKey (h : ¬ s.graph.Keyed) :
    ∃ q ∈ s.graph.fileList, (∃ d ∈ s.graph.declarationsOf q, d.key = "") ∧
      StateLoad.ofText (SavedState.ofState s).print = .corrupt (.emptyKey q) := by
  rw [DependencyGraph.keyed_iff] at h
  push Not at h
  have hentry {e : Path × List Declaration} (he : e ∈ s.graph.files.entries) :
      e.1 ∈ s.graph.fileList ∧ e.2 = s.graph.declarationsOf e.1 :=
    DeclarationStore.mem_entries_files.1 he
  obtain ⟨e, he, hd, hgraph⟩ := SavedState.graphOf_eq_emptyKey
    (fun e he => (hentry he).2 ▸ s.graph.uniqueKeys e.1) h .empty
  exact ⟨e.1, (hentry he).1, (hentry he).2 ▸ hd, StateLoad.ofText_print_of_fault hgraph⟩

end BuildState

/-! ## Changes of a state -/

/-- What a build does to its state. -/
inductive StateChange where
  /-- A compiler reported a record for a file, or none. -/
  | integrate (path : Path) (content : Fingerprint) (record : Option DependencyRecord)
  | markNeedsRebuild (path : Path)
  | recordFingerprint (path : Path) (content : Fingerprint)
  | setStaleJobs (jobs : OrderedSet JobKey)
  | setOptions (options : Option Fingerprint)
  | setCommands (commands : OrderedMap JobKey Fingerprint)
  /-- A file left the build. -/
  | removeFile (path : Path)

namespace StateChange

/-- The state after a change. -/
def apply (s : BuildState) : StateChange → BuildState
  | integrate p f record => (s.integrate p f record).1
  | markNeedsRebuild p => s.markNeedsRebuild p
  | recordFingerprint p f => s.recordFingerprint p f
  | setStaleJobs staleJobs => { s with staleJobs }
  | setOptions options => { s with options }
  | setCommands commands => { s with commands }
  | removeFile p => { s with graph := (s.graph.removeFile p).1, inputs := s.inputs.erase p }

/-- The declarations that a change takes over: those of a record, if it is about the file
that was compiled. -/
def takenOver : StateChange → List Declaration
  | integrate p _ record => ((record.filter (·.source == p)).map (·.declarations)).getD []
  | _ => []

end StateChange

namespace BuildState

/-- The state that changes lead to. -/
def after (start : BuildState) (changes : List StateChange) : BuildState :=
  changes.foldl StateChange.apply start

variable {s start : BuildState}

/-- **A change keeps every declaration with a key** if those have one that it takes over. -/
theorem keyed_apply (h : s.graph.Keyed) {change : StateChange}
    (hkeys : ∀ d ∈ change.takenOver, d.key ≠ "") : (change.apply s).graph.Keyed := by
  cases change with
  | integrate p f record =>
    unfold StateChange.takenOver at hkeys
    dsimp only at hkeys
    show (s.integrate p f record).1.graph.Keyed
    unfold integrate
    cases hrecord : record.filter (fun r => r.source == p) with
    | none => exact h
    | some r =>
      rw [hrecord] at hkeys
      exact h.replace p hkeys
  | removeFile p => exact h.replace p fun d hd => absurd hd List.not_mem_nil
  | markNeedsRebuild p => exact h
  | recordFingerprint p f => exact h
  | setStaleJobs jobs => exact h
  | setOptions options => exact h
  | setCommands commands => exact h

/-- **Only a record brings a declaration without a key.** -/
theorem keyed_after (h : start.graph.Keyed) {changes : List StateChange}
    (hkeys : ∀ change ∈ changes, ∀ d ∈ change.takenOver, d.key ≠ "") :
    (start.after changes).graph.Keyed := by
  unfold after
  induction changes generalizing start with
  | nil => exact h
  | cons change rest ih =>
    obtain ⟨hchange, hrest⟩ := List.forall_mem_cons.1 hkeys
    exact ih (keyed_apply h hchange) hrest

/-- What a state file holds was checked. -/
theorem keyed_of_loaded {φ : Type} [FileSystem φ] {fs : φ} {p : Path}
    (h : StateLoad.ofFile fs p = .loaded s) : s.graph.Keyed :=
  StateLoad.graph_of_ofFile DependencyGraph.keyed_empty
    (fun _ q _ hds h => h.replace q (SavedState.key_ne_empty_of_checkKeys hds)) h

/-- What was saved without a failure is found in the file. -/
theorem ofFile_of_save {φ : Type} [FileSystem φ] (hfs : KeepsTexts φ) {fs saved : φ} {p : Path}
    (h : s.save fs p = (.ok (), saved)) :
    StateLoad.ofFile saved p = StateLoad.ofText (SavedState.ofState s).print := by
  obtain ⟨hthere, hread⟩ := hfs fs saved p _ h
  unfold StateLoad.ofFile
  rw [if_pos hthere, hread]

/-- **What is saved is loaded unless a declaration has no key.** The state before any build, or
one that was loaded, is changed and saved without a failure. If every declaration has a key,
an equal state is loaded, which answers every question alike and is saved with the same
bytes. If one has none, a record brought it, and the file is refused on its account. -/
theorem loaded_after {φ : Type} [FileSystem φ] (hfs : KeepsTexts φ)
    (hstart : start = .empty ∨ ∃ (fs : φ) (p : Path), StateLoad.ofFile fs p = .loaded start)
    (changes : List StateChange) (hs : start.after changes = s) {fs saved : φ} {p : Path}
    (hsave : s.save fs p = (.ok (), saved)) :
    (s.graph.Keyed → ∃ s', StateLoad.ofFile saved p = .loaded s' ∧
      SavedState.ofState s' = SavedState.ofState s ∧ s'.graph.AnswersAs s.graph.files ∧
      ∀ (fs : φ) (q : Path), s'.save fs q = s.save fs q) ∧
    (¬ s.graph.Keyed → (∃ change ∈ changes, ∃ d ∈ change.takenOver, d.key = "") ∧
      ∃ q ∈ s.graph.fileList, (∃ d ∈ s.graph.declarationsOf q, d.key = "") ∧
        StateLoad.ofFile saved p = .corrupt (.emptyKey q)) := by
  rw [ofFile_of_save hfs hsave]
  refine ⟨fun hkeyed => ?_, fun hkeyed => ⟨?_, exists_emptyKey hkeyed⟩⟩
  · obtain ⟨s', hload, hsame⟩ := exists_loaded hkeyed
    have hfiles : s'.graph.files = s.graph.files := congrArg SavedState.declarations hsame
    refine ⟨s', hload, hsame, hfiles ▸ s'.graph.answersAs_files, fun fs q => ?_⟩
    unfold save
    rw [hsame]
  · by_contra hnone
    push Not at hnone
    refine hkeyed (hs ▸ keyed_after ?_ hnone)
    rcases hstart with rfl | ⟨fs, q, hload⟩
    · exact DependencyGraph.keyed_empty
    · exact keyed_of_loaded hload

/-- A record with a key that is declared twice, taken over for another spelling of its path; a
record of another file with an empty key; and a record with an empty key that gives way to a
better one. -/
def sampleChanges : List StateChange :=
  [.integrate ⟨"/p//a"⟩ ⟨"1"⟩ (some ⟨⟨"/p/a"⟩,
      [⟨"k", ⟨"2"⟩, ["base"], []⟩, ⟨"m", ⟨"3"⟩, [], ["k"]⟩, ⟨"k", ⟨"4"⟩, [], ["base"]⟩]⟩),
    .integrate ⟨"/b"⟩ ⟨"5"⟩ (some ⟨⟨"/c"⟩, [⟨"", ⟨"6"⟩, [], []⟩]⟩),
    .integrate ⟨"/d"⟩ ⟨"7"⟩ (some ⟨⟨"/d"⟩, [⟨"", ⟨"8"⟩, [], []⟩]⟩),
    .integrate ⟨"/d"⟩ ⟨"9"⟩ (some ⟨⟨"/d"⟩, [⟨"base", ⟨"8"⟩, ["é"], []⟩]⟩),
    .markNeedsRebuild ⟨"/p/./a"⟩, .setStaleJobs (.ofList [⟨"link"⟩, ⟨"compile"⟩])]

theorem loaded_after_sampleChanges :
    ∃ s', StateLoad.ofFile ((BuildState.empty.after sampleChanges).save MemoryFiles.empty
        ⟨"/out/state"⟩).2 ⟨"/out/state"⟩ = .loaded s' ∧
      s'.graph.files.entries.map (fun e => (e.1.text, e.2.map (·.key)))
        = [("/d", ["base"]), ("/p//a", ["k", "m"])] := by
  have hkeyed : (BuildState.empty.after sampleChanges).graph.Keyed :=
    DependencyGraph.keyed_iff.2 (by decide +kernel)
  have hsave : (BuildState.empty.after sampleChanges).save MemoryFiles.empty ⟨"/out/state"⟩
      = (.ok (), _) := rfl
  obtain ⟨s', hload, hsame, -, -⟩ :=
    (loaded_after MemoryFiles.keepsTexts (.inl rfl) sampleChanges rfl hsave).1 hkeyed
  refine ⟨s', hload, ?_⟩
  rw [show s'.graph.files = _ from congrArg SavedState.declarations hsame]
  decide +kernel

/-- **A record with an empty key is accepted**, and the state that takes it over is saved and
not loaded. -/
theorem emptyKey_saved_and_refused :
    let record : DependencyRecord := ⟨⟨"/a.src"⟩, [⟨"", ⟨"1"⟩, [], []⟩]⟩
    DependencyRecord.parse record.print = .ok record ∧
      ∃ saved : MemoryFiles,
        (BuildState.empty.after [.integrate ⟨"/a.src"⟩ ⟨"2"⟩ (some record)]).save .empty
          ⟨"/out/state"⟩ = (.ok (), saved) ∧
        StateLoad.ofFile saved ⟨"/out/state"⟩ = .corrupt (.emptyKey ⟨"/a.src"⟩) := by
  intro record
  refine ⟨record.parse_print, _, rfl, ?_⟩
  rw [ofFile_of_save MemoryFiles.keepsTexts rfl]
  let graph := (BuildState.empty.after [.integrate ⟨"/a.src"⟩ ⟨"2"⟩ (some record)]).graph
  have hempty : ¬ graph.Keyed := by
    rw [DependencyGraph.keyed_iff]
    decide +kernel
  have hlist : graph.fileList.map (·.text) = ["/a.src"] := by
    decide +kernel
  obtain ⟨q, hq, -, hload⟩ := exists_emptyKey hempty
  have hname : q.text ∈ ["/a.src"] := hlist ▸ List.mem_map.2 ⟨q, hq, rfl⟩
  rw [hload, show q = ⟨"/a.src"⟩ from congrArg Path.mk (List.mem_singleton.1 hname)]

end BuildState

end IncrementalBuild
