import IncrementalBuild.Proofs.DeclarationStore.Slots

/-!
# A store that lists its files

Between replacements a store lists for every file the slots that belong to it, and each file
that it lists has slots. `Consistent` says so, and every store that replacements lead to is
consistent. Replacing the declarations of a file empties the slots of the file, strikes it
from the list and lists it anew with the slots that are filled for it, so what other files
declare stays as it is.
-/

namespace IncrementalBuild

namespace DeclarationStore

variable {s : DeclarationStore} {file slot : Nat} {c : SlotContent} {p q : Path}

/-- The slots that are listed for a file. -/
def slotsUnder (s : DeclarationStore) (file : Nat) : List Nat := (s.byFile.get? file).getD []

/-- **A store in step with its own list of files.** -/
structure Consistent (s : DeclarationStore) : Prop where
  inStep : s.InStep s.slotsUnder
  /-- A file that is listed has a path and some slots. -/
  listed : ∀ file slots, s.byFile.get? file = some slots →
    file < s.paths.values.length ∧ slots ≠ []

theorem consistent_empty : empty.Consistent := ⟨inStep_empty, fun _ _ h => by cases h⟩

theorem slotsOf_of_number? (h : s.paths.number? p = some file) :
    s.slotsOf p = s.slotsUnder file := by
  unfold slotsOf
  rw [h]
  rfl

theorem slotsOf_of_number?_eq_none (h : s.paths.number? p = none) : s.slotsOf p = [] := by
  unfold slotsOf
  rw [h]

/-- The slots of a file hold its declarations and no others. -/
theorem Consistent.mem_slotsOf (hs : s.Consistent) :
    slot ∈ s.slotsOf p ↔ ∃ c, s.contentAt? slot = some c ∧ s.paths.number? p = some c.file := by
  cases hp : s.paths.number? p with
  | none =>
    rw [slotsOf_of_number?_eq_none hp]
    exact iff_of_false List.not_mem_nil fun ⟨_, _, h⟩ => by cases h
  | some file =>
    rw [slotsOf_of_number? hp, hs.inStep.mem_iff]
    exact exists_congr fun c => and_congr_right fun _ =>
      ⟨fun h => h ▸ rfl, fun h => (Option.some.inj h).symm⟩

/-- **What dropping a file leaves.** -/
theorem Consistent.dropFile (hs : s.Consistent) (p : Path) :
    (s.dropFile p).Consistent ∧ (s.dropFile p).keys = s.keys ∧ (s.dropFile p).paths = s.paths ∧
      (∀ file, (s.dropFile p).byFile.get? file
        = if s.paths.number? p = some file then none else s.byFile.get? file) ∧
      ∀ t, (s.dropFile p).contentAt? t = if t ∈ s.slotsOf p then none else s.contentAt? t := by
  unfold DeclarationStore.dropFile
  cases hp : s.paths.number? p with
  -- Neither a file without a number nor one that has no slots has anything to take away.
  | none =>
    rw [slotsOf_of_number?_eq_none hp]
    exact ⟨hs, rfl, rfl, fun file => (if_neg nofun).symm, fun t => (if_neg List.not_mem_nil).symm⟩
  | some file =>
    rw [slotsOf_of_number? hp]
    unfold slotsUnder
    dsimp only
    cases hslots : s.byFile.get? file with
    | none =>
      refine ⟨hs, rfl, rfl, fun f => ?_, fun t => (if_neg List.not_mem_nil).symm⟩
      by_cases hf : some file = some f
      · rw [if_pos hf, ← Option.some.inj hf]
        exact hslots
      · rw [if_neg hf]
    | some slots =>
      -- The slots are emptied one after the other, which leaves the numbers and the lists of
      -- other files alone.
      dsimp only [Option.getD_some]
      obtain ⟨hkeys, hpaths, hbyFile⟩ :=
        foldl_vacate_frame slots { s with byFile := s.byFile.erase file }
      have hunlisted : InStep { s with byFile := s.byFile.erase file } s.slotsUnder :=
        { hs.inStep with }
      have hvacated := hunlisted.vacateAll file
      have hslotsUnder : s.slotsUnder file = slots := congrArg (Option.getD · []) hslots
      rw [hslotsUnder] at hvacated
      have hat := contentAt?_foldl_vacate slots { s with byFile := s.byFile.erase file }
      generalize slots.foldl vacate { s with byFile := s.byFile.erase file } = after at *
      have hget (f : Nat) : after.byFile.get? f
          = if some file = some f then none else s.byFile.get? f := by
        rw [hbyFile]
        refine (OrderedMap.get?_erase s.byFile file f).trans ?_
        simp only [Std.compare_eq_iff_eq, Option.some_inj]
      -- No slots are listed for the file any more.
      have hunder : after.slotsUnder = Function.update s.slotsUnder file [] := by
        funext f
        unfold slotsUnder
        rw [hget]
        by_cases hf : f = file
        · rw [if_pos (congrArg some hf.symm), hf, Function.update_self]
          rfl
        · rw [if_neg fun h => hf (Option.some.inj h).symm, Function.update_of_ne hf]
      refine ⟨⟨hunder ▸ hvacated, fun f slots' hf => ?_⟩, hkeys, hpaths, hget, hat⟩
      rw [hget] at hf
      split at hf
      · cases hf
      · rw [hpaths]
        exact hs.listed f slots' hf

/-- Dropping a file takes its slots away, and no others. -/
theorem Consistent.slotsOf_dropFile (hs : s.Consistent) (p q : Path) :
    (s.dropFile p).slotsOf q = if compare p q = .eq then [] else s.slotsOf q := by
  obtain ⟨-, -, hpaths, hbyFile, -⟩ := hs.dropFile p
  cases hq : s.paths.number? q with
  | none =>
    rw [slotsOf_of_number?_eq_none hq, slotsOf_of_number?_eq_none (hpaths ▸ hq), ite_self]
  | some file =>
    rw [slotsOf_of_number? hq, slotsOf_of_number? (hpaths ▸ hq)]
    unfold slotsUnder
    rw [hbyFile]
    by_cases hpq : compare p q = .eq
    · rw [if_pos hpq, if_pos ((s.paths.number?_congr hpq).trans hq)]
      rfl
    · rw [if_neg hpq, if_neg fun hp => hpq (hs.inStep.paths.compare_eq_of_number? hp hq)]

/-- **Dropping a file** takes its declarations away, and no others. -/
theorem Consistent.declarationsOf_dropFile (hs : s.Consistent) (p q : Path) :
    (s.dropFile p).declarationsOf q = if compare p q = .eq then [] else s.declarationsOf q := by
  obtain ⟨-, hkeys, -, -, hat⟩ := hs.dropFile p
  show (s.dropFile p).declarationsIn ((s.dropFile p).slotsOf q) = _
  rw [hs.slotsOf_dropFile]
  by_cases hpq : compare p q = .eq
  · rw [if_pos hpq, if_pos hpq]
    rfl
  · rw [if_neg hpq, if_neg hpq]
    refine hs.inStep.declarationsIn_eq (hkeys ▸ .refl _) fun t ht => ?_
    rw [hat, if_neg]
    intro ht'
    obtain ⟨c, hc, hq⟩ := hs.mem_slotsOf.1 ht
    obtain ⟨c', hc', hp⟩ := hs.mem_slotsOf.1 ht'
    obtain rfl := Option.some.inj (hc.symm.trans hc')
    exact hpq (hs.inStep.paths.compare_eq_of_number? hp hq)

/-- The number of a path under which nothing is listed has no slots when it is entered. -/
theorem Consistent.slotsUnder_enter (hs : s.Consistent) (hp : s.slotsOf p = []) :
    s.slotsUnder (s.paths.enter p).1 = [] := by
  unfold Numbering.enter
  cases hnumber : s.paths.number? p with
  | some file => exact (slotsOf_of_number? hnumber).symm.trans hp
  | none =>
    unfold slotsUnder
    cases hslots : s.byFile.get? s.paths.values.length with
    | none => rfl
    | some slots => exact absurd (hs.listed _ _ hslots).1 (Nat.lt_irrefl _)

theorem get?_byFile_listFile (s : DeclarationStore) (file f : Nat) (slots : List Nat) :
    (s.listFile file slots).byFile.get? f
      = if f = file then some slots else s.byFile.get? f := by
  refine (OrderedMap.get?_insert s.byFile file f slots).trans ?_
  simp only [Std.compare_eq_iff_eq, @eq_comm _ file f]

theorem slotsUnder_listFile (s : DeclarationStore) (file : Nat) (slots : List Nat) :
    (s.listFile file slots).slotsUnder = Function.update s.slotsUnder file slots := by
  funext f
  unfold slotsUnder
  rw [get?_byFile_listFile]
  by_cases hf : f = file
  · rw [if_pos hf, hf, Function.update_self]
    rfl
  · rw [if_neg hf, Function.update_of_ne hf]

/-- **Putting in the declarations of a file that has none** changes no other file. -/
theorem Consistent.putFile (hs : s.Consistent) (hp : s.slotsOf p = []) (ds : List Declaration) :
    (s.putFile p ds).Consistent ∧
      ∀ q, (s.putFile p ds).declarationsOf q
        = if compare p q = .eq then ds else s.declarationsOf q := by
  unfold DeclarationStore.putFile
  -- Without declarations nothing is put in, and the file had none before.
  cases ds with
  | nil =>
    refine ⟨hs, fun q => ?_⟩
    by_cases hpq : compare p q = .eq
    · have hq : s.slotsOf q = [] := by
        unfold slotsOf at hp ⊢
        rw [← s.paths.number?_congr hpq]
        exact hp
      rw [if_pos hpq]
      exact congrArg s.declarationsIn hq
    · rw [if_neg hpq]
      rfl
  | cons d rest =>
    -- The path has a number from now on, and its slots are filled one by one; the other files
    -- are left alone on the way. At the end the slots are listed under the number.
    obtain ⟨hfaithful, hextends, hnumber⟩ := hs.inStep.paths.enter p
    have hunder := hs.slotsUnder_enter hp
    have hentered : InStep { s with paths := (s.paths.enter p).2 } s.slotsUnder :=
      { hs.inStep with paths := hfaithful }
    obtain ⟨hstep, hkeeps, hdeclarations⟩ :=
      hentered.putDeclarations (s.paths.enter p).1 (d :: rest)
    rw [hunder, List.nil_append] at hstep
    rw [List.isEmpty_cons, if_neg Bool.false_ne_true]
    dsimp only
    generalize hput : putDeclarations { s with paths := (s.paths.enter p).2 } (s.paths.enter p).1
      (d :: rest) = put at *
    have hlisted : (put.2.listFile (s.paths.enter p).1 put.1).slotsUnder
        = Function.update s.slotsUnder (s.paths.enter p).1 put.1 := by
      rw [slotsUnder_listFile]
      exact congrArg (Function.update · _ _) (funext fun f =>
        congrArg (fun m => (OrderedMap.get? m f).getD []) hkeeps.byFile)
    refine ⟨⟨hlisted ▸ { hstep with }, fun f slots hf => ?_⟩, fun q => ?_⟩
    -- What is listed has a path and is not empty.
    · rw [get?_byFile_listFile, hkeeps.byFile] at hf
      show f < put.2.paths.values.length ∧ _
      rw [hkeeps.paths]
      split at hf
      · rename_i hfile
        refine ⟨hfile ▸ hfaithful.lt_of_number? hnumber, fun hnil => ?_⟩
        rw [Option.some.inj hf, hnil] at hdeclarations
        cases hdeclarations
      · obtain ⟨hlt, hsome⟩ := hs.listed f slots hf
        exact ⟨Nat.lt_of_lt_of_le hlt hextends.length_le, hsome⟩
    -- Looked up by path, the file has the slots that were listed.
    · show put.2.declarationsIn ((put.2.listFile (s.paths.enter p).1 put.1).slotsOf q) = _
      have hnumberq : (put.2.listFile (s.paths.enter p).1 put.1).paths.number? q
          = if compare p q = .eq then some (s.paths.enter p).1 else s.paths.number? q := by
        refine Eq.trans ?_ (s.paths.number?_enter p q)
        exact congrArg (Numbering.number? · q) hkeeps.paths
      by_cases hpq : compare p q = .eq
      · rw [if_pos hpq] at hnumberq ⊢
        rw [slotsOf_of_number? hnumberq, hlisted, Function.update_self]
        exact hdeclarations
      -- Another path has another number, and with it the slots and declarations that it had.
      · rw [if_neg hpq] at hnumberq ⊢
        have hslots : (put.2.listFile (s.paths.enter p).1 put.1).slotsOf q = s.slotsOf q := by
          cases hq : s.paths.number? q with
          | none =>
            rw [slotsOf_of_number?_eq_none hq, slotsOf_of_number?_eq_none (hnumberq.trans hq)]
          | some f =>
            rw [slotsOf_of_number? hq, slotsOf_of_number? (hnumberq.trans hq), hlisted,
              Function.update_of_ne]
            rintro rfl
            exact hpq (hfaithful.compare_eq_of_number? hnumber
              (hextends.number?_eq hs.inStep.paths hfaithful hq))
        rw [hslots]
        refine hentered.declarationsIn_eq hkeeps.keys fun t ht => ?_
        obtain ⟨c, hc, -⟩ := hs.mem_slotsOf.1 ht
        exact (hkeeps.content t c hc).trans hc.symm

/-- **A replacement changes the declarations of one file**, and leaves the store consistent. -/
theorem Consistent.replace (hs : s.Consistent) (p : Path) (ds : List Declaration) :
    (s.replace p ds).1.Consistent ∧
      ∀ q, (s.replace p ds).1.declarationsOf q
        = if compare p q = .eq then DependencyGraph.mergeDeclarations ds
          else s.declarationsOf q := by
  have hdropped := (hs.dropFile p).1
  have hempty : (s.dropFile p).slotsOf p = [] := by
    rw [hs.slotsOf_dropFile, if_pos Std.ReflOrd.compare_self]
  obtain ⟨hput, hdeclarations⟩ := hdropped.putFile hempty (DependencyGraph.mergeDeclarations ds)
  refine ⟨hput, fun q => ?_⟩
  show ((s.dropFile p).putFile p _).declarationsOf q = _
  rw [hdeclarations, hs.declarationsOf_dropFile]
  split <;> rfl

/-- Putting in the declarations of a file makes up no other path. -/
theorem Consistent.mem_paths_putFile (hs : s.Consistent) {ds : List Declaration}
    (h : q ∈ (s.putFile p ds).paths.values) : q ∈ s.paths.values ∨ q = p := by
  cases ds with
  | nil => exact .inl h
  | cons d rest =>
    have hentered : InStep { s with paths := (s.paths.enter p).2 } s.slotsUnder :=
      { hs.inStep with paths := (hs.inStep.paths.enter p).1 }
    obtain ⟨-, hkeeps, -⟩ := hentered.putDeclarations (s.paths.enter p).1 (d :: rest)
    have hpaths : (s.putFile p (d :: rest)).paths = (s.paths.enter p).2 := hkeeps.paths
    rw [hpaths] at h
    exact Numbering.mem_values_enter h

/-- A replacement makes up no other path. -/
theorem Consistent.mem_paths_replace (hs : s.Consistent) {ds : List Declaration}
    (h : q ∈ (s.replace p ds).1.paths.values) : q ∈ s.paths.values ∨ q = p := by
  obtain ⟨hdropped, -, hpaths, -, -⟩ := hs.dropFile p
  rw [← hpaths]
  exact hdropped.mem_paths_putFile h

/-- **Every store that replacements lead to is consistent.** -/
theorem Reached.consistent (h : s.Reached) : s.Consistent := by
  induction h with
  | empty => exact consistent_empty
  | replace _ p ds ih => exact (ih.replace p ds).1

end DeclarationStore

end IncrementalBuild
