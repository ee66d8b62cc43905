import IncrementalBuild.BuildState.Store
import IncrementalBuild.Proofs.Json
import IncrementalBuild.Proofs.OrderedMap

/-!
# The state file holds the state

What is saved for a state is read again as it was saved, and so is a dependency record. A
text that a build saved is therefore refused only if the declarations in it are: a loaded
state has the inputs, the unfinished jobs, the choices and the commands of the state that
was saved.
-/

namespace IncrementalBuild

open Json

/-! ## Values of a known shape

The file is a JSON value, and reading it is shown in two steps. The text of a value that is
*readable* is read as that value again, which is a fact about JSON; and each part of a state is
found in the value that was written for it, which is shown here, part by part. Readable are values
in which every string is text and every number reads back, so it has to be said of all that is
written. -/

namespace Json

/-- A text, or nothing, is readable. -/
theorem Value.readable_ofText? (s : Option String) : (Value.ofText? s).Readable := by
  cases s with
  | none => exact .null
  | some s => exact .string s

/-- A list of texts is readable. -/
theorem Value.readable_ofTexts (l : List String) : (Value.ofTexts l).Readable := by
  refine .array fun v hv => ?_
  obtain ⟨s, -, rfl⟩ := List.mem_map.1 hv
  exact .string s

/-- Written fields are readable if their values are, since the keys that are written are texts. -/
theorem Value.readable_ofFields {l : List (String × Value)} (h : ∀ f ∈ l, f.2.Readable) :
    (Value.ofFields l).Readable := by
  refine .object (fun f hf => ?_) fun f hf => ?_
  · obtain ⟨g, -, rfl⟩ := List.mem_map.1 hf
    rfl
  · obtain ⟨g, hg, rfl⟩ := List.mem_map.1 hf
    exact h g hg

/-- **Reading every element of a list** gives what was written, if reading one element does. -/
theorem mapM_map_eq_some {α β γ : Type} {f : α → β} {g : β → Option γ} {h : α → γ} {l : List α}
    (hg : ∀ a ∈ l, g (f a) = some (h a)) : (l.map f).mapM g = some (l.map h) := by
  induction l with
  | nil => rfl
  | cons a rest ih =>
    rw [List.map_cons, List.mapM_cons, hg a List.mem_cons_self,
      ih fun b hb => hg b (List.mem_cons_of_mem _ hb)]
    rfl

/-- Texts are read as they were written. -/
theorem Value.list?_ofTexts (l : List String) :
    (Value.ofTexts l).list? Value.text? = some l := by
  have := mapM_map_eq_some (f := Value.ofText) (g := Value.text?) (h := fun s => s) (l := l)
    fun s _ => rfl
  rw [List.map_id'] at this
  exact this

/-- **A map is read as it was written**: every key is named and found under its name, and every
value is read as it was written. Since the entries stand in the order of the keys, inserting them
one by one gives the same map. -/
theorem Value.map?_ofFields {κ α : Type} [Ord κ] [Std.TransOrd κ] (key : String → κ)
    (read : Value → Option α) (name : κ → String) (print : α → Value) (m : OrderedMap κ α)
    (hkey : ∀ k, key (name k) = k) (hread : ∀ v ∈ m.values, read (print v) = some v) :
    Value.map? key read (Value.ofFields (m.entries.map fun e => (name e.1, print e.2)))
      = some m := by
  unfold Value.ofFields Value.map?
  rw [List.map_map]
  dsimp only
  have := mapM_map_eq_some
    (f := (fun f : String × Value => ((some f.1 : Text?), f.2)) ∘ fun e : κ × α =>
      (name e.1, print e.2))
    (g := fun f : Text? × Value => do
      let name ← f.1
      let value ← read f.2
      return (key name, value))
    (h := fun e => e) (l := m.entries) fun e he => by
      have hv := hread e.2 (List.mem_map.2 ⟨e, he, rfl⟩)
      -- An entry is read in two steps, its name and then its value.
      show ((read (print e.2)).bind fun value => some (key (name e.1), value)) = some e
      rw [hv, hkey]
      rfl
  rw [this, List.map_id', Option.map_some, OrderedMap.ofList_entries]

end Json

/-- **A set is the set of its members**, so writing them in their order loses nothing. -/
theorem OrderedSet.ofList_toList {κ : Type} [Ord κ] [Std.TransOrd κ] (s : OrderedSet κ) :
    OrderedSet.ofList s.toList = s := by
  have h := OrderedMap.ofList_entries s
  unfold OrderedMap.ofList at h
  unfold OrderedSet.ofList OrderedSet.toList OrderedMap.keys
  rw [List.foldl_map]
  exact h

/-! ## Declarations

Declarations have a record of four fields, of which two may be left out in a file; all four are
written. A record of dependencies holds a list of them. -/

namespace Declaration

/-- What is written for a declaration is readable. -/
theorem readable_toJson (d : Declaration) : d.toJson.Readable := by
  refine Value.readable_ofFields fun f hf => ?_
  simp only [List.mem_cons, List.not_mem_nil, or_false] at hf
  rcases hf with rfl | rfl | rfl | rfl
  · exact .string _
  · exact .string _
  · exact Value.readable_ofTexts _
  · exact Value.readable_ofTexts _

/-- **A declaration is read as it was written.** -/
theorem ofJson?_toJson (d : Declaration) : Declaration.ofJson? d.toJson = some d := by
  have hrecord : d.toJson.record? [("key", .required), ("fingerprint", .required),
      ("provides", .defaulted), ("uses", .defaulted)]
      = some [some (.ofText d.key), some (.ofText d.fingerprint.text),
          some (.ofTexts d.provides), some (.ofTexts d.uses)] := by
    simp [toJson, Value.ofFields, Value.record?, fieldsOfObject, fieldOf]
  unfold ofJson?
  rw [hrecord]
  -- The key and the fingerprint are there at once, the two lists are read element by element.
  show ((Value.ofTexts d.provides).list? Value.text?).bind (fun provides =>
    ((Value.ofTexts d.uses).list? Value.text?).bind fun uses =>
      some (⟨d.key, ⟨d.fingerprint.text⟩, provides, uses⟩ : Declaration)) = some d
  rw [Value.list?_ofTexts, Value.list?_ofTexts]
  rfl

/-- Written declarations are read as they were written. -/
theorem list?_toJson (ds : List Declaration) :
    (Value.array (ds.map toJson)).list? ofJson? = some ds := by
  have := mapM_map_eq_some (f := toJson) (g := ofJson?) (h := fun d => d) (l := ds)
    fun d _ => d.ofJson?_toJson
  rw [List.map_id'] at this
  exact this

end Declaration

/-- What is written for a dependency record is readable. -/
theorem DependencyRecord.readable_toJson (r : DependencyRecord) : r.toJson.Readable := by
  refine Value.readable_ofFields fun f hf => ?_
  simp only [List.mem_cons, List.not_mem_nil, or_false] at hf
  rcases hf with rfl | rfl
  · exact .string _
  · refine .array fun v hv => ?_
    obtain ⟨d, -, rfl⟩ := List.mem_map.1 hv
    exact d.readable_toJson

/-- **A dependency record is read as it was written.** -/
theorem DependencyRecord.parse_print (r : DependencyRecord) :
    DependencyRecord.parse r.print = .ok r := by
  have hrecord : r.toJson.record? [("source", .required), ("declarations", .defaulted)]
      = some [some (.ofText r.source.text),
          some (.array (r.declarations.map Declaration.toJson))] := by
    simp [toJson, Value.ofFields, Value.record?, fieldsOfObject, fieldOf]
  have hread : DependencyRecord.ofJson? r.toJson = some r := by
    unfold ofJson?
    rw [hrecord]
    show ((Value.array (r.declarations.map Declaration.toJson)).list? Declaration.ofJson?).bind
      (fun ds => some (⟨⟨r.source.text⟩, ds⟩ : DependencyRecord)) = some r
    rw [Declaration.list?_toJson]
    rfl
  unfold parse print
  rw [Value.read?_print r.readable_toJson, Option.bind_some, hread]

/-! ## The state file

A state file is a record of six fields, three of which are objects with paths or job keys for their
keys. Paths are compared by their components and keep their spelling: a map has no path twice, and
each is written, and inserted again, with the spelling that it has in the map. -/

namespace SavedState

/-- What is written for a state file is readable. -/
theorem readable_toJson (s : SavedState) : s.toJson.Readable := by
  refine Value.readable_ofFields fun f hf => ?_
  simp only [List.mem_cons, List.not_mem_nil, or_false] at hf
  -- The cases are the six fields: version, options, inputs, unfinished jobs, commands and
  -- declarations.
  rcases hf with rfl | rfl | rfl | rfl | rfl | rfl
  · exact .number (readsBack_toString _)
  · exact Value.readable_ofText? _
  · refine Value.readable_ofFields fun f hf => ?_
    obtain ⟨e, -, rfl⟩ := List.mem_map.1 hf
    refine Value.readable_ofFields fun f hf => ?_
    rw [List.mem_singleton.1 hf]
    exact Value.readable_ofText? _
  · exact Value.readable_ofTexts _
  · refine Value.readable_ofFields fun f hf => ?_
    obtain ⟨e, -, rfl⟩ := List.mem_map.1 hf
    exact .string _
  · refine Value.readable_ofFields fun f hf => ?_
    obtain ⟨e, -, rfl⟩ := List.mem_map.1 hf
    refine .array fun v hv => ?_
    obtain ⟨d, -, rfl⟩ := List.mem_map.1 hv
    exact d.readable_toJson

/-- A fingerprint, or none, is read as it was written. -/
theorem fingerprintOfJson?_ofText? (f : Option Fingerprint) :
    fingerprintOfJson? (.ofText? (f.map (·.text))) = some f := by
  cases f <;> rfl

/-- The entry of an input is read as it was written. -/
theorem inputOfJson?_ofFields (f : Option Fingerprint) :
    inputOfJson? (.ofFields [("fingerprint", .ofText? (f.map (·.text)))]) = some f := by
  have hrecord : (Value.ofFields [("fingerprint", .ofText? (f.map (·.text)))]).record?
      [("fingerprint", .optional)] = some [some (.ofText? (f.map (·.text)))] := by
    simp [Value.ofFields, Value.record?, fieldsOfObject, fieldOf]
  unfold inputOfJson?
  rw [hrecord]
  exact fingerprintOfJson?_ofText? f

/-- Unfinished jobs are read as they were written. -/
theorem jobKeysOfJson?_ofTexts (s : OrderedSet JobKey) :
    jobKeysOfJson? (.ofTexts (s.toList.map (·.text))) = some s := by
  unfold jobKeysOfJson? Value.ofTexts Value.list?
  rw [List.map_map]
  dsimp only
  have := mapM_map_eq_some (f := Value.ofText ∘ fun k : JobKey => k.text)
    (g := fun v => v.text?.map JobKey.mk) (h := fun k => k) (l := s.toList) fun k _ => rfl
  rw [this, List.map_id', Option.map_some, OrderedSet.ofList_toList]

/-- **A state file is read as it was written.** -/
theorem read?_print (s : SavedState) : read? s.print = some s := by
  unfold read? print
  rw [Value.read?_print s.readable_toJson, Option.bind_some]
  have hrecord : s.toJson.record? [("version", .required), ("options", .defaulted),
      ("inputs", .defaulted), ("stale_jobs", .defaulted), ("commands", .defaulted),
      ("declarations", .defaulted)]
      = some [some (.number (toString s.version.toNat)),
          some (.ofText? (s.options.map (·.text))),
          some (.ofFields (s.inputs.entries.map fun e =>
            (e.1.text, .ofFields [("fingerprint", .ofText? (e.2.map (·.text)))]))),
          some (.ofTexts (s.staleJobs.toList.map (·.text))),
          some (.ofFields (s.commands.entries.map fun e => (e.1.text, .ofText e.2.text))),
          some (.ofFields (s.declarations.entries.map fun e =>
            (e.1.text, .array (e.2.map Declaration.toJson))))] := by
    simp [toJson, Value.ofFields, Value.record?, fieldsOfObject, fieldOf]
  -- One equation for each field with a map in it, by the lemma on written maps.
  have hinputs := Value.map?_ofFields Path.mk inputOfJson? Path.text
    (fun f => .ofFields [("fingerprint", .ofText? (f.map (·.text)))]) s.inputs
    (fun _ => rfl) fun f _ => inputOfJson?_ofFields f
  have hcommands := Value.map?_ofFields JobKey.mk (fun v => v.text?.map Fingerprint.mk) JobKey.text
    (fun f => .ofText f.text) s.commands (fun _ => rfl) fun f _ => rfl
  have hdeclarations := Value.map?_ofFields Path.mk (Value.list? Declaration.ofJson?) Path.text
    (fun ds => .array (ds.map Declaration.toJson)) s.declarations (fun _ => rfl)
    fun ds _ => Declaration.list?_toJson ds
  -- The version is a number of at most ten digits, which is below the bound.
  have hversion : (Value.number (toString s.version.toNat)).natBelow? UInt32.size
      = some s.version.toNat := by
    unfold Value.natBelow?
    rw [Nat.toString_eq_ofList_toDigits]
    simp only [String.toList_ofList, Text.number?_toDigits, if_pos s.version.toNat_lt]
  unfold ofJson?
  rw [hrecord]
  simp only [bind, Option.bind, hversion, fieldOr, fingerprintOfJson?_ofText?, hinputs,
    jobKeysOfJson?_ofTexts, hcommands, hdeclarations, pure]
  rw [UInt32.ofNat_toNat]

/-- **The written form of a state file stands for it and is the only one that stays.** The
bytes that are written for a state are read as that state. Any text that is read as a state, be
it with other blanks, escapes and orders or with fields left out, turns into the written form
when the state is written, and that form is written again when it is read. -/
theorem written_form_stays :
    (∀ s : SavedState, (Text.Utf8.decode s.print.toUTF8).toOption.bind read? = some s) ∧
      ∀ (text : String) (s : SavedState), read? text = some s →
        ∃ again, (Text.Utf8.decode s.print.toUTF8).toOption.bind read? = some again ∧
          again.print.toUTF8 = s.print.toUTF8 := by
  have hread (s : SavedState) :
      (Text.Utf8.decode s.print.toUTF8).toOption.bind read? = some s := by
    rw [Text.Utf8.decode_toUTF8]
    simp only [Except.toOption, Option.bind_some, s.read?_print]
  exact ⟨hread, fun _ s _ => ⟨s, hread s, rfl⟩⟩

/-- A state file on one line: its records are lists and objects, keys do not ascend, a key
stands twice, escapes stand where none are needed, and a field without a meaning is there. -/
def looseText : String :=
  "[7, null, \x7b\"/q\": \x7b\"fingerprint\": \"\\u0031\", \"note\": [1e3]\x7d, \"/p//a\": [null]\x7d, " ++
  "[\"z\", \"a\", \"z\"], \x7b\"b\": \"2\", \"b\": \"3\"\x7d, " ++
  "\x7b\"/p/a\": [[\"k\\u00e9\\n\", \"\\\"\\ud83d\\ude00\"], " ++
  "\x7b\"uses\": [\"é\"], \"fingerprint\": \"\", \"key\": \"\"\x7d]\x7d]"

/-- The loose text turns into another text when its state is written, and that one stays. -/
theorem written_form_stays_looseText :
    ∃ s again, read? looseText = some s ∧ s.print ≠ looseText ∧
      (Text.Utf8.decode s.print.toUTF8).toOption.bind read? = some again ∧
      again.print.toUTF8 = s.print.toUTF8 := by
  have hchecked : (read? looseText).any (fun s => s.print != looseText) = true := by
    decide +kernel
  cases hs : read? looseText with
  | none =>
    rw [hs] at hchecked
    cases hchecked
  | some s =>
    rw [hs] at hchecked
    obtain ⟨again, hagain, hsame⟩ := written_form_stays.2 looseText s hs
    exact ⟨s, again, rfl, bne_iff_ne.1 hchecked, hagain, hsame⟩

end SavedState

/-- What stands in the file of a state is turned into the state, but for its declarations. -/
theorem SavedState.toState_ofState (s : BuildState) :
    (ofState s).toState
      = (graphOf (ofState s).declarations.entries .empty).map fun graph => { s with graph } := rfl

namespace StateLoad

variable {s : BuildState}

/-- A state is loaded again if its declarations are accepted. -/
theorem ofText_print_of_graphOf {g : DependencyGraph}
    (h : SavedState.graphOf (SavedState.ofState s).declarations.entries .empty = .ok g) :
    ofText (SavedState.ofState s).print = .loaded { s with graph := g } := by
  unfold ofText
  rw [SavedState.read?_print]
  dsimp only
  rw [SavedState.toState_ofState, h]
  rfl

/-- A state is refused if its declarations are. -/
theorem ofText_print_of_fault {fault : StateFault}
    (h : SavedState.graphOf (SavedState.ofState s).declarations.entries .empty = .error fault) :
    ofText (SavedState.ofState s).print = .corrupt fault := by
  unfold ofText
  rw [SavedState.read?_print]
  dsimp only
  rw [SavedState.toState_ofState, h]
  rfl

/-- **What loading a saved state gives**: its inputs, unfinished jobs, choices and commands,
unless its declarations are refused. -/
theorem ofText_print {state : BuildState}
    (h : ofText (SavedState.ofState s).print = .loaded state) :
    state.inputs = s.inputs ∧ state.staleJobs = s.staleJobs ∧ state.options = s.options ∧
      state.commands = s.commands ∧
      SavedState.graphOf (SavedState.ofState s).declarations.entries .empty = .ok state.graph := by
  -- The declarations decide: with them accepted the two states differ in nothing else.
  cases hg : SavedState.graphOf (SavedState.ofState s).declarations.entries .empty with
  | error fault =>
    rw [ofText_print_of_fault hg] at h
    cases h
  | ok g =>
    rw [ofText_print_of_graphOf hg] at h
    obtain rfl := loaded.inj h
    exact ⟨rfl, rfl, rfl, rfl, rfl⟩

end StateLoad

end IncrementalBuild
