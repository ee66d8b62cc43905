import IncrementalBuild.Inputs
import IncrementalBuild.Proofs.Faultless
import IncrementalBuild.Proofs.MemoryTree

/-!
# What the search for inputs finds

The search lists the directory that it begins in, and then every directory that it comes to, unless
its name begins with a dot. That it comes to an end is due to directories lying in directories: with
each step less of what is stored lies below. That it gets everywhere is due to all directories above
a file being stored, each listed by the one above it.

So it finds exactly the files that can be reached without passing a name that begins with a dot,
and with the patterns it finds exactly the inputs. What the patterns are held against is not the
path as it is spelled: backslashes count as slashes, so that a pattern may choose a file by a
directory that it does not lie in.
-/

namespace IncrementalBuild

/-- The text that a component stands for. -/
def Component.text : Component → String
  | root => "/"
  | current => "."
  | parent => ".."
  | name text => text

/-- **Whether a path lies below a directory and nothing on the way begins with a dot**, itself
included. -/
def Path.LiesOpenlyBelow (p dir : Path) : Prop :=
  ∃ below, below ≠ [] ∧ p.components = dir.components ++ below ∧
    ∀ c ∈ below, ¬c.text.startsWith "." = true

namespace MemoryFiles

variable {fs : MemoryFiles} {paths : List Path} {p q dir : Path}

/-! ## How much lies below a directory -/

/-- The number of stored paths that a path is above of. -/
def sizeBelow (fs : MemoryFiles) (dir : Path) : Nat :=
  fs.entries.keys.countP fun q => dir.IsAbove q

theorem sizeBelow_le (fs : MemoryFiles) (dir : Path) : fs.sizeBelow dir ≤ FileSystem.extent fs := by
  refine List.countP_le_length.trans (le_of_eq ?_)
  exact List.length_map _

/-- **Below what lies below a directory lies less.** -/
theorem sizeBelow_lt (hq : q ∈ fs.entries.keys) (h : dir.IsAbove q) :
    fs.sizeBelow q < fs.sizeBelow dir := by
  obtain ⟨before, after, he⟩ := List.append_of_mem hq
  have hmono (l : List Path) : l.countP (fun p => q.IsAbove p) ≤ l.countP fun p => dir.IsAbove p :=
    List.countP_mono_left fun p _ hp => decide_eq_true (h.trans (of_decide_eq_true hp))
  unfold sizeBelow
  rw [he, List.countP_append, List.countP_append, List.countP_cons, List.countP_cons,
    if_neg (by simpa using q.not_isAbove_self), if_pos (by simpa using h)]
  have := hmono before
  have := hmono after
  omega

end MemoryFiles

/-! ## The search -/

/-- Whether a name is passed over depends on how the last component begins. -/
theorem InputSelection.isHidden_iff {p : Path} {front : List Component} {c : Component}
    (hp : p.components = front ++ [c]) (hfront : front ≠ []) (hc : c ≠ .parent) :
    isHidden p = true ↔ c.text.startsWith "." = true := by
  have htail : c ∈ p.components.tail := by
    rw [hp, List.tail_append_of_ne_nil hfront]
    exact List.mem_append_right _ List.mem_cons_self
  obtain ⟨hroot, hcurrent⟩ := Path.ne_of_mem_tail htail
  unfold isHidden Path.fileName
  rw [hp, List.getLast?_append_cons, List.getLast?_singleton]
  cases c with
  | root => exact absurd rfl hroot
  | current => exact absurd rfl hcurrent
  | parent => exact absurd rfl hc
  | name text =>
    show isHiddenName text.toUTF8 = true ↔ _
    rw [isHiddenName_toUTF8]
    exact Iff.rfl

/-- What a list of steps of which each may fail results in. -/
theorem mapM_cases {ε α β : Type} (f : α → Except ε β) (l : List α) :
    (∃ results, l.mapM f = .ok results ∧ (∀ a ∈ l, ∃ b, f a = .ok b) ∧
      ∀ b, b ∈ results ↔ ∃ a ∈ l, f a = .ok b) ∨
    ∃ e, l.mapM f = .error e ∧ ∃ a ∈ l, f a = .error e := by
  induction l with
  | nil => exact .inl ⟨[], rfl, fun _ h => absurd h List.not_mem_nil, by simp⟩
  | cons a rest ih =>
    rw [List.mapM_cons]
    cases hfirst : f a with
    | error e => exact .inr ⟨e, rfl, a, List.mem_cons_self, hfirst⟩
    | ok b =>
      rcases ih with ⟨results, hrest, hall, hmem⟩ | ⟨e, hrest, a', ha', he⟩
      · refine .inl ⟨b :: results, by rw [hrest]; rfl,
          List.forall_mem_cons.2 ⟨⟨b, hfirst⟩, hall⟩, fun b' => ?_⟩
        rw [List.mem_cons, List.exists_mem_cons_iff, hmem, hfirst, Except.ok.injEq, eq_comm]
      · exact .inr ⟨e, by rw [hrest]; rfl, a', List.mem_cons_of_mem _ ha', he⟩

namespace MemoryFiles

variable {fs : MemoryFiles} {paths : List Path} {p q dir : Path}

theorem not_isHidden_iff (h : fs.Stores paths) (hparent : ∀ p ∈ paths, .parent ∉ p.components)
    (hq : q ∈ fs.entries.keys) {front : List Component} {c : Component}
    (hcomponents : q.components = front ++ [c]) (hfront : front ≠ []) :
    InputSelection.isHidden q = false ↔ ¬c.text.startsWith "." = true := by
  have hc : c ≠ .parent := by
    rintro rfl
    obtain ⟨p, hp, hbegins⟩ := h.exists_isPrefix hq
    refine hparent p hp (hbegins.subset ?_)
    rw [hcomponents]
    exact List.mem_append_right _ List.mem_cons_self
  rw [← InputSelection.isHidden_iff hcomponents hfront hc, Bool.not_eq_true]

/-- **The way to a file below a directory begins with something that the directory lists**: the
file itself, or a directory that it lies below. -/
theorem liesOpenlyBelow_iff (h : fs.Stores paths) (hparent : ∀ p ∈ paths, .parent ∉ p.components)
    (hne : dir.components ≠ []) (hp : p ∈ fs.entries.keys) :
    p.LiesOpenlyBelow dir ↔ ∃ q ∈ fs.entries.keys, (∃ c, q.components = dir.components ++ [c]) ∧
      InputSelection.isHidden q = false ∧ (p = q ∨ p.LiesOpenlyBelow q) := by
  constructor
  · rintro ⟨below, hbelow, he, hopen⟩
    obtain ⟨c, rest, rfl⟩ := List.exists_cons_of_ne_nil hbelow
    have hc := hopen c List.mem_cons_self
    rcases eq_or_ne rest [] with rfl | hrest
    · exact ⟨p, hp, ⟨c, he⟩, (not_isHidden_iff h hparent hp he hne).2 hc, .inl rfl⟩
    rw [List.append_cons] at he
    obtain ⟨q, hq⟩ := Path.exists_components_of_isPrefix (p := p) ⟨rest, he.symm⟩
    have habove : q.IsAbove p := ⟨hq ▸ List.concat_ne_nil _ _, rest, hrest, by rw [hq, he]⟩
    obtain ⟨q', hmem, hsame⟩ := OrderedMap.mem_entries_of_get? (h.get?_of_isAbove hp habove)
    have hkey : q' ∈ fs.entries.keys := List.mem_map.2 ⟨_, hmem, rfl⟩
    have hq' := (Path.compare_eq_iff.1 hsame).trans hq
    exact ⟨q', hkey, ⟨c, hq'⟩, (not_isHidden_iff h hparent hkey hq' hne).2 hc,
      .inr ⟨rest, hrest, by rw [hq', he], fun d hd => hopen d (List.mem_cons_of_mem _ hd)⟩⟩
  · rintro ⟨q, hq, ⟨c, he⟩, hhidden, hpq⟩
    have hc := (not_isHidden_iff h hparent hq he hne).1 hhidden
    rcases hpq with rfl | ⟨rest, -, hrest, hopen⟩
    · exact ⟨[c], List.cons_ne_nil _ _, he, by simpa using hc⟩
    · exact ⟨c :: rest, List.cons_ne_nil _ _, by rw [hrest, he, List.append_assoc]; rfl,
        List.forall_mem_cons.2 ⟨hc, hopen⟩⟩

/-- What a file lies below is a directory. -/
theorem directory_of_liesOpenlyBelow (h : fs.Stores paths) (hp : p ∈ fs.entries.keys)
    (hq : q.components ≠ []) (hlies : p.LiesOpenlyBelow q) :
    fs.entries.get? q = some .directory := by
  obtain ⟨below, hbelow, he, -⟩ := hlies
  exact h.get?_of_isAbove hp ⟨hq, below, hbelow, he⟩

/-- What the search finds at a path that is listed. -/
def filesAt (fs : MemoryFiles) (depth : Nat) (p : Path) : Except FileError (List Path) :=
  if InputSelection.isHidden p then .ok []
  else if FileSystem.isDirectory fs p then InputSelection.filesBelow fs depth p
  else if FileSystem.isFile fs p then .ok [p]
  else .ok []

/-- **At a listed path the search finds the files that the way leads to**, if it does where the path
is a directory. -/
theorem filesAt_spec (h : fs.Stores paths) {n : Nat} (hq : q ∈ fs.entries.keys)
    (hne : q.components ≠ [])
    (hbelow : fs.entries.get? q = some .directory → ∃ found,
      InputSelection.filesBelow fs n q = .ok found ∧
        ∀ p, p ∈ found ↔ p ∈ fs.files ∧ p.LiesOpenlyBelow q) :
    ∃ found, filesAt fs n q = .ok found ∧ ∀ p, p ∈ found ↔
      p ∈ fs.files ∧ InputSelection.isHidden q = false ∧ (p = q ∨ p.LiesOpenlyBelow q) := by
  unfold filesAt
  split
  · rename_i hhidden
    exact ⟨[], rfl, fun p => by simp [hhidden]⟩
  rename_i hhidden
  rw [Bool.not_eq_true] at hhidden
  simp only [hhidden, true_and]
  split
  · rename_i hdir
    obtain ⟨found, hfound, hmem⟩ := hbelow (isDirectory_iff.1 hdir)
    refine ⟨found, hfound, fun p => ?_⟩
    rw [hmem]
    -- A directory is no file, so the path itself is not among the files.
    refine and_congr_right fun hp => (or_iff_right ?_).symm
    rintro rfl
    obtain ⟨content, hfile⟩ := isFile_iff.1 (mem_files_iff.1 hp).2
    rw [isDirectory_iff.1 hdir] at hfile
    cases hfile
  · rename_i hdir
    -- Nothing lies below what is no directory.
    have hnone {p : Path} (hp : p ∈ fs.files) : ¬p.LiesOpenlyBelow q := fun hlies =>
      hdir (isDirectory_iff.2 (directory_of_liesOpenlyBelow h (mem_files_iff.1 hp).1 hne hlies))
    have hfiles (p : Path) : p ∈ fs.files ∧ (p = q ∨ p.LiesOpenlyBelow q) ↔
        FileSystem.isFile fs q = true ∧ p = q := by
      constructor
      · rintro ⟨hp, rfl | hlies⟩
        · exact ⟨(mem_files_iff.1 hp).2, rfl⟩
        · exact absurd hlies (hnone hp)
      · rintro ⟨hfile, rfl⟩
        exact ⟨mem_files_iff.2 ⟨hq, hfile⟩, .inl rfl⟩
    split
    · rename_i hfile
      exact ⟨[q], rfl, fun p => by rw [hfiles, List.mem_singleton, and_iff_right hfile]⟩
    · rename_i hfile
      exact ⟨[], rfl, fun p => iff_of_false List.not_mem_nil fun hp => hfile ((hfiles p).1 hp).1⟩

/-- **The search finds the files that lie openly below a directory**, each wherever it lies, if
there is fuel for all that is stored below. -/
theorem filesBelow_spec (h : fs.Stores paths) (hparent : ∀ p ∈ paths, .parent ∉ p.components)
    {n : Nat} (hdir : fs.entries.get? dir = some .directory) (hn : fs.sizeBelow dir < n) :
    ∃ found, InputSelection.filesBelow fs n dir = .ok found ∧
      ∀ p, p ∈ found ↔ p ∈ fs.files ∧ p.LiesOpenlyBelow dir := by
  induction n generalizing dir with
  | zero => exact absurd hn (Nat.not_lt_zero _)
  | succ n ih =>
    have hne := h.components_ne_nil hdir
    obtain ⟨children, hlist, hchildren⟩ := list_spec hdir hne
    -- Each child is visited with less fuel, and there is less stored below it.
    have hvisit : ∀ q ∈ children, ∃ found, filesAt fs n q = .ok found ∧ ∀ p, p ∈ found ↔
        p ∈ fs.files ∧ InputSelection.isHidden q = false ∧ (p = q ∨ p.LiesOpenlyBelow q) := by
      intro q hq
      obtain ⟨hkey, c, hc⟩ := (hchildren q).1 hq
      have hless := sizeBelow_lt hkey ⟨hne, [c], List.cons_ne_nil _ _, hc⟩
      exact filesAt_spec h hkey (hc ▸ List.concat_ne_nil _ _) fun hqdir => ih hqdir (by omega)
    have hsearch : InputSelection.filesBelow fs (n + 1) dir
        = (children.mapM (filesAt fs n)).map List.flatten := by
      rw [InputSelection.filesBelow, hlist]
      show (children.mapM (filesAt fs n) >>= fun found => pure found.flatten) = _
      cases children.mapM (filesAt fs n) <;> rfl
    rcases mapM_cases (filesAt fs n) children with ⟨results, hresults, -, hmem⟩ | ⟨e, -, q, hq, he⟩
    -- No visit fails, since each is of something that is stored.
    swap
    · obtain ⟨found, hfound, -⟩ := hvisit q hq
      rw [hfound] at he
      cases he
    refine ⟨results.flatten, by rw [hsearch, hresults]; rfl, fun p => ?_⟩
    rw [List.mem_flatten]
    constructor
    · rintro ⟨found, hfound, hp⟩
      obtain ⟨q, hq, he⟩ := (hmem found).1 hfound
      obtain ⟨found', he', hspec⟩ := hvisit q hq
      obtain rfl := Except.ok.inj (he.symm.trans he')
      obtain ⟨hfile, hway⟩ := (hspec p).1 hp
      obtain ⟨hkey, hc⟩ := (hchildren q).1 hq
      exact ⟨hfile, (liesOpenlyBelow_iff h hparent hne (mem_files_iff.1 hfile).1).2
        ⟨q, hkey, hc, hway⟩⟩
    · rintro ⟨hfile, hlies⟩
      obtain ⟨q, hkey, hc, hway⟩ :=
        (liesOpenlyBelow_iff h hparent hne (mem_files_iff.1 hfile).1).1 hlies
      have hq := (hchildren q).2 ⟨hkey, hc⟩
      obtain ⟨found, hfound, hspec⟩ := hvisit q hq
      exact ⟨found, (hmem found).2 ⟨q, hq, hfound⟩, (hspec p).2 ⟨hfile, hway⟩⟩

end MemoryFiles

/-! ## What patterns choose -/

/-- **Whether a pattern is valid and describes a text.** -/
def Glob.Matches (pattern text : String) : Prop :=
  ∃ glob, Glob.parse pattern = .ok glob ∧ glob.accepts text = true

/-- The text of a path with slashes in place of backslashes. -/
def Path.slashed (p : Path) : String := p.text.map fun c => if c = '\\' then '/' else c

namespace InputPatterns

/-- A set of patterns is read if each of them is, and some of it describes a text if some pattern
does. -/
theorem parseSet_cases (role : PatternRole) (patterns : List String) :
    (∃ globs, parseSet role patterns = .ok globs ∧
      (∀ pattern ∈ patterns, ∃ glob, Glob.parse pattern = .ok glob) ∧
      ∀ text, globs.any (·.accepts text) = true ↔ ∃ pattern ∈ patterns, Glob.Matches pattern text) ∨
    ∃ e, parseSet role patterns = .error (role, e) ∧
      ∃ pattern ∈ patterns, Glob.parse pattern = .error e := by
  rcases mapM_cases (fun p => (Glob.parse p).mapError (role, ·)) patterns with
    ⟨globs, hglobs, hall, hmem⟩ | ⟨e, he, pattern, hpattern, hfails⟩
  · simp only [mapError_eq_ok_iff] at hall hmem
    refine .inl ⟨globs, hglobs, hall, fun text => ?_⟩
    rw [List.any_eq_true]
    constructor
    · rintro ⟨glob, hglob, haccepts⟩
      obtain ⟨pattern, hpattern, hparse⟩ := (hmem glob).1 hglob
      exact ⟨pattern, hpattern, glob, hparse, haccepts⟩
    · rintro ⟨pattern, hpattern, glob, hparse, haccepts⟩
      exact ⟨glob, (hmem glob).2 ⟨pattern, hpattern, hparse⟩, haccepts⟩
  · cases hparse : Glob.parse pattern with
    | ok glob =>
      rw [hparse] at hfails
      cases hfails
    | error fault =>
      rw [hparse] at hfails
      obtain rfl := Except.error.inj hfails
      exact .inr ⟨fault, he, pattern, hpattern, hparse⟩

/-- **Patterns are read exactly if each of them is valid**, and they accept what one of the first
describes and none of the others. -/
theorem parse_cases (included excluded : List String) :
    (∃ patterns, parse included excluded = .ok patterns ∧
      (∀ pattern ∈ included ++ excluded, ∃ glob, Glob.parse pattern = .ok glob) ∧
      ∀ text, patterns.accepts text = true ↔ (∃ pattern ∈ included, Glob.Matches pattern text) ∧
        ∀ pattern ∈ excluded, ¬Glob.Matches pattern text) ∨
    ∃ e, parse included excluded = .error e ∧
      ∃ pattern ∈ included ++ excluded, ∃ fault, Glob.parse pattern = .error fault := by
  unfold parse
  rcases parseSet_cases .including included with
    ⟨globs, hglobs, hall, haccepts⟩ | ⟨e, he, pattern, hpattern, hfails⟩
  swap
  · exact .inr ⟨_, by rw [he]; rfl, pattern, List.mem_append_left _ hpattern, e, hfails⟩
  rcases parseSet_cases .excluding excluded with
    ⟨globs', hglobs', hall', haccepts'⟩ | ⟨e, he, pattern, hpattern, hfails⟩
  swap
  · exact .inr ⟨_, by rw [hglobs, he]; rfl, pattern, List.mem_append_right _ hpattern, e, hfails⟩
  refine .inl ⟨⟨globs, globs'⟩, by rw [hglobs, hglobs']; rfl,
    List.forall_mem_append.2 ⟨hall, hall'⟩, fun text => ?_⟩
  unfold accepts
  rw [Bool.and_eq_true, haccepts, Bool.not_eq_true', ← Bool.not_eq_true, haccepts']
  simp

end InputPatterns

/-! ## The inputs -/

namespace InputSelection

variable {fs : MemoryFiles} {paths : List Path} {root : Path}

/-- **Whether the patterns of a selection choose a path**: a stored file that lies openly below the
directory. Seen from there, some pattern that includes describes it and none that excludes. -/
structure Chooses (s : InputSelection) (fs : MemoryFiles) (root p : Path) : Prop where
  stored : p ∈ fs.files
  below : p.LiesOpenlyBelow root
  matched : ∃ rel, p.relativeTo? root = some rel ∧
    p.components = root.components ++ rel.components ∧
    (∃ pattern ∈ s.included, Glob.Matches pattern rel.slashed) ∧
    ∀ pattern ∈ s.excluded, ¬Glob.Matches pattern rel.slashed

/-- **Patterns choose what the search finds and they accept.** -/
theorem chosenBelow_spec (h : fs.Stores paths) (hparent : ∀ p ∈ paths, .parent ∉ p.components)
    (hroot : fs.entries.get? root = some .directory) {s : InputSelection} {patterns : InputPatterns}
    (haccepts : ∀ text, patterns.accepts text = true ↔
      (∃ pattern ∈ s.included, Glob.Matches pattern text) ∧
        ∀ pattern ∈ s.excluded, ¬Glob.Matches pattern text) :
    ∃ found, chosenBelow fs root patterns = .ok found ∧ ∀ p, p ∈ found ↔ s.Chooses fs root p := by
  obtain ⟨found, hfound, hmem⟩ := MemoryFiles.filesBelow_spec h hparent hroot
    (Nat.lt_succ_of_le (fs.sizeBelow_le root))
  have hne := h.components_ne_nil hroot
  refine ⟨_, by rw [chosenBelow, hfound]; rfl, fun p => ?_⟩
  rw [List.mem_filter, hmem]
  constructor
  · rintro ⟨⟨hstored, hbelow⟩, hkept⟩
    split at hkept
    · rename_i rel hrel
      exact ⟨hstored, hbelow, rel, hrel, Path.components_relativeTo? hrel hne,
        (haccepts _).1 hkept⟩
    · cases hkept
  · rintro ⟨hstored, hbelow, rel, hrel, -, hmatched⟩
    refine ⟨⟨hstored, hbelow⟩, ?_⟩
    rw [hrel]
    exact (haccepts _).2 hmatched

/-- The search fails where it begins in what is no directory. -/
theorem chosenBelow_eq_error (hroot : ¬FileSystem.isDirectory fs root = true)
    (patterns : InputPatterns) : ∃ e, chosenBelow fs root patterns = .error e := by
  have hlist : FileSystem.list fs root = .error (.notDirectory root) := by
    rw [MemoryFiles.isDirectory_iff] at hroot
    simp only [FileSystem.list]
  exact ⟨_, by rw [chosenBelow, filesBelow, hlist]; rfl⟩

/-- **Whether a selection cannot be answered**: a named file is not a file, or patterns include
files, and some pattern is invalid or the search would not begin in a directory. -/
def Fails (s : InputSelection) (fs : MemoryFiles) (root : Path) : Prop :=
  (∃ file ∈ s.files, ¬FileSystem.isFile fs (root.join ⟨file⟩) = true) ∨
    s.included ≠ [] ∧ ((∃ pattern ∈ s.included ++ s.excluded, ∃ fault,
      Glob.parse pattern = .error fault) ∨ ¬FileSystem.isDirectory fs root = true)

/-- **Whether a path is to be among the inputs**: it is named, or patterns are given and choose
it. -/
def Wants (s : InputSelection) (fs : MemoryFiles) (root p : Path) : Prop :=
  (∃ file ∈ s.files, p = root.join ⟨file⟩) ∨ s.included ≠ [] ∧ s.Chooses fs root p

/-- The named files are found if all of them are there. -/
theorem namedFiles_cases (s : InputSelection) (fs : MemoryFiles) (root : Path) :
    (∃ named, s.namedFiles fs root = .ok named ∧
      (∀ file ∈ s.files, FileSystem.isFile fs (root.join ⟨file⟩) = true) ∧
      ∀ p, p ∈ named ↔ ∃ file ∈ s.files, p = root.join ⟨file⟩) ∨
    ∃ e, s.namedFiles fs root = .error e ∧
      ∃ file ∈ s.files, ¬FileSystem.isFile fs (root.join ⟨file⟩) = true := by
  let named (file : String) : Except InputError Path :=
    let p := root.join ⟨file⟩
    if FileSystem.isFile fs p then .ok p else .error (.missingFile p)
  have hnamed (file : String) (p : Path) : named file = .ok p ↔
      FileSystem.isFile fs (root.join ⟨file⟩) = true ∧ p = root.join ⟨file⟩ := by
    dsimp only [named]
    split
    · rename_i hthere
      rw [and_iff_right hthere, Except.ok.injEq, eq_comm]
    · rename_i hmissing
      exact iff_of_false nofun fun hp => hmissing hp.1
  rcases mapM_cases named s.files with ⟨found, hfound, hall, hmem⟩ | ⟨e, he, file, hfile, hfails⟩
  · simp only [hnamed] at hall hmem
    have hfiles : ∀ file ∈ s.files, FileSystem.isFile fs (root.join ⟨file⟩) = true :=
      fun file hfile => (hall file hfile).choose_spec.1
    refine .inl ⟨found, hfound, hfiles, fun p => (hmem p).trans ?_⟩
    exact exists_congr fun file => and_congr_right fun hfile => and_iff_right (hfiles file hfile)
  · refine .inr ⟨e, he, file, hfile, fun hthere => ?_⟩
    have hthere := (hnamed file _).2 ⟨hthere, rfl⟩
    rw [hfails] at hthere
    cases hthere

/-- What the patterns of a selection choose, or why they cannot. -/
def chosenBy (s : InputSelection) (fs : MemoryFiles) (root : Path) :
    Except InputError (List Path) := do
  let patterns ← (InputPatterns.parse s.included s.excluded).mapError
    fun (role, e) => .pattern role e
  (chosenBelow fs root patterns).mapError .file

/-- Files are chosen if all patterns are valid and the search begins in a directory. -/
theorem chosenBy_cases (h : fs.Stores paths) (hparent : ∀ p ∈ paths, .parent ∉ p.components)
    (s : InputSelection) (root : Path) :
    (∃ chosen, s.chosenBy fs root = .ok chosen ∧
      (∀ pattern ∈ s.included ++ s.excluded, ∃ glob, Glob.parse pattern = .ok glob) ∧
      FileSystem.isDirectory fs root = true ∧ ∀ p, p ∈ chosen ↔ s.Chooses fs root p) ∨
    ∃ e, s.chosenBy fs root = .error e ∧
      ((∃ pattern ∈ s.included ++ s.excluded, ∃ fault, Glob.parse pattern = .error fault) ∨
        ¬FileSystem.isDirectory fs root = true) := by
  unfold chosenBy
  rcases InputPatterns.parse_cases s.included s.excluded with
    ⟨patterns, hpatterns, hall, haccepts⟩ | ⟨⟨role, fault⟩, he, hinvalid⟩
  · rw [hpatterns]
    show (∃ chosen, (chosenBelow fs root patterns).mapError InputError.file = _ ∧ _) ∨
      ∃ e, (chosenBelow fs root patterns).mapError InputError.file = _ ∧ _
    by_cases hroot : FileSystem.isDirectory fs root = true
    · obtain ⟨chosen, hchosen, hmem⟩ :=
        chosenBelow_spec h hparent (MemoryFiles.isDirectory_iff.1 hroot) haccepts
      exact .inl ⟨chosen, by rw [hchosen]; rfl, hall, hroot, hmem⟩
    · obtain ⟨e, he⟩ := chosenBelow_eq_error hroot patterns
      exact .inr ⟨.file e, by rw [he]; rfl, .inr hroot⟩
  · exact .inr ⟨.pattern role fault, by rw [he]; rfl, .inl hinvalid⟩

theorem find_eq (s : InputSelection) (fs : MemoryFiles) (root : Path) :
    s.find fs root = s.namedFiles fs root >>= fun named =>
      (if s.included.isEmpty then .ok [] else s.chosenBy fs root).map fun chosen =>
        (OrderedSet.ofList (named ++ chosen)).toList := by
  unfold find chosenBy
  cases s.namedFiles fs root with
  | error e => rfl
  | ok named =>
    cases s.included.isEmpty with
    | true => rfl
    | false =>
      cases InputPatterns.parse s.included s.excluded with
      | error e => rfl
      | ok patterns =>
        show (chosenBelow fs root patterns).mapError InputError.file >>= _ = Except.map _
          ((chosenBelow fs root patterns).mapError InputError.file)
        cases chosenBelow fs root patterns <;> rfl

/-- A selection is answered with what it wants, or it fails. -/
theorem find_cases (h : fs.Stores paths) (hparent : ∀ p ∈ paths, .parent ∉ p.components)
    (s : InputSelection) (root : Path) :
    (∃ found : List Path, s.find fs root = .ok (OrderedSet.ofList found).toList ∧
      ¬s.Fails fs root ∧ ∀ p, p ∈ found ↔ s.Wants fs root p) ∨
    ∃ e, s.find fs root = .error e ∧ s.Fails fs root := by
  rw [find_eq]
  rcases s.namedFiles_cases fs root with ⟨named, hnamed, hfiles, hmem⟩ | ⟨e, he, hmissing⟩
  swap
  · exact .inr ⟨e, by rw [he]; rfl, .inl hmissing⟩
  have hthere : ¬∃ file ∈ s.files, ¬FileSystem.isFile fs (root.join ⟨file⟩) = true :=
    fun ⟨file, hfile, hmissing⟩ => hmissing (hfiles file hfile)
  rw [hnamed]
  cases hincluded : s.included.isEmpty with
  | true =>
    have hnone : s.included = [] := List.isEmpty_iff.1 hincluded
    refine .inl ⟨named ++ [], rfl, ?_, fun p => ?_⟩
    · exact fun hfails => hfails.elim hthere fun hpatterns => hpatterns.1 hnone
    · rw [List.append_nil, hmem]
      exact (or_iff_left fun hchosen => hchosen.1 hnone).symm
  | false =>
    have hsome : s.included ≠ [] := List.isEmpty_eq_false_iff.1 hincluded
    rcases chosenBy_cases h hparent s root with
      ⟨chosen, hchosen, hall, hroot, hmem'⟩ | ⟨e, he, hfails⟩
    · refine .inl ⟨named ++ chosen, ?_, ?_, fun p => ?_⟩
      · rw [hchosen]
        rfl
      · rintro (hmissing | ⟨-, ⟨pattern, hpattern, fault, hfault⟩ | hnot⟩)
        · exact hthere hmissing
        · obtain ⟨glob, hglob⟩ := hall pattern hpattern
          rw [hglob] at hfault
          cases hfault
        · exact hnot hroot
      · rw [List.mem_append, hmem, hmem']
        exact or_congr_right (and_iff_right hsome).symm
    · exact .inr ⟨e, by rw [he]; rfl, .inr ⟨hsome, hfails⟩⟩

/-- **The inputs that are found are exactly those that are wanted**, in the order of paths, and they
are found unless the selection cannot be answered. -/
theorem find_exact {added : List (Path × ByteArray)}
    (hparent : ∀ file ∈ added, .parent ∉ file.1.components)
    (habove : ∀ file ∈ added, ∀ other ∈ added, ¬file.1.IsAbove other.1) (s : InputSelection)
    (root : Path) :
    ((∃ e, s.find (MemoryFiles.ofFiles added) root = .error e) ↔
      s.Fails (MemoryFiles.ofFiles added) root) ∧
    ∀ found, s.find (MemoryFiles.ofFiles added) root = .ok found →
      found.Pairwise (fun p q => compare p q = .lt) ∧
      (∀ p ∈ found, s.Wants (MemoryFiles.ofFiles added) root p) ∧
      ∀ p, s.Wants (MemoryFiles.ofFiles added) root p → ∃ q ∈ found, compare q p = .eq := by
  have hstores := MemoryFiles.stores_ofFiles habove
  have hparent' : ∀ p ∈ added.map (·.1), .parent ∉ p.components := List.forall_mem_map.2 hparent
  rcases s.find_cases hstores hparent' root with ⟨all, hfind, hfits, hmem⟩ | ⟨e, he, hfails⟩
  · refine ⟨iff_of_false (fun ⟨e, he⟩ => ?_) hfits, fun found hfound => ?_⟩
    · rw [hfind] at he
      cases he
    · refine ⟨ascending_of_find hfound, ?_⟩
      obtain rfl := Except.ok.inj (hfind.symm.trans hfound)
      refine ⟨fun p hp => (hmem p).1 (OrderedSet.mem_of_mem_ofList hp), fun p hp => ?_⟩
      refine OrderedMap.contains_iff_keys.1 ?_
      rw [OrderedSet.contains_ofList, List.any_eq_true]
      exact ⟨p, (hmem p).2 hp, beq_iff_eq.2 Std.ReflOrd.compare_self⟩
  · refine ⟨iff_of_true ⟨e, he⟩ hfails, fun found hfound => ?_⟩
    rw [he] at hfound
    cases hfound

end InputSelection

/-! A hidden directory is passed over, and a file that a pattern excludes is named. -/

namespace SmallTree

def added : List (Path × ByteArray) :=
  [(⟨"/p/src/b.c"⟩, .empty), (⟨"/p/.cache/c.c"⟩, .empty), (⟨"/p//src/a.c"⟩, .empty),
    (⟨"/p/gen.c"⟩, .empty)]

def selection : InputSelection := ⟨["gen.c"], ["**/*.c"], ["gen*"]⟩

theorem exists_find : ∃ found, selection.find (MemoryFiles.ofFiles added) ⟨"/p"⟩ = .ok found ∧
    found.map (·.text) = ["/p/gen.c", "/p//src/a.c", "/p/src/b.c"] := by
  have hfind : (selection.find (MemoryFiles.ofFiles added) ⟨"/p"⟩).toOption.map
      (·.map (·.text)) = some ["/p/gen.c", "/p//src/a.c", "/p/src/b.c"] := by decide +kernel
  cases hfound : selection.find (MemoryFiles.ofFiles added) ⟨"/p"⟩ with
  | error e =>
    rw [hfound] at hfind
    cases hfind
  | ok found =>
    rw [hfound] at hfind
    exact ⟨found, rfl, Option.some.inj hfind⟩

end SmallTree

open SmallTree in
theorem InputSelection.find_exact_smallTree :
    (∀ file ∈ added, .parent ∉ file.1.components) ∧
    (∀ file ∈ added, ∀ other ∈ added, ¬file.1.IsAbove other.1) ∧
    ¬selection.Fails (MemoryFiles.ofFiles added) ⟨"/p"⟩ ∧
    ∃ found, selection.find (MemoryFiles.ofFiles added) ⟨"/p"⟩ = .ok found ∧
      found.map (·.text) = ["/p/gen.c", "/p//src/a.c", "/p/src/b.c"] ∧
      ∀ p, selection.Wants (MemoryFiles.ofFiles added) ⟨"/p"⟩ p →
        ∃ q ∈ found, compare q p = .eq := by
  have hparent : ∀ file ∈ added, .parent ∉ file.1.components := by decide +kernel
  have habove : ∀ file ∈ added, ∀ other ∈ added, ¬file.1.IsAbove other.1 := by decide +kernel
  obtain ⟨found, hfound, htexts⟩ := exists_find
  obtain ⟨hfails, hspec⟩ := InputSelection.find_exact hparent habove selection ⟨"/p"⟩
  refine ⟨hparent, habove, fun h => ?_, found, hfound, htexts, (hspec found hfound).2.2⟩
  obtain ⟨e, he⟩ := hfails.2 h
  rw [hfound] at he
  cases he

/-! A file whose name has a backslash in it is chosen by a pattern for files in a directory. -/

namespace Backslash

def added : List (Path × ByteArray) := [(⟨"/p/back\\slash.c"⟩, .empty)]

def selection : InputSelection := ⟨[], ["back/*.c"], []⟩

end Backslash

open Backslash in
/-- **A file may be found that no pattern describes**: its name has a backslash where the pattern
has a slash. -/
theorem InputSelection.exists_found_not_matched :
    (∀ file ∈ added, .parent ∉ file.1.components) ∧
    (∀ file ∈ added, ∀ other ∈ added, ¬file.1.IsAbove other.1) ∧
    ∃ found p rel, selection.find (MemoryFiles.ofFiles added) ⟨"/p"⟩ = .ok found ∧ p ∈ found ∧
      p.relativeTo? ⟨"/p"⟩ = some rel ∧ rel.text = "back\\slash.c" ∧ selection.files = [] ∧
      ∀ pattern ∈ selection.included, ¬Glob.Matches pattern rel.text := by
  have hfind : (selection.find (MemoryFiles.ofFiles added) ⟨"/p"⟩).toOption.map
      (·.map (·.text)) = some ["/p/back\\slash.c"] := by decide +kernel
  have hrel : (Path.relativeTo? ⟨"/p/back\\slash.c"⟩ ⟨"/p"⟩).map (·.text)
      = some "back\\slash.c" := by decide +kernel
  have hunmatched : ¬Glob.Matches "back/*.c" "back\\slash.c" := by
    rintro ⟨glob, hglob, haccepts⟩
    have hrejects : (Glob.parse "back/*.c").toOption.any (·.accepts "back\\slash.c") = false := by
      decide +kernel
    rw [hglob] at hrejects
    exact Bool.false_ne_true (hrejects.symm.trans haccepts)
  refine ⟨by decide +kernel, by decide +kernel, ?_⟩
  cases hfound : selection.find (MemoryFiles.ofFiles added) ⟨"/p"⟩ with
  | error e =>
    rw [hfound] at hfind
    cases hfind
  | ok found =>
    rw [hfound] at hfind
    obtain ⟨p, rfl, hp⟩ := List.map_eq_singleton_iff.1 (Option.some.inj hfind)
    obtain ⟨rel, hrelative, htext⟩ := Option.map_eq_some_iff.1 hrel
    obtain rfl : p = ⟨"/p/back\\slash.c"⟩ := congrArg Path.mk hp
    refine ⟨_, _, rel, rfl, List.mem_cons_self, hrelative, htext, rfl, ?_⟩
    rw [htext]
    exact List.forall_mem_singleton.2 hunmatched

end IncrementalBuild
