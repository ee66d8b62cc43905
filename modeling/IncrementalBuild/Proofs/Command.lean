import IncrementalBuild.Command
import Mathlib.Data.List.Chain

/-!
# Commands that can be taken apart

A planned command consists of arguments that are shared, and then of the flags of single
inputs, each with its value. As long as no other argument is spelled like such a flag, the
values can be read off the command, and they are still there, in their order, when several
commands have become one.

A command may also be any list of words: flags between other arguments, a flag at the end with
nothing behind it, a flag in the place of a value. Merging takes it apart from the front, a flag
with the word behind it, and what it makes is in order: shared arguments without a flag, then
flags with their values. That is why merging commands that were merged adds nothing. Looking up
the values of a flag goes by neighbours instead, and the two agree where **no two flags stand side
by side**.
-/

namespace IncrementalBuild.Command

/-- The arguments that belong to single inputs, from the flags and their values. -/
def unitArgs (pairs : List (String × String)) : List String := pairs.flatMap fun p => [p.1, p.2]

@[simp] theorem unitArgs_nil : unitArgs [] = [] := rfl

@[simp] theorem unitArgs_cons (p : String × String) (pairs : List (String × String)) :
    unitArgs (p :: pairs) = p.1 :: p.2 :: unitArgs pairs := rfl

/-- What is gathered from several places is written out place by place. -/
theorem unitArgs_flatMap {α : Type} (f : α → List (String × String)) (l : List α) :
    unitArgs (l.flatMap f) = l.flatMap fun a => unitArgs (f a) := List.flatMap_assoc

/-- The flags of single inputs that have an argument behind them, each with that argument. -/
def unitPairs : List String → List (String × String)
  | a :: b :: rest => if isUnitFlag a then (a, b) :: unitPairs rest else unitPairs (b :: rest)
  | _ => []

/-- **Whether no two flags of single inputs stand side by side**, so that the value of a flag is
never spelled like a flag. -/
def FlagsApart (args : List String) : Prop :=
  args.IsChain fun a b => isUnitFlag a = true → isUnitFlag b = false

instance (args : List String) : Decidable (FlagsApart args) :=
  inferInstanceAs (Decidable (args.IsChain _))

/-- **Whether a command consists of shared arguments and of flags with their values.** -/
structure Splits (c : Command) (shared : List String) (pairs : List (String × String)) :
    Prop where
  /-- The words are the shared ones, and then each flag with its value behind it. -/
  args_eq : c.args = shared ++ unitArgs pairs
  /-- No shared word is spelled like a flag, or it would take the word behind it for a value. -/
  shared : ∀ arg ∈ shared, isUnitFlag arg = false
  /-- What stands in front of a value is a flag. -/
  flags : ∀ p ∈ pairs, isUnitFlag p.1 = true
  /-- No value is spelled like a flag. A command that names an input `-o` does not split. -/
  values : ∀ p ∈ pairs, isUnitFlag p.2 = false

/-! ## One argument at a time

The readers of a command go over its words from the front. For a word that is no flag they have
nothing to decide: it is shared, it has no value behind it, and it hides no flag from the search for
values. The lemmas here say so, one for each reader, so that the inductions below are left with the
flags. -/

/-- A planner marks what belongs to one input with three flags: for its output, for the input itself
and for the place of its record. -/
theorem isUnitFlag_iff {arg : String} :
    isUnitFlag arg = true ↔ arg ∈ [outputFlag, primaryFlag, recordFlag] := by
  simp [isUnitFlag, or_assoc]

/-- The search for the values of a flag passes over every other word. -/
theorem valuesAfter_cons_of_ne {flag arg : String} (h : (arg == flag) = false)
    (args : List String) : valuesAfter flag (arg :: args) = valuesAfter flag args := by
  cases args with
  | nil => rfl
  | cons next rest =>
    rw [valuesAfter, h]
    rfl

/-- What is no flag is none of the flags. -/
theorem beq_eq_false_of_not_isUnitFlag {flag arg : String} (hflag : isUnitFlag flag = true)
    (harg : isUnitFlag arg = false) : (arg == flag) = false := by
  rw [beq_eq_false_iff_ne]
  rintro rfl
  rw [hflag] at harg
  cases harg

/-- A word that is no flag is shared, and the words behind it are sorted as before. -/
theorem withoutUnits_cons {arg : String} (h : isUnitFlag arg = false) (args : List String) :
    withoutUnits (arg :: args) = arg :: withoutUnits args := by
  cases args with
  | nil => simp [withoutUnits, h]
  | cons next rest => simp [withoutUnits, h]

/-- A word that is no flag is in no pair as the first of the two. -/
theorem unitPairs_cons {arg : String} (h : isUnitFlag arg = false) (args : List String) :
    unitPairs (arg :: args) = unitPairs args := by
  cases args with
  | nil => rfl
  | cons next rest => simp [unitPairs, h]

/-! ## What is taken apart

Merging reads a flag together with the word behind it, whatever that word is. What it takes out of a
command are therefore exactly the pairs, written out again; and what it leaves behind has no flag in
it, not even one at the end of the command that had nothing behind it. -/

/-- **What belongs to single inputs are the pairs of the command**, written out again. -/
theorem onlyUnits_eq (args : List String) : onlyUnits args = unitArgs (unitPairs args) := by
  induction args using unitPairs.induct with
  | case1 a b rest hflag ih => rw [onlyUnits, unitPairs, if_pos hflag, if_pos hflag, ih]; rfl
  | case2 a b rest hflag ih => rw [onlyUnits, unitPairs, if_neg hflag, if_neg hflag, ih]
  | case3 args hshort =>
    match args, hshort with
    | [], _ => rfl
    | [_], _ => rfl
    | a :: b :: rest, hshort => exact absurd rfl (hshort a b rest)

/-- Every pair has a flag in front. -/
theorem isUnitFlag_of_mem_unitPairs {args : List String} {p : String × String}
    (h : p ∈ unitPairs args) : isUnitFlag p.1 = true := by
  induction args using unitPairs.induct with
  | case1 a b rest hflag ih =>
    rw [unitPairs, if_pos hflag] at h
    rcases List.mem_cons.1 h with rfl | h
    · exact hflag
    · exact ih h
  | case2 a b rest hflag ih =>
    rw [unitPairs, if_neg hflag] at h
    exact ih h
  | case3 args hshort =>
    rw [unitPairs.eq_2 args hshort] at h
    exact absurd h List.not_mem_nil

/-- What is shared is no flag. A flag at the very end is in neither part: it has no value, and it is
dropped. -/
theorem not_isUnitFlag_of_mem_withoutUnits {args : List String} {arg : String}
    (h : arg ∈ withoutUnits args) : isUnitFlag arg = false := by
  induction args using withoutUnits.induct with
  | case1 => exact absurd h List.not_mem_nil
  | case2 a hflag =>
    rw [withoutUnits, if_pos hflag] at h
    exact absurd h List.not_mem_nil
  | case3 a hflag =>
    rw [withoutUnits, if_neg hflag, List.mem_singleton] at h
    exact h ▸ eq_false_of_ne_true hflag
  | case4 a b rest hflag ih =>
    rw [withoutUnits, if_pos hflag] at h
    exact ih h
  | case5 a b rest hflag ih =>
    rw [withoutUnits, if_neg hflag] at h
    rcases List.mem_cons.1 h with rfl | h
    · exact eq_false_of_ne_true hflag
    · exact ih h

section Apart

variable {args : List String}

/-- A word that is no flag may stand in front of anything. -/
theorem flagsApart_cons {arg : String} (h : isUnitFlag arg = false) :
    FlagsApart (arg :: args) ↔ FlagsApart args := by
  cases args with
  | nil => exact iff_of_true (List.isChain_singleton arg) List.isChain_nil
  | cons next rest =>
    refine List.isChain_cons_cons.trans (and_iff_right fun hflag => ?_)
    exact absurd (h.symm.trans hflag) Bool.false_ne_true

/-- **Flags stand apart exactly if no value of a flag is one.** -/
theorem flagsApart_iff : FlagsApart args ↔ ∀ p ∈ unitPairs args, isUnitFlag p.2 = false := by
  induction args using unitPairs.induct with
  | case1 a b rest hflag ih =>
    -- `b` is the value of the flag `a`. It has to be a word that may stand in front of `rest`.
    rw [unitPairs, if_pos hflag, List.forall_mem_cons, ← ih]
    refine List.isChain_cons_cons.trans ((and_congr_left' (forall_prop_of_true hflag)).trans ?_)
    exact and_congr_right flagsApart_cons
  | case2 a b rest hflag ih =>
    have hflag : isUnitFlag a = false := eq_false_of_ne_true hflag
    rw [flagsApart_cons hflag, unitPairs_cons hflag, ih]
  | case3 args hshort =>
    match args, hshort with
    | [], _ => exact iff_of_true List.isChain_nil (List.forall_mem_nil _)
    | [a], _ => exact iff_of_true (List.isChain_singleton a) (List.forall_mem_nil _)
    | a :: b :: rest, hshort => exact absurd rfl (hshort a b rest)

/-- **Where flags stand apart, what follows a flag is what it is paired with.** -/
theorem FlagsApart.valuesAfter_eq (h : FlagsApart args) {flag : String}
    (hflag : isUnitFlag flag = true) :
    valuesAfter flag args = ((unitPairs args).filter (·.1 == flag)).map (·.2) := by
  induction args using unitPairs.induct with
  | case1 a b rest ha ih =>
    -- `b` was passed over as the value of `a`. The search looks at it once more, and finds no
    -- flag.
    have hb : isUnitFlag b = false := (List.isChain_cons_cons.1 h).1 ha
    rw [valuesAfter, unitPairs, if_pos ha,
      valuesAfter_cons_of_ne (beq_eq_false_of_not_isUnitFlag hflag hb), ih h.tail.tail]
    by_cases hsame : (a == flag) = true <;> simp [hsame]
  | case2 a b rest ha ih =>
    have ha : isUnitFlag a = false := eq_false_of_ne_true ha
    rw [valuesAfter_cons_of_ne (beq_eq_false_of_not_isUnitFlag hflag ha), unitPairs_cons ha,
      ih h.tail]
  | case3 args hshort =>
    match args, hshort with
    | [], _ => rfl
    | [_], _ => rfl
    | a :: b :: rest, hshort => exact absurd rfl (hshort a b rest)

end Apart

/-! ## Shared arguments with flags behind them

A planned command has its shared words first and the pairs behind them. On such a command each
reader finds the part that it is for. The inductions go over the shared words and then, with none of
them left, over the pairs. -/

section Parts

variable {shared : List String} {pairs : List (String × String)}
  (hshared : ∀ arg ∈ shared, isUnitFlag arg = false)

include hshared

/-- The shared words are left when the flags and their values are taken away. -/
theorem withoutUnits_append_unitArgs (hflags : ∀ p ∈ pairs, isUnitFlag p.1 = true) :
    withoutUnits (shared ++ unitArgs pairs) = shared := by
  induction shared with
  | nil =>
    induction pairs with
    | nil => rfl
    | cons p rest ih =>
      obtain ⟨hp, hrest⟩ := List.forall_mem_cons.1 hflags
      rw [List.nil_append, unitArgs_cons, withoutUnits, if_pos hp]
      exact ih hrest
  | cons arg rest ih =>
    obtain ⟨harg, hrest⟩ := List.forall_mem_cons.1 hshared
    rw [List.cons_append, withoutUnits_cons harg, ih hrest]

/-- The pairs are found again, all of them and in their order. -/
theorem unitPairs_append_unitArgs (hflags : ∀ p ∈ pairs, isUnitFlag p.1 = true) :
    unitPairs (shared ++ unitArgs pairs) = pairs := by
  induction shared with
  | nil =>
    induction pairs with
    | nil => rfl
    | cons p rest ih =>
      obtain ⟨hp, hrest⟩ := List.forall_mem_cons.1 hflags
      rw [List.nil_append, unitArgs_cons, unitPairs, if_pos hp]
      exact congrArg (p :: ·) (ih hrest)
  | cons arg rest ih =>
    obtain ⟨harg, hrest⟩ := List.forall_mem_cons.1 hshared
    rw [List.cons_append, unitPairs_cons harg, ih hrest]

/-- The values of a flag are the words that it is paired with. Values must be no flags here, since
the search looks at every two neighbours: the value `-o` would have the next flag for its own
value. -/
theorem valuesAfter_append_unitArgs (hvalues : ∀ p ∈ pairs, isUnitFlag p.2 = false)
    {flag : String} (hflag : isUnitFlag flag = true) :
    valuesAfter flag (shared ++ unitArgs pairs) = (pairs.filter (·.1 == flag)).map (·.2) := by
  induction shared with
  | nil =>
    induction pairs with
    | nil => rfl
    | cons p rest ih =>
      obtain ⟨hp, hrest⟩ := List.forall_mem_cons.1 hvalues
      -- The search goes on with the value, which is no flag, and then with the other pairs.
      have hrest : valuesAfter flag (unitArgs rest) = _ := ih hrest
      rw [List.nil_append, unitArgs_cons, valuesAfter,
        valuesAfter_cons_of_ne (beq_eq_false_of_not_isUnitFlag hflag hp), hrest]
      by_cases hsame : (p.1 == flag) = true <;> simp [hsame]
  | cons arg rest ih =>
    obtain ⟨harg, hrest⟩ := List.forall_mem_cons.1 hshared
    rw [List.cons_append, valuesAfter_cons_of_ne (beq_eq_false_of_not_isUnitFlag hflag harg)]
    exact ih hrest

end Parts

namespace Splits

variable {c : Command} {shared : List String} {pairs : List (String × String)}

/-- **The values of a flag** are those that stand after it. -/
theorem valuesOf_eq (h : c.Splits shared pairs) {flag : String} (hflag : isUnitFlag flag = true) :
    c.valuesOf flag = (pairs.filter (·.1 == flag)).map (·.2) := by
  unfold valuesOf
  rw [h.args_eq, valuesAfter_append_unitArgs h.shared h.values hflag]

/-- A command is taken apart in one way only. -/
theorem unitPairs_eq (h : c.Splits shared pairs) : unitPairs c.args = pairs := by
  rw [h.args_eq, unitPairs_append_unitArgs h.shared h.flags]

end Splits

/-! ## Merging

Merging gives a command that is in order, whatever the commands were that it was made of: the shared
words of the first, and then pairs. So the lemmas on such commands apply to its result without a
condition, and nothing else is needed for merging to be associative. A condition is needed for the
values of a flag, because the single commands may have flags side by side. -/

/-- What some commands become: the shared arguments of the first, then all flags with their
values. -/
def joined (first : Command) (rest : List Command) : Command :=
  ⟨first.tool, first.sharedArgs ++ unitArgs ((first :: rest).flatMap fun c => unitPairs c.args)⟩

/-- **Some commands can always be merged**, and this is what they become. -/
theorem merge_cons (first : Command) (rest : List Command) :
    merge (first :: rest) = some (joined first rest) := by
  unfold merge joined
  rw [unitArgs_flatMap]
  simp only [onlyUnits_eq]

section Joined

variable (first : Command) (rest : List Command)

/-- All pairs that are gathered have a flag in front. -/
theorem isUnitFlag_of_mem_pairs :
    ∀ p ∈ (first :: rest).flatMap fun c => unitPairs c.args, isUnitFlag p.1 = true := by
  intro p hp
  obtain ⟨c, -, hp⟩ := List.mem_flatMap.1 hp
  exact isUnitFlag_of_mem_unitPairs hp

/-- The shared arguments are those of the first command, and the others' are lost. -/
theorem sharedArgs_joined : (joined first rest).sharedArgs = first.sharedArgs :=
  withoutUnits_append_unitArgs (fun _ => not_isUnitFlag_of_mem_withoutUnits)
    (isUnitFlag_of_mem_pairs first rest)

/-- No pair is lost and none is added. -/
theorem unitPairs_joined : unitPairs (joined first rest).args
    = (first :: rest).flatMap fun c => unitPairs c.args :=
  unitPairs_append_unitArgs (fun _ => not_isUnitFlag_of_mem_withoutUnits)
    (isUnitFlag_of_mem_pairs first rest)

/-- **Merging is associative**: on both sides stand the shared arguments of the first command, and
then all pairs in one order. -/
theorem merge_joined (first' : Command) (rest' : List Command) :
    merge [joined first rest, joined first' rest'] = merge (first :: rest ++ first' :: rest') := by
  rw [merge_cons, List.cons_append, merge_cons]
  congr 1
  -- The tool is the first command's. The shared words and the pairs are compared one after the
  -- other.
  show Command.mk first.tool _ = Command.mk first.tool _
  congr 2
  · exact sharedArgs_joined first rest
  · congr 1
    rw [List.flatMap_cons, List.flatMap_cons, List.flatMap_nil, List.append_nil, unitPairs_joined,
      unitPairs_joined, ← List.flatMap_append]
    rfl

/-- **The values of a flag are those of the members**, one member behind the other. -/
theorem valuesOf_joined (h : ∀ c ∈ first :: rest, FlagsApart c.args) {flag : String}
    (hflag : isUnitFlag flag = true) :
    (joined first rest).valuesOf flag = (first :: rest).flatMap (·.valuesOf flag) := by
  have hvalues : ∀ p ∈ (first :: rest).flatMap fun c => unitPairs c.args,
      isUnitFlag p.2 = false := by
    intro p hp
    obtain ⟨c, hc, hp⟩ := List.mem_flatMap.1 hp
    exact flagsApart_iff.1 (h c hc) p hp
  -- From the values of the merged command to its pairs, from there to the pairs of each member,
  -- and back to the values of that member, whose flags stand apart.
  calc (joined first rest).valuesOf flag
      = (((first :: rest).flatMap fun c => unitPairs c.args).filter (·.1 == flag)).map (·.2) :=
        valuesAfter_append_unitArgs (fun _ => not_isUnitFlag_of_mem_withoutUnits) hvalues hflag
    _ = (first :: rest).flatMap fun c => ((unitPairs c.args).filter (·.1 == flag)).map (·.2) := by
        rw [List.filter_flatMap, List.map_flatMap]
    _ = (first :: rest).flatMap (·.valuesOf flag) :=
        List.flatMap_congr fun c hc => ((h c hc).valuesAfter_eq hflag).symm

end Joined

/-- **Merging planned commands keeps the values of every flag**, those of the first command
first, and what is merged can be taken apart again. -/
theorem exists_merge (first : Command) (rest : List Command)
    (h : ∀ c ∈ first :: rest, ∃ shared pairs, c.Splits shared pairs) :
    ∃ c, merge (first :: rest) = some c ∧ (∃ shared pairs, c.Splits shared pairs) ∧
      ∀ flag, isUnitFlag flag = true →
        c.valuesOf flag = (first :: rest).flatMap (·.valuesOf flag) := by
  have hvalues : ∀ c ∈ first :: rest, ∀ p ∈ unitPairs c.args, isUnitFlag p.2 = false := by
    intro c hc
    obtain ⟨shared, pairs, hsplits⟩ := h c hc
    rw [hsplits.unitPairs_eq]
    exact hsplits.values
  -- The merged command splits again: its values are values of members, and no value of a member
  -- is a flag.
  refine ⟨joined first rest, merge_cons first rest, ⟨_, _, rfl,
    fun _ => not_isUnitFlag_of_mem_withoutUnits, isUnitFlag_of_mem_pairs first rest,
    fun p hp => ?_⟩, fun flag => valuesOf_joined first rest fun c hc =>
      flagsApart_iff.2 (hvalues c hc)⟩
  obtain ⟨c, hc, hp⟩ := List.mem_flatMap.1 hp
  exact hvalues c hc p hp

/-! ## Inputs and their records

An input and the place of its record are brought together by their numbers alone, the first with the
first and so on. A command that names more inputs than records would shift all commands behind it,
and the last command has none behind it. -/

/-- Lists that are gathered from equally long parts are paired part by part. Behind the last part
there is nothing that could be paired wrongly. -/
theorem zip_flatMap {α β γ : Type} {f : α → List β} {g : α → List γ} {l : List α}
    (h : ∀ a ∈ l.dropLast, (f a).length = (g a).length) :
    (l.flatMap f).zip (l.flatMap g) = l.flatMap fun a => (f a).zip (g a) := by
  induction l with
  | nil => rfl
  | cons a rest ih =>
    cases rest with
    | nil => simp
    | cons b rest =>
      obtain ⟨ha, hrest⟩ := List.forall_mem_cons.1 h
      show (f a ++ (b :: rest).flatMap f).zip (g a ++ (b :: rest).flatMap g) = _
      rw [List.zip_append ha, ih hrest]
      rfl

/-- The inputs that a command names, each with the place of its record. -/
def recordPairs (c : Command) : List (String × String) :=
  (c.valuesOf primaryFlag).zip (c.valuesOf recordFlag)

/-- **What merging keeps**, whatever words the commands consist of. The shared arguments are those
of the first command, and merging in two steps is merging at once. Where no two flags stand side
by side, the values of each flag are those of the commands, one command behind the other; and
inputs keep their records, unless a command that others follow names more of one kind than of the
other. -/
theorem merge_exact (first : Command) (rest : List Command) :
    ∃ c, merge (first :: rest) = some c ∧
      c.sharedArgs = first.sharedArgs ∧
      (∀ (first' : Command) (rest' : List Command), ∃ d, merge (first' :: rest') = some d ∧
        merge [c, d] = merge (first :: rest ++ first' :: rest')) ∧
      ((∀ m ∈ first :: rest, FlagsApart m.args) →
        (∀ flag ∈ [outputFlag, primaryFlag, recordFlag],
          c.valuesOf flag = (first :: rest).flatMap (·.valuesOf flag)) ∧
        ((∀ m ∈ (first :: rest).dropLast,
            (m.valuesOf primaryFlag).length = (m.valuesOf recordFlag).length) →
          c.recordPairs = (first :: rest).flatMap recordPairs)) := by
  refine ⟨joined first rest, merge_cons first rest, sharedArgs_joined first rest,
    fun first' rest' => ⟨joined first' rest', merge_cons first' rest',
      merge_joined first rest first' rest'⟩, fun hapart => ?_⟩
  have hvalues : ∀ flag ∈ [outputFlag, primaryFlag, recordFlag],
      (joined first rest).valuesOf flag = (first :: rest).flatMap (·.valuesOf flag) :=
    fun flag hflag => valuesOf_joined first rest hapart (isUnitFlag_iff.2 hflag)
  refine ⟨hvalues, fun hcounts => ?_⟩
  unfold recordPairs
  rw [hvalues primaryFlag (by simp), hvalues recordFlag (by simp)]
  exact zip_flatMap hcounts

/-- Two commands with flags between other words, the first of which ends in a flag. -/
theorem merge_exact_danglingFlag : ∃ c,
    merge [⟨"cc", ["--primary", "a", "-c", "-o", "a.o", "--emit-deps", "a.d", "-o"]⟩,
      ⟨"cc", ["--primary", "b", "-O2", "--emit-deps", "b.d"]⟩] = some c ∧
    c.sharedArgs = ["-c"] ∧ c.valuesOf outputFlag = ["a.o"] ∧
    c.recordPairs = [("a", "a.d"), ("b", "b.d")] := by
  obtain ⟨c, hmerge, hshared, -, hvalues⟩ := merge_exact
    ⟨"cc", ["--primary", "a", "-c", "-o", "a.o", "--emit-deps", "a.d", "-o"]⟩
    [⟨"cc", ["--primary", "b", "-O2", "--emit-deps", "b.d"]⟩]
  obtain ⟨hflags, hrecords⟩ := hvalues (by decide)
  exact ⟨c, hmerge, hshared, hflags outputFlag (by decide), hrecords (by decide)⟩

end IncrementalBuild.Command
