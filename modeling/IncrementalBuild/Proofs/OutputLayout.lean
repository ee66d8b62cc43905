import IncrementalBuild.OutputLayout
import IncrementalBuild.Proofs.Fingerprint
import IncrementalBuild.Proofs.OrderedMap
import IncrementalBuild.Proofs.Path
import Mathlib.Data.List.Pairwise

/-!
# Names of products

Whether two inputs write the same files is a matter of their stems alone: products of one kind
differ in nothing else, and a stem holds no slash that could lead elsewhere. An input keeps the
stem of its file name if no other input has it, and gets the digits of its digest behind it
otherwise.

Stems that are kept differ from each other, and those with digits do because the digits do. What
is not looked at is a stem that is kept and ends in digits of its own. **Products are apart exactly
if no such stem is the one that another input gets**; where one is, two inputs write the same
object, and one of them is lost.
-/

namespace IncrementalBuild.OutputLayout

/-- Whether no other input has the stem of an input. -/
def KeepsStem (inputs : List Path) (p : Path) : Prop :=
  ∀ q ∈ inputs, plainStem q = plainStem p → compare q p = .eq

instance (inputs : List Path) (p : Path) : Decidable (KeepsStem inputs p) :=
  inferInstanceAs (Decidable (∀ q ∈ inputs, plainStem q = plainStem p → compare q p = .eq))

/-- **Whether one input has by its name the stem that another one gets**: it keeps its own, and the
other one shares its stem and takes digits behind it. -/
def TakesStem (inputs : List Path) (p q : Path) : Prop :=
  KeepsStem inputs p ∧ ¬ KeepsStem inputs q ∧ plainStem p = plainStem q ++ "-" ++ shortDigest q

instance (inputs : List Path) (p q : Path) : Decidable (TakesStem inputs p q) :=
  inferInstanceAs (Decidable (_ ∧ _ ∧ _))

/-- **Whether two inputs write different files**, of each kind. -/
structure Apart (l : OutputLayout) (p q : Path) : Prop where
  object : compare (l.perInput p).object.path (l.perInput q).object.path ≠ .eq
  summary : compare (l.perInput p).summary.path (l.perInput q).summary.path ≠ .eq
  record : compare (l.perInput p).record.path (l.perInput q).record.path ≠ .eq

instance (l : OutputLayout) : Std.Symm l.Apart where
  symm _ _ h :=
    { object := fun he => h.object (Std.OrientedCmp.eq_symm he)
      summary := fun he => h.summary (Std.OrientedCmp.eq_symm he)
      record := fun he => h.record (Std.OrientedCmp.eq_symm he) }

/-! ## Stems -/

/-- A short digest has eight digits. -/
theorem length_shortDigest (p : Path) : (shortDigest p).toList.length = 8 := by
  unfold shortDigest
  rw [String.toList_ofList, List.length_take, Fingerprint.length_ofText]
  rfl

/-- A short digest has no slash in it. -/
theorem notMem_shortDigest (p : Path) : '/' ∉ (shortDigest p).toList := by
  unfold shortDigest
  rw [String.toList_ofList]
  intro h
  have hdigit := Fingerprint.mem_hexDigits_of_mem_ofText (List.mem_of_mem_take h)
  exact absurd hdigit (by decide)

/-- A plain stem has no slash in it, for it is the name of a file. -/
theorem notMem_plainStem (p : Path) : '/' ∉ (plainStem p).toList := by
  unfold plainStem
  cases h : p.fileStem with
  | none => decide
  | some stem => exact Path.notMem_of_fileStem h

section Inputs

variable {inputs : List Path} {p q : Path}

/-- Of inputs with different paths, an input keeps its stem exactly if it is the only one that is
found with it. -/
theorem length_filter_le_one_iff (hpaths : inputs.Pairwise fun p q => compare p q ≠ .eq)
    (hp : p ∈ inputs) :
    (inputs.filter fun q => plainStem q == plainStem p).length ≤ 1 ↔ KeepsStem inputs p := by
  have hself : p ∈ inputs.filter fun q => plainStem q == plainStem p :=
    List.mem_filter.2 ⟨hp, beq_self_eq_true _⟩
  have hmem {q : Path} (hq : q ∈ inputs.filter fun q => plainStem q == plainStem p) :
      q ∈ inputs ∧ plainStem q = plainStem p :=
    (List.mem_filter.1 hq).imp_right eq_of_beq
  constructor
  · intro hle q hq hstem
    obtain ⟨only, honly⟩ := List.length_eq_one_iff.1
      (Nat.le_antisymm hle (List.length_pos_of_mem hself))
    have hfound : q ∈ inputs.filter fun q => plainStem q == plainStem p :=
      List.mem_filter.2 ⟨hq, beq_iff_eq.2 hstem⟩
    rw [honly] at hself hfound
    rw [List.mem_singleton.1 hself, List.mem_singleton.1 hfound]
    exact Std.ReflOrd.compare_self
  · intro hkeeps
    have hdiffer := hpaths.filter fun q => plainStem q == plainStem p
    match hfound : inputs.filter fun q => plainStem q == plainStem p with
    | [] => exact Nat.zero_le 1
    | [_] => exact Nat.le_refl 1
    | a :: b :: rest =>
      rw [hfound] at hdiffer hmem
      have ha := hkeeps a (hmem List.mem_cons_self).1 (hmem List.mem_cons_self).2
      have hb := hkeeps b (hmem (List.mem_cons_of_mem a List.mem_cons_self)).1
        (hmem (List.mem_cons_of_mem a List.mem_cons_self)).2
      refine absurd ((Std.TransCmp.congr_left ha).trans (Std.OrientedCmp.eq_symm hb)) ?_
      exact (List.pairwise_cons.1 hdiffer).1 b List.mem_cons_self

/-- **The stem of an input**: its own if it keeps it, and with digits behind it otherwise. -/
theorem stemAmong_eq_of_keepsStem (hpaths : inputs.Pairwise fun p q => compare p q ≠ .eq)
    (hp : p ∈ inputs) (h : KeepsStem inputs p) : stemAmong inputs p = plainStem p := by
  unfold stemAmong
  rw [if_pos ((length_filter_le_one_iff hpaths hp).2 h)]

/-- An input that does not keep its stem has a digest behind it. -/
theorem stemAmong_eq_of_not_keepsStem (hpaths : inputs.Pairwise fun p q => compare p q ≠ .eq)
    (hp : p ∈ inputs) (h : ¬ KeepsStem inputs p) :
    stemAmong inputs p = plainStem p ++ "-" ++ shortDigest p := by
  unfold stemAmong
  rw [if_neg (mt (length_filter_le_one_iff hpaths hp).1 h)]

/-- No stem has a slash in it, so a product stands right in the directory for outputs. -/
theorem notMem_stemAmong (inputs : List Path) (p : Path) : '/' ∉ (stemAmong inputs p).toList := by
  unfold stemAmong
  dsimp only
  split
  · exact notMem_plainStem p
  · rw [String.toList_append, String.toList_append]
    simp [notMem_plainStem, notMem_shortDigest]

/-- Where one input has by its name the stem that another one gets, both go by it. -/
theorem TakesStem.stemAmong_eq (hpaths : inputs.Pairwise fun p q => compare p q ≠ .eq)
    (hp : p ∈ inputs) (hq : q ∈ inputs) (h : TakesStem inputs p q) :
    stemAmong inputs p = stemAmong inputs q := by
  obtain ⟨hkeeps, hshares, htaken⟩ := h
  rw [stemAmong_eq_of_keepsStem hpaths hp hkeeps,
    stemAmong_eq_of_not_keepsStem hpaths hq hshares, htaken]

/-- **Nothing else makes two inputs go by one stem**, as long as their digits differ. -/
theorem takesStem_of_stemAmong_eq (hpaths : inputs.Pairwise fun p q => compare p q ≠ .eq)
    (hp : p ∈ inputs) (hq : q ∈ inputs) (hpath : compare p q ≠ .eq)
    (hdigest : shortDigest p ≠ shortDigest q) (h : stemAmong inputs p = stemAmong inputs q) :
    TakesStem inputs p q ∨ TakesStem inputs q p := by
  by_cases hkp : KeepsStem inputs p
  · rw [stemAmong_eq_of_keepsStem hpaths hp hkp] at h
    by_cases hkq : KeepsStem inputs q
    · rw [stemAmong_eq_of_keepsStem hpaths hq hkq] at h
      exact absurd (hkq p hp h) hpath
    · rw [stemAmong_eq_of_not_keepsStem hpaths hq hkq] at h
      exact .inl ⟨hkp, hkq, h⟩
  · rw [stemAmong_eq_of_not_keepsStem hpaths hp hkp] at h
    by_cases hkq : KeepsStem inputs q
    · rw [stemAmong_eq_of_keepsStem hpaths hq hkq] at h
      exact .inr ⟨hkq, hkp, h.symm⟩
    · rw [stemAmong_eq_of_not_keepsStem hpaths hq hkq] at h
      -- Both end in eight digits, so that what they end in is the same.
      have hlist := congrArg String.toList h
      rw [String.toList_append, String.toList_append (t := shortDigest q)] at hlist
      have hdigits := (List.append_inj' hlist
        ((length_shortDigest p).trans (length_shortDigest q).symm)).2
      exact absurd (String.toList_injective hdigits) hdigest

/-- Inputs with different paths are told apart by them. -/
theorem eq_of_compare_eq (hpaths : inputs.Pairwise fun p q => compare p q ≠ .eq) (hp : p ∈ inputs)
    (hq : q ∈ inputs) (h : compare p q = .eq) : p = q := by
  have : Std.Symm fun p q : Path => compare p q ≠ .eq :=
    ⟨fun _ _ hdiffer he => hdiffer (Std.OrientedCmp.eq_symm he)⟩
  by_contra hne
  exact hpaths.forall hp hq hne h

/-- **A layout knows the stem of each of its inputs.** -/
theorem stemOf_ofInputs {outputDir : Path} {moduleName : String}
    (hpaths : inputs.Pairwise fun p q => compare p q ≠ .eq) (hp : p ∈ inputs) :
    (ofInputs outputDir moduleName inputs).stemOf p = stemAmong inputs p := by
  show (OrderedMap.get? (.ofLastEntries _) p).getD _ = _
  rw [OrderedMap.get?_ofLastEntries]
  have hfound : ((inputs.map fun q => (q, stemAmong inputs q)).reverse.find?
      fun e => compare e.1 p == .eq).isSome = true :=
    List.find?_isSome.2 ⟨_, List.mem_reverse.2 (List.mem_map_of_mem hp),
      beq_iff_eq.2 Std.ReflOrd.compare_self⟩
  obtain ⟨e, he⟩ := Option.isSome_iff_exists.1 hfound
  have hsame := List.find?_some he
  obtain ⟨q, hq, rfl⟩ := List.mem_map.1 (List.mem_reverse.1 (List.mem_of_find?_eq_some he))
  rw [he, eq_of_compare_eq hpaths hq hp (beq_iff_eq.1 hsame)]
  rfl

end Inputs

/-! ## Files -/

section Files

variable {l : OutputLayout} {p q : Path} {stem stem' : String}

/-- Files of one kind are told apart by what stands before the kind's ending. -/
theorem compare_inDir_eq_iff {ending : String} (hending : Path.IsName ending) (t : FileType)
    (h : '/' ∉ stem.toList) (h' : '/' ∉ stem'.toList) :
    compare (l.inDir (stem ++ ending) t).path (l.inDir (stem' ++ ending) t).path = .eq ↔
      stem = stem' := by
  have hjoin := Path.compare_join_eq_iff l.outputDir (hending.append h) (hending.append h')
  refine hjoin.trans ⟨fun he => ?_, fun he => he ▸ rfl⟩
  have hlist := congrArg String.toList he
  rw [String.toList_append, String.toList_append] at hlist
  exact String.toList_injective (List.append_cancel_right hlist)

/-- **Products are told apart by the stems.** -/
theorem apart_iff_stemOf_ne (h : '/' ∉ (l.stemOf p).toList) (h' : '/' ∉ (l.stemOf q).toList) :
    l.Apart p q ↔ l.stemOf p ≠ l.stemOf q := by
  have hkind {ending : String} (hending : Path.IsName ending) (t : FileType) :=
    not_congr (compare_inDir_eq_iff (l := l) hending t h h')
  have hobject : Path.IsName ".o" := by constructor <;> decide
  have hsummary : Path.IsName ".summary" := by constructor <;> decide
  have hrecord : Path.IsName ".deps.json" := by constructor <;> decide
  exact ⟨fun hapart => (hkind hobject _).1 hapart.object, fun hne =>
    ⟨(hkind hobject _).2 hne, (hkind hsummary _).2 hne, (hkind hrecord _).2 hne⟩⟩

end Files

variable {outputDir : Path} {moduleName : String} {inputs : List Path}

/-- **Which inputs write over each other.** Of inputs whose paths and short digests differ, all
products are apart exactly if no input has by its name the stem that another one gets. -/
theorem apart_iff (hpaths : inputs.Pairwise fun p q => compare p q ≠ .eq)
    (hdigests : inputs.Pairwise fun p q => shortDigest p ≠ shortDigest q) :
    inputs.Pairwise (ofInputs outputDir moduleName inputs).Apart ↔
      ∀ p ∈ inputs, ∀ q ∈ inputs, ¬ TakesStem inputs p q := by
  have hstem {p : Path} (hp : p ∈ inputs) :
      (ofInputs outputDir moduleName inputs).stemOf p = stemAmong inputs p :=
    stemOf_ofInputs hpaths hp
  have happart {p q : Path} (hp : p ∈ inputs) (hq : q ∈ inputs) :
      (ofInputs outputDir moduleName inputs).Apart p q ↔
        stemAmong inputs p ≠ stemAmong inputs q := by
    rw [← hstem hp, ← hstem hq]
    refine apart_iff_stemOf_ne ?_ ?_
    · exact hstem hp ▸ notMem_stemAmong inputs p
    · exact hstem hq ▸ notMem_stemAmong inputs q
  constructor
  · intro hall p hp q hq htakes
    have hne : p ≠ q := fun he => htakes.2.1 (he ▸ htakes.1)
    exact (happart hp hq).1 (hall.forall hp hq hne) (htakes.stemAmong_eq hpaths hp hq)
  · intro hnone
    refine (hpaths.and hdigests).imp_of_mem fun {p q} hp hq ⟨hpath, hdigest⟩ => ?_
    refine (happart hp hq).2 fun hsame => ?_
    rcases takesStem_of_stemAmong_eq hpaths hp hq hpath hdigest hsame with htakes | htakes
    · exact hnone p hp q hq htakes
    · exact hnone q hq p hp htakes

/-! Two inputs share the stem `util`, and get digits of their digests behind it. -/

namespace SharedStem

/-- Two inputs with one file name. -/
def sharing : List Path := [⟨"/p/a/util.src"⟩, ⟨"/p/b/util.src"⟩]

/-- A name that nobody else has. -/
def withMain : List Path := sharing ++ [⟨"/p/main.src"⟩]

/-- A name that is the first one with its digits. -/
def withTaken : List Path := sharing ++ [⟨"/p/util-6c9a6b57.src"⟩]

end SharedStem

open SharedStem

/-- With no stem taken all products are apart. -/
theorem apart_iff_withMain :
    withMain.Pairwise (fun p q => compare p q ≠ .eq) ∧
      withMain.Pairwise (fun p q => shortDigest p ≠ shortDigest q) ∧
      withMain.Pairwise (ofInputs ⟨"/out"⟩ "App" withMain).Apart := by
  have hpaths : withMain.Pairwise fun p q => compare p q ≠ .eq := by decide +kernel
  have hdigests : withMain.Pairwise fun p q => shortDigest p ≠ shortDigest q := by decide +kernel
  exact ⟨hpaths, hdigests, (apart_iff hpaths hdigests).2 (by decide +kernel)⟩

/-- A stem with digits is another input's own, and both inputs write the same object. -/
theorem not_apart_withTaken :
    withTaken.Pairwise (fun p q => compare p q ≠ .eq) ∧
      withTaken.Pairwise (fun p q => shortDigest p ≠ shortDigest q) ∧
      ¬ withTaken.Pairwise (ofInputs ⟨"/out"⟩ "App" withTaken).Apart := by
  refine ⟨by decide +kernel, by decide +kernel, fun hall => ?_⟩
  have hfirst : (⟨"/p/a/util.src"⟩ : Path) ∈ withTaken := List.mem_cons_self
  have hlast : (⟨"/p/util-6c9a6b57.src"⟩ : Path) ∈ withTaken := by simp [withTaken, sharing]
  have hapart := hall.forall hfirst hlast (by simp)
  refine hapart.object ?_
  have hstem : (ofInputs ⟨"/out"⟩ "App" withTaken).stemOf ⟨"/p/a/util.src"⟩
      = (ofInputs ⟨"/out"⟩ "App" withTaken).stemOf ⟨"/p/util-6c9a6b57.src"⟩ := by decide +kernel
  unfold perInput
  rw [hstem]
  exact Std.ReflOrd.compare_self

end IncrementalBuild.OutputLayout
