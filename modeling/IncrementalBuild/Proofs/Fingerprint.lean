import IncrementalBuild.Job
import IncrementalBuild.Request
import Mathlib.Data.List.Basic

/-!
# What a fingerprint tells apart

The fingerprint of a content has 64 digits, whatever the content is: a digest is 32 bytes long, and
each byte is written with two lower-case hexadecimal digits.

Where several texts have one fingerprint together, it is that of a text with the fingerprint of each
of them on a line. Lines of one length can be cut apart again, however many there are. So if two
lists of texts have the same fingerprint and are not the same list, then two different byte strings
that were digested on the way have the same digest: either the lines, or what one of the lines is
of. Nothing is assumed about the digest.
-/

namespace IncrementalBuild

namespace Blake3

/-- The digits that a digest is written with. -/
def hexDigits : List Char := "0123456789abcdef".toList

/-- The digits that numbers below sixteen are written with are these. -/
theorem digitChar_mem_hexDigits {n : Nat} (h : n < 16) : Nat.digitChar n ∈ hexDigits := by
  have hall : ∀ i : Fin 16, Nat.digitChar i ∈ hexDigits := by decide
  exact hall ⟨n, h⟩

/-- A byte is written with these digits. -/
theorem mem_hexDigits_of_mem_hexOfByte {b : UInt8} {c : Char} (h : c ∈ hexOfByte b) :
    c ∈ hexDigits := by
  have hb : b.toNat < 256 := b.toNat_lt
  rcases List.mem_cons.1 h with rfl | h
  · exact digitChar_mem_hexDigits (by omega)
  · obtain rfl := List.mem_singleton.1 h
    exact digitChar_mem_hexDigits (by omega)

/-- **A digest is 32 bytes long.** -/
theorem length_digest (bytes : List UInt8) : (digest bytes).length = 32 := by
  unfold digest
  rw [List.length_flatMap]
  simp [bytesOfWord]

/-- Different numbers below sixteen have different digits. -/
theorem digitChar_inj {m n : Nat} (hm : m < 16) (hn : n < 16)
    (h : Nat.digitChar m = Nat.digitChar n) : m = n := by
  have hall : ∀ i j : Fin 16, Nat.digitChar i = Nat.digitChar j → i = j := by decide
  exact congrArg Fin.val (hall ⟨m, hm⟩ ⟨n, hn⟩ h)

/-- **Two digits tell the bytes apart**: the first gives the upper half of a byte, the second the
lower one. -/
theorem hexOfByte_inj {b b' : UInt8} (h : hexOfByte b = hexOfByte b') : b = b' := by
  have hb : b.toNat < 256 := b.toNat_lt
  have hb' : b'.toNat < 256 := b'.toNat_lt
  obtain ⟨hhigh, hrest⟩ := List.cons.inj h
  obtain ⟨hlow, -⟩ := List.cons.inj hrest
  have hhigh := digitChar_inj (by omega) (by omega) hhigh
  have hlow := digitChar_inj (by omega) (by omega) hlow
  refine UInt8.toNat_inj.1 ?_
  omega

/-- Bytes are read off their digits. -/
theorem flatMap_hexOfByte_inj {l r : List UInt8} (h : l.flatMap hexOfByte = r.flatMap hexOfByte) :
    l = r := by
  induction l generalizing r with
  | nil =>
    cases r with
    | nil => rfl
    | cons b r => cases h
  | cons a l ih =>
    cases r with
    | nil => cases h
    | cons b r =>
      obtain ⟨hfirst, hrest⟩ := List.append_inj (h : hexOfByte a ++ _ = hexOfByte b ++ _) rfl
      rw [hexOfByte_inj hfirst, ih hrest]

/-- The text of a digest is written byte by byte, two digits for each, so it tells the digests
apart. -/
theorem hexDigest_inj {l r : List UInt8} (h : hexDigest l = hexDigest r) : digest l = digest r :=
  flatMap_hexOfByte_inj (String.ofList_injective h)

/-- Whether two different byte strings among some have the same digest. -/
def Collides (hashed : List (List UInt8)) : Prop :=
  ∃ a ∈ hashed, ∃ b ∈ hashed, a ≠ b ∧ digest a = digest b

end Blake3

namespace Fingerprint

open Blake3

/-- **A fingerprint of a text has 64 digits.** -/
theorem length_ofText (text : String) : (ofText text).text.toList.length = 64 := by
  show (hexDigest _).toList.length = 64
  unfold hexDigest
  rw [String.toList_ofList, List.length_flatMap]
  simp [hexOfByte, length_digest]

/-- All of them are hexadecimal digits. -/
theorem mem_hexDigits_of_mem_ofText {text : String} {c : Char} (h : c ∈ (ofText text).text.toList) :
    c ∈ hexDigits := by
  have h : c ∈ (hexDigest _).toList := h
  unfold hexDigest at h
  rw [String.toList_ofList] at h
  obtain ⟨b, -, hc⟩ := List.mem_flatMap.1 h
  exact mem_hexDigits_of_mem_hexOfByte hc

/-! ## Several texts -/

/-- The bytes of a text. -/
def bytesOf (text : String) : List UInt8 := text.toUTF8.data.toList

/-- A text is its bytes: what is hashed of it says which text it is. -/
theorem bytesOf_inj {s t : String} (h : bytesOf s = bytesOf t) : s = t :=
  String.toByteArray_inj.1 (ByteArray.ext (Array.toList_inj.1 h))

/-- Texts have the same fingerprint if their digests are the same, and only then. -/
theorem ofText_eq_iff {s t : String} :
    ofText s = ofText t ↔ digest (bytesOf s) = digest (bytesOf t) := by
  refine ⟨fun h => hexDigest_inj (congrArg text h), fun h => ?_⟩
  show Fingerprint.mk (String.ofList _) = Fingerprint.mk (String.ofList _)
  rw [show digest s.toUTF8.data.toList = digest t.toUTF8.data.toList from h]

/-- The text with the fingerprint of each of some texts on a line. -/
def framed (texts : List String) : String :=
  String.join (texts.map fun t => (ofText t).text ++ "\n")

/-- The byte strings that are digested for the fingerprint of several texts. -/
def hashed (texts : List String) : List (List UInt8) :=
  texts.map bytesOf ++ [bytesOf (framed texts)]

/-- The fingerprint of several texts is the fingerprint of one, in which the texts are framed. -/
theorem aggregate_map_ofText (texts : List String) :
    aggregate (texts.map ofText) = ofText (framed texts) := by
  rw [aggregate, List.map_map]
  rfl

/-- The framed text holds one line for each text, with the fingerprint of the text in it. -/
theorem toList_framed (texts : List String) :
    (framed texts).toList = texts.flatMap fun t => (ofText t).text.toList ++ ['\n'] := by
  rw [framed, String.toList_join, List.flatMap_map]
  simp

/-- **Lines are cut apart again**, however many there are. -/
theorem framed_inj {l r : List String} (h : framed l = framed r) : l.map ofText = r.map ofText := by
  rw [← String.toList_inj, toList_framed, toList_framed] at h
  induction l generalizing r with
  | nil =>
    cases r with
    | nil => rfl
    | cons t r => simp at h
  | cons s l ih =>
    cases r with
    | nil => simp at h
    | cons t r =>
      rw [List.flatMap_cons, List.flatMap_cons] at h
      obtain ⟨hline, hrest⟩ := List.append_inj h (by simp [length_ofText])
      have htext := String.toList_inj.1 (List.append_inj hline (by simp [length_ofText])).1
      rw [List.map_cons, List.map_cons, ih hrest, show ofText s = ofText t from congrArg mk htext]

/-- **Different lists of texts have different fingerprints**, unless two different byte strings that
were digested have the same digest. -/
theorem eq_or_collides {l r : List String}
    (h : aggregate (l.map ofText) = aggregate (r.map ofText)) :
    l = r ∨ Collides (hashed l ++ hashed r) := by
  by_cases hcollides : Collides (hashed l ++ hashed r)
  · exact .inr hcollides
  · have hinj : ∀ a ∈ hashed l, ∀ b ∈ hashed r, digest a = digest b → a = b := by
      intro a ha b hb hab
      by_contra hne
      exact hcollides ⟨a, List.mem_append_left _ ha, b, List.mem_append_right _ hb, hne, hab⟩
    rw [aggregate_map_ofText, aggregate_map_ofText, ofText_eq_iff] at h
    have hframed := bytesOf_inj (hinj _ (List.mem_append_right _ (List.mem_singleton_self _)) _
      (List.mem_append_right _ (List.mem_singleton_self _)) h)
    have hlines := framed_inj hframed
    have hlength : l.length = r.length := by simpa using congrArg List.length hlines
    refine .inl (List.ext_getElem hlength fun i hl hr => bytesOf_inj (hinj _ ?_ _ ?_ ?_))
    · exact List.mem_append_left _ (List.mem_map_of_mem (List.getElem_mem hl))
    · exact List.mem_append_left _ (List.mem_map_of_mem (List.getElem_mem hr))
    · have hline := List.getElem_of_eq hlines (by rwa [List.length_map] : i < (l.map ofText).length)
      rw [List.getElem_map, List.getElem_map] at hline
      exact ofText_eq_iff.1 hline

end Fingerprint

/-! ## Requests and jobs -/

/-- The texts that the choices of a request are fingerprinted by. -/
def BuildRequest.optionTexts (r : BuildRequest) : List String :=
  [r.moduleName, r.mode.name, r.tools.compiler, r.outputDir.text] ++ r.compilerArgs

/-- The texts that a command is fingerprinted by, with some arguments left out of account. -/
def Command.texts (c : Command) (ignored : String → Bool) : List String :=
  c.tool :: c.args.filter (fun arg => !ignored arg)

/-- Modes have different names. -/
theorem CompilationMode.name_inj {m m' : CompilationMode} (h : m.name = m'.name) : m = m' := by
  cases m <;> cases m' <;> first | rfl | exact absurd h (by decide)

open Blake3 Fingerprint in
/-- **Fingerprints tell apart what they should.** Requests with the same fingerprint of their
choices agree in all that it is made of, and jobs whose commands have the same fingerprint agree in
their tools and in the arguments that are not left out of account, whatever is left out for each;
unless two different byte strings that were digested for the two fingerprints have the same
digest. -/
theorem Fingerprint.tells_apart :
    (∀ r r' : BuildRequest, r.optionsFingerprint = r'.optionsFingerprint →
      (r.moduleName = r'.moduleName ∧ r.mode = r'.mode ∧ r.tools.compiler = r'.tools.compiler ∧
        r.outputDir.text = r'.outputDir.text ∧ r.compilerArgs = r'.compilerArgs) ∨
      Collides (hashed r.optionTexts ++ hashed r'.optionTexts)) ∧
    ∀ (job job' : Job) (ignored ignored' : String → Bool),
      job.command.fingerprint ignored = job'.command.fingerprint ignored' →
      (job.command.tool = job'.command.tool ∧
        job.command.args.filter (fun arg => !ignored arg)
          = job'.command.args.filter (fun arg => !ignored' arg)) ∨
      Collides (hashed (job.command.texts ignored) ++ hashed (job'.command.texts ignored')) := by
  refine ⟨fun r r' h => ?_, fun job job' ignored ignored' h => ?_⟩
  · refine (eq_or_collides (l := r.optionTexts) (r := r'.optionTexts) h).imp_left fun htexts => ?_
    simp only [BuildRequest.optionTexts, List.cons_append, List.nil_append,
      List.cons.injEq] at htexts
    obtain ⟨hmodule, hmode, hcompiler, hdir, hargs⟩ := htexts
    exact ⟨hmodule, CompilationMode.name_inj hmode, hcompiler, hdir, hargs⟩
  · exact (eq_or_collides (l := job.command.texts ignored) (r := job'.command.texts ignored')
      h).imp_left fun htexts => List.cons.inj htexts

/-! Two requests that differ in how many jobs may run at once, and two jobs that link one object,
one of them with a library that is left out of account. -/

namespace OneObject

/-- A request that differs from others in its concurrency only. -/
def request (concurrency : Nat) : BuildRequest where
  moduleName := "app"
  inputs := []
  outputs := ∅
  mode := .perFile
  concurrency := concurrency
  batchSize := none
  policy := .failFast
  libraries := []
  header := none
  explicitModules := false
  compilerArgs := ["-O"]
  outputDir := ⟨"out"⟩
  statePath := ⟨"out/app.state"⟩
  tools := ⟨"compiler", some "ld", none⟩

/-- A link job with some libraries behind its object. -/
def linkJob (libraries : List String) : Job where
  id := 0
  key := .link ⟨"out/app"⟩
  kind := .link .executable
  inputs := []
  outputs := []
  command := ⟨"ld", "out/a.o" :: libraries⟩
  prerequisites := ∅

/-- The library is left out of account. -/
def isLibrary (arg : String) : Bool := arg == "lib/z.a"

end OneObject

open Blake3 Fingerprint OneObject in
/-- The number of workers is not hashed, and neither are the libraries of a link; so these requests
and these commands have one fingerprint, and no collision is needed for it. -/
theorem Fingerprint.tells_apart_object :
    ((request 1).optionsFingerprint = (request 8).optionsFingerprint ∧
      (((request 1).moduleName = (request 8).moduleName ∧ (request 1).mode = (request 8).mode ∧
        (request 1).tools.compiler = (request 8).tools.compiler ∧
        (request 1).outputDir.text = (request 8).outputDir.text ∧
        (request 1).compilerArgs = (request 8).compilerArgs) ∨
      Collides (hashed (request 1).optionTexts ++ hashed (request 8).optionTexts))) ∧
    (linkJob []).command.fingerprint (fun _ => false)
        = (linkJob ["lib/z.a"]).command.fingerprint isLibrary ∧
      (((linkJob []).command.tool = (linkJob ["lib/z.a"]).command.tool ∧
        (linkJob []).command.args.filter (fun _ => !false)
          = (linkJob ["lib/z.a"]).command.args.filter (fun arg => !isLibrary arg)) ∨
      Collides (hashed ((linkJob []).command.texts fun _ => false)
        ++ hashed ((linkJob ["lib/z.a"]).command.texts isLibrary))) := by
  have hargs : (linkJob []).command.args.filter (fun _ => !false)
      = (linkJob ["lib/z.a"]).command.args.filter (fun arg => !isLibrary arg) := by decide
  have hlinks : (linkJob []).command.fingerprint (fun _ => false)
      = (linkJob ["lib/z.a"]).command.fingerprint isLibrary :=
    congrArg (fun args => aggregate (("ld" :: args).map ofText)) hargs
  exact ⟨⟨rfl, Fingerprint.tells_apart.1 (request 1) (request 8) rfl⟩, hlinks,
    Fingerprint.tells_apart.2 (linkJob []) (linkJob ["lib/z.a"]) _ _ hlinks⟩

end IncrementalBuild
