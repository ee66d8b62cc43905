import IncrementalBuild.Proofs.Json.Cut
import IncrementalBuild.Proofs.StateFile
import IncrementalBuild.Proofs.StoredText

/-!
# A state file that is cut off

A write that is broken off leaves the first bytes of a file. Where they are those of a state
file and not all of them, no state is loaded: either the cut goes through a character, and the
bytes are no text, or they are the first characters of the printed state, and these hold no
value. It does not help that every field but the version may be missing, because the brace
that closes the object is the last byte that is written.

What is said of bytes in a file is said of whatever file system answers as one does that holds
them; files in memory and a disk are shown to.
-/

namespace IncrementalBuild

/-- **What bytes are read as, their text would be written as.** -/
theorem Text.Utf8.decode_eq_ok_iff {bytes : ByteArray} {text : String} :
    decode bytes = .ok text ↔ text.toUTF8 = bytes := by
  refine ⟨fun h => ?_, fun h => h ▸ decode_toUTF8 text⟩
  unfold decode at h
  split at h
  · rename_i found hfound
    obtain rfl := Except.ok.inj h
    unfold String.fromUTF8? at hfound
    split at hfound
    · cases hfound
      rfl
    · cases hfound
  · cases h

/-- The first bytes of a text, where they are a text, are that of its first characters. -/
theorem Text.exists_append_eq {s t : String} {more : ByteArray}
    (h : s.toUTF8 ++ more = t.toUTF8) : ∃ rest, s ++ rest = t := by
  have hencode : s.toList.utf8Encode ++ more = t.toList.utf8Encode := by
    rw [String.utf8Encode_toList, String.utf8Encode_toList]
    exact h
  obtain ⟨rest, hrest⟩ := List.isPrefix_of_utf8Encode_append_eq_utf8Encode more hencode
  refine ⟨String.ofList rest, ?_⟩
  rw [← String.toList_inj, String.toList_append, String.toList_ofList, hrest]

/-! ## Bytes in a file -/

/-- **Whether a file holds just these bytes**: it is there, and what it is read as is what they
are read as. -/
structure HoldsBytes {φ : Type} [FileSystem φ] (fs : φ) (p : Path) (bytes : ByteArray) : Prop where
  there : FileSystem.pathExists fs p = true
  reads (text : String) :
    FileSystem.readText fs p = .ok text ↔ Text.Utf8.decode bytes = .ok text

/-- A stored file holds its bytes, in memory. -/
theorem MemoryFiles.holdsBytes {fs : MemoryFiles} {p : Path} {bytes : ByteArray}
    (h : fs.entries.get? p = some (.file bytes)) : HoldsBytes fs p bytes := by
  have hbytes : fs.bytes p = .ok bytes := by
    unfold MemoryFiles.bytes
    rw [h]
  refine ⟨?_, fun text => ?_⟩
  · show fs.entries.contains p = true
    rw [← OrderedMap.isSome_get?, h]
    rfl
  · simp only [FileSystem.readText, hbytes]
    cases Text.Utf8.decode bytes with
    | ok found => simp only [Except.mapError, Except.ok.injEq]
    | error fault => exact ⟨nofun, nofun⟩

/-- A file that is found holds its bytes, on a disk. -/
theorem Disk.holdsBytes {d : Disk} {p : Path} {place : Location} {bytes : ByteArray}
    {executable : Bool} (h : d.find p = .ok (place, .file bytes executable)) :
    HoldsBytes d p bytes := by
  have hbytes : d.bytes p = .ok bytes := by
    unfold Disk.bytes
    rw [h]
  refine ⟨?_, fun text => ?_⟩
  · show (d.named? p).isSome = true
    unfold Disk.named?
    rw [h]
    rfl
  · simp only [FileSystem.readText, hbytes]
    cases Text.Utf8.decode bytes with
    | ok found => simp only [Except.ok.injEq]
    | error fault => exact ⟨nofun, nofun⟩

/-- What was written in memory is held there. -/
theorem MemoryFiles.holdsBytes_of_write {fs after : MemoryFiles} {p : Path} {bytes : ByteArray}
    (h : FileSystem.write fs p bytes = (.ok (), after)) : HoldsBytes after p bytes := by
  obtain rfl : fs.addFile p bytes = after := (Prod.mk.inj h).2
  exact holdsBytes (OrderedMap.get?_insert_self _ _ _)

/-- What was written on a disk is held there. -/
theorem Disk.holdsBytes_of_write {d after : Disk} {p : Path} {bytes : ByteArray}
    (h : FileSystem.write d p bytes = (.ok (), after)) : HoldsBytes after p bytes := by
  obtain ⟨place, executable, hfind⟩ := find_of_write h
  exact holdsBytes hfind

/-- A change that did not fail is the state after it. -/
theorem FileChange.eq_of_isOk {φ : Type} {change : FileChange φ} (h : change.1.isOk = true) :
    change = (.ok (), change.2) := by
  obtain ⟨outcome, after⟩ := change
  cases outcome with
  | ok u => rfl
  | error e => cases h

/-! ## The bytes of a state -/

namespace BuildState

/-- The bytes that are written for a state. -/
def bytes (s : BuildState) : ByteArray := (SavedState.ofState s).print.toUTF8

/-- **A state file that is cut off is never taken for a state**, wherever the cut goes. Nothing
is said about the version or a declaration then: the bytes are refused as a text or as a
value. -/
theorem corrupt_of_cut {φ : Type} [FileSystem φ] (s : BuildState) {n : Nat} (hn : n < s.bytes.size)
    {fs : φ} {p : Path} (hfile : HoldsBytes fs p (s.bytes.extract 0 n)) :
    ∃ fault, StateLoad.ofFile fs p = .corrupt fault ∧
      (fault = .unreadable ∨ ∃ cause, fault = .file cause) := by
  unfold StateLoad.ofFile
  rw [if_pos hfile.there]
  cases hread : FileSystem.readText fs p with
  | error cause => exact ⟨_, rfl, .inr ⟨cause, rfl⟩⟩
  | ok text =>
    have hbytes : text.toUTF8 = s.bytes.extract 0 n :=
      Text.Utf8.decode_eq_ok_iff.1 ((hfile.reads text).1 hread)
    have happend : text.toUTF8 ++ s.bytes.extract n s.bytes.size = s.bytes := by
      rw [hbytes, ← ByteArray.extract_eq_extract_append_extract n (Nat.zero_le n) hn.le]
      exact ByteArray.extract_zero_size
    obtain ⟨rest, hrest⟩ := Text.exists_append_eq happend
    have hne : rest ≠ "" := by
      rintro rfl
      rw [String.append_empty] at hrest
      have hsize : (s.bytes.extract 0 n).size = s.bytes.size := by
        rw [← hbytes, hrest]
        rfl
      rw [ByteArray.size_extract] at hsize
      omega
    have hnone : Json.Value.read? text = none :=
      Json.Value.read?_eq_none_of_cut (SavedState.ofState s).readable_toJson hne hrest
    refine ⟨.unreadable, ?_, .inl rfl⟩
    show StateLoad.ofText text = _
    unfold StateLoad.ofText SavedState.read?
    rw [hnone]
    rfl

/-- A state that knows one input, in whose path a character takes two bytes. -/
def sampleState : BuildState := empty.markNeedsRebuild ⟨"/é"⟩

/-- A cut through that character, on a disk, and one that leaves nothing out but the last
brace, in memory. -/
theorem corrupt_of_cut_sampleState :
    let inside := FileSystem.write (Disk.empty ["w"]) ⟨"state"⟩ (sampleState.bytes.extract 0 58)
    let before := FileSystem.write MemoryFiles.empty ⟨"/state"⟩ (sampleState.bytes.extract 0 160)
    (∃ fault, StateLoad.ofFile inside.2 ⟨"state"⟩ = .corrupt fault) ∧
      (∃ fault, StateLoad.ofFile before.2 ⟨"/state"⟩ = .corrupt fault) := by
  intro inside before
  have hsize : sampleState.bytes.size = 161 := by decide +kernel
  have hinside : inside = (.ok (), inside.2) :=
    FileChange.eq_of_isOk (show inside.1.isOk = true by decide +kernel)
  obtain ⟨fault, hfault, -⟩ := corrupt_of_cut sampleState (n := 58) (by omega)
    (Disk.holdsBytes_of_write hinside)
  obtain ⟨fault', hfault', -⟩ := corrupt_of_cut sampleState (n := 160) (by omega)
    (MemoryFiles.holdsBytes_of_write (rfl : before = (.ok (), before.2)))
  exact ⟨⟨fault, hfault⟩, ⟨fault', hfault'⟩⟩

end BuildState

end IncrementalBuild
