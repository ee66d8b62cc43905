import IncrementalBuild.Blake3
import IncrementalBuild.FileSystem

/-!
# Fingerprints

A fingerprint stands for a content: the BLAKE3 digest of the bytes in
hexadecimal. Fingerprints that come from elsewhere, such as those a compiler
reports for a declaration, are taken as they are and only compared.

Several fingerprints are put together by digesting them one to a line, so
neither moving a boundary nor changing the order goes unnoticed.
-/

namespace IncrementalBuild

/-- What stands for a content. -/
structure Fingerprint where
  text : String
  deriving DecidableEq, Inhabited

namespace Fingerprint

instance : ToString Fingerprint := ⟨text⟩

/-- The fingerprint of some bytes. -/
def ofBytes (bytes : ByteArray) : Fingerprint := ⟨Blake3.hexDigest bytes.data.toList⟩

/-- The fingerprint of a text. -/
def ofText (text : String) : Fingerprint := ofBytes text.toUTF8

/-- **One fingerprint for several**, in the order given. -/
def aggregate (parts : List Fingerprint) : Fingerprint :=
  ofText (String.join (parts.map (fun part => part.text ++ "\n")))

/-- The fingerprint of a file. -/
def ofFile {φ : Type} [FileSystem φ] (fs : φ) (p : Path) : Except FileError Fingerprint :=
  match FileSystem.openFile fs p with
  | .error e => .error (.during (.openingForFingerprint p) e)
  | .ok (.error e) => .error (.during (.readingForFingerprint p) e)
  | .ok (.ok bytes) => .ok (ofBytes bytes)

end Fingerprint

end IncrementalBuild
