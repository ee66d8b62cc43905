/-!
# BLAKE3

The 256-bit BLAKE3 digest of a byte sequence. The input is cut into chunks of
1024 bytes and these into blocks of 64; each block is compressed into the
chaining value of its chunk, and the chunks are the leaves of a binary tree
whose left subtrees are as large a power of two as leaves the right one
non-empty. Only the node at the top is compressed with the root flag, and its
first eight words are the digest.
-/

namespace IncrementalBuild.Blake3

/-- Eight words that pass from one compression to the next. -/
abbrev ChainingValue := Vector UInt32 8

/-- The sixteen words of a message block, or of the compression's state. -/
abbrev Words := Vector UInt32 16

/-- The initial chaining value. -/
def iv : ChainingValue :=
  #v[0x6A09E667, 0xBB67AE85, 0x3C6EF372, 0xA54FF53A,
     0x510E527F, 0x9B05688C, 0x1F83D9AB, 0x5BE0CD19]

/-- Which word of the message moves to each place between two rounds. -/
def permutation : Vector (Fin 16) 16 :=
  #v[2, 6, 3, 10, 7, 0, 4, 13, 1, 11, 12, 5, 9, 14, 15, 8]

def chunkStart : UInt32 := 1
def chunkEnd : UInt32 := 2
def parentNode : UInt32 := 4
def rootNode : UInt32 := 8

/-- Rotates a word to the right. -/
def rotateRight (w : UInt32) (n : UInt32) : UInt32 := (w >>> n) ||| (w <<< (32 - n))

/-- Mixes two message words into a column or a diagonal of the state. -/
def quarterRound (v : Words) (a b c d : Fin 16) (x y : UInt32) : Words :=
  let va := v[a] + v[b] + x
  let vd := rotateRight (v[d] ^^^ va) 16
  let vc := v[c] + vd
  let vb := rotateRight (v[b] ^^^ vc) 12
  let va := va + vb + y
  let vd := rotateRight (vd ^^^ va) 8
  let vc := vc + vd
  let vb := rotateRight (vb ^^^ vc) 7
  (((v.set a va).set b vb).set c vc).set d vd

/-- One round: the four columns and then the four diagonals. -/
def round (v m : Words) : Words :=
  let v := quarterRound v 0 4 8 12 m[0] m[1]
  let v := quarterRound v 1 5 9 13 m[2] m[3]
  let v := quarterRound v 2 6 10 14 m[4] m[5]
  let v := quarterRound v 3 7 11 15 m[6] m[7]
  let v := quarterRound v 0 5 10 15 m[8] m[9]
  let v := quarterRound v 1 6 11 12 m[10] m[11]
  let v := quarterRound v 2 7 8 13 m[12] m[13]
  quarterRound v 3 4 9 14 m[14] m[15]

/-- So many rounds, the message permuted after each. -/
def rounds : Nat → Words → Words → Words
  | 0, v, _ => v
  | n + 1, v, m => rounds n (round v m) (permutation.map (m[·]))

/-- What is still to be compressed at a node: its last block, and all that
goes with it. -/
structure Pending where
  chaining : ChainingValue
  block : Words
  counter : UInt64
  length : UInt32
  flags : UInt32

/-- Compresses a block; the first eight words of the result. -/
def Pending.compress (p : Pending) : ChainingValue :=
  let v : Words := #v[
    p.chaining[0], p.chaining[1], p.chaining[2], p.chaining[3],
    p.chaining[4], p.chaining[5], p.chaining[6], p.chaining[7],
    iv[0], iv[1], iv[2], iv[3],
    p.counter.toUInt32, (p.counter >>> 32).toUInt32, p.length, p.flags]
  let v := rounds 7 v p.block
  Vector.ofFn (fun i : Fin 8 => v.get (i.castAdd 8) ^^^ v.get (i.natAdd 8))

/-- The bytes of a word, the lowest first. -/
def bytesOfWord (w : UInt32) : List UInt8 :=
  [w.toUInt8, (w >>> 8).toUInt8, (w >>> 16).toUInt8, (w >>> 24).toUInt8]

/-- The word of four bytes, the lowest first; missing bytes are zero. -/
def wordOfBytes : List UInt8 → UInt32
  | [] => 0
  | b :: rest => b.toUInt32 ||| (wordOfBytes rest <<< 8)

/-- The words of at most 64 bytes, padded with zeros. -/
def wordsOfBlock (bytes : List UInt8) : Words :=
  Vector.ofFn (fun i => wordOfBytes ((bytes.drop (4 * i.val)).take 4))

/-- Cuts a list into pieces of `n + 1` elements; the last one may be
shorter. -/
def pieces {α : Type} (n : Nat) (l : List α) : List (List α) :=
  match l with
  | [] => []
  | a :: rest => (a :: rest.take n) :: pieces n (rest.drop n)
  termination_by l.length
  decreasing_by simp only [List.length_cons, List.length_drop]; omega

/-- Absorbs the blocks of a chunk. The last one stays pending. -/
def absorb (counter : UInt64) (start : UInt32) (chaining : ChainingValue) :
    List (List UInt8) → Pending
  | [] => ⟨chaining, wordsOfBlock [], counter, 0, start ||| chunkEnd⟩
  | [last] =>
    ⟨chaining, wordsOfBlock last, counter, last.length.toUInt32, start ||| chunkEnd⟩
  | block :: more =>
    absorb counter 0
      (Pending.compress ⟨chaining, wordsOfBlock block, counter, 64, start⟩) more

/-- A leaf of the tree. -/
def chunkNode (counter : UInt64) (bytes : List UInt8) : Pending :=
  absorb counter chunkStart iv (pieces 63 bytes)

/-- An inner node of the tree. -/
def joinNodes (left right : Pending) : Pending :=
  ⟨iv, (left.compress ++ right.compress).cast (by rfl), 0, 64, parentNode⟩

/-- The largest power of two below `n`, for `n` at least two. -/
def leftSize (n : Nat) : Nat := Nat.pow 2 (n - 1).log2

theorem leftSize_pos (n : Nat) : 0 < leftSize n := Nat.two_pow_pos _

theorem leftSize_lt {n : Nat} (h : 2 ≤ n) : leftSize n < n := by
  have := Nat.log2_self_le (n := n - 1) (by omega)
  unfold leftSize
  rw [Nat.pow_eq]
  omega

/-- The tree over some chunks, the first of which has the given number. -/
def tree (counter : Nat) (chunks : List (List UInt8)) : Pending :=
  if _h : 2 ≤ chunks.length then
    let n := leftSize chunks.length
    joinNodes (tree counter (chunks.take n)) (tree (counter + n) (chunks.drop n))
  else chunkNode counter.toUInt64 chunks.flatten
  termination_by chunks.length
  decreasing_by
    · have := leftSize_lt _h
      simp; omega
    · have := leftSize_pos chunks.length
      simp; omega

/-- **The digest of some bytes**, 32 bytes long. -/
def digest (bytes : List UInt8) : List UInt8 :=
  let top := tree 0 (pieces 1023 bytes)
  (Pending.compress { top with flags := top.flags ||| rootNode }).toList.flatMap bytesOfWord

/-- Two hexadecimal digits for a byte. -/
def hexOfByte (b : UInt8) : List Char :=
  [Nat.digitChar (b.toNat / 16), Nat.digitChar (b.toNat % 16)]

/-- The digest in lower-case hexadecimal. -/
def hexDigest (bytes : List UInt8) : String :=
  String.ofList ((digest bytes).flatMap hexOfByte)

end IncrementalBuild.Blake3
