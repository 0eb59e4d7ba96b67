import LimniFs.Codec
import LimniFs.Manifest

/-!
# Reference — concrete functions for the parameters

BLAKE3 as its specification defines it, over numbers below `2 ^ 32`, a Unicode table that knows
the ASCII range, and the LZ4 block format with an encoder that only emits literals.  General
statements never use them; they stand in for the packages where a statement is run on a concrete
input, so they are instances only where this namespace is open.
-/

namespace LimniFs.Reference

open Wire

/-! ## BLAKE3 -/

def add32 (a b : Nat) : Nat :=
  (a + b) % 2 ^ 32

def rotr32 (x n : Nat) : Nat :=
  x >>> n ||| x <<< (32 - n) % 2 ^ 32

def iv : List Nat :=
  [0x6A09E667, 0xBB67AE85, 0x3C6EF372, 0xA54FF53A, 0x510E527F, 0x9B05688C, 0x1F83D9AB, 0x5BE0CD19]

def msgPermutation : List Nat :=
  [2, 6, 3, 10, 7, 0, 4, 13, 1, 11, 12, 5, 9, 14, 15, 8]

/-- The quarter round on the words `a`, `b`, `c`, `d` of the state. -/
def g (v : List Nat) (a b c d x y : Nat) : List Nat :=
  let va := add32 (add32 (v.getD a 0) (v.getD b 0)) x
  let vd := rotr32 (v.getD d 0 ^^^ va) 16
  let vc := add32 (v.getD c 0) vd
  let vb := rotr32 (v.getD b 0 ^^^ vc) 12
  let va := add32 (add32 va vb) y
  let vd := rotr32 (vd ^^^ va) 8
  let vc := add32 vc vd
  let vb := rotr32 (vb ^^^ vc) 7
  (((v.set a va).set b vb).set c vc).set d vd

/-- The columns, then the diagonals. -/
def roundSchedule : List (Nat × Nat × Nat × Nat) :=
  [(0, 4, 8, 12), (1, 5, 9, 13), (2, 6, 10, 14), (3, 7, 11, 15),
    (0, 5, 10, 15), (1, 6, 11, 12), (2, 7, 8, 13), (3, 4, 9, 14)]

def round (v m : List Nat) : List Nat :=
  roundSchedule.zipIdx.foldl (fun v step =>
    g v step.1.1 step.1.2.1 step.1.2.2.1 step.1.2.2.2 (m.getD (2 * step.2) 0)
      (m.getD (2 * step.2 + 1) 0)) v

def rounds : Nat → List Nat → List Nat → List Nat
  | 0, v, _ => v
  | n + 1, v, m => rounds n (round v m) (msgPermutation.map fun i => m.getD i 0)

/-- What a node hands to the compression function. -/
structure Node where
  chaining : List Nat
  block : List Nat
  counter : Nat
  blockLen : Nat
  flags : Nat

def chunkStart : Nat := 1
def chunkEnd : Nat := 2
def parent : Nat := 4
def root : Nat := 8

/-- The first eight words of the compression of a node. -/
def compress (node : Node) : List Nat :=
  -- The counter goes into two words, low half first.
  let v := rounds 7 (node.chaining ++ iv.take 4 ++ [node.counter % 2 ^ 32, node.counter / 2 ^ 32,
    node.blockLen, node.flags]) node.block
  (List.range 8).map fun i => v.getD i 0 ^^^ v.getD (i + 8) 0

/-- Sixteen little-endian words of a block, filled up with zeros. -/
def blockWords (block : Bytes) : List Nat :=
  (List.range 16).map fun i => ofLe ((block.drop (4 * i)).take 4)

/-- The last block of a chunk, after the blocks before it have been compressed. -/
def chunkNode (counter : Nat) : Nat → List Nat → Nat → Bytes → Node
  -- Sixteen blocks make a chunk, so the fuel lasts for every chunk of at most 1024 bytes.
  | 0, chaining, flags, chunk => ⟨chaining, blockWords chunk, counter, chunk.length, flags⟩
  | fuel + 1, chaining, flags, chunk =>
      if chunk.length ≤ 64 then
        ⟨chaining, blockWords chunk, counter, chunk.length, flags ||| chunkEnd⟩
      else
        chunkNode counter fuel
          (compress ⟨chaining, blockWords (chunk.take 64), counter, 64, flags⟩) 0 (chunk.drop 64)

/-- The node over an input whose first chunk has the index `counter`. -/
def subtree : Nat → Nat → Bytes → Node
  | 0, counter, input => chunkNode counter 16 iv chunkStart input
  | fuel + 1, counter, input =>
      if input.length ≤ 1024 then
        chunkNode counter 16 iv chunkStart input
      else
        -- The left subtree is complete and leaves at least one byte for the right one.
        let leftChunks := 2 ^ Nat.log2 ((input.length - 1) / 1024)
        let left := compress (subtree fuel counter (input.take (1024 * leftChunks)))
        let right := compress
          (subtree fuel (counter + leftChunks) (input.drop (1024 * leftChunks)))
        ⟨iv, left ++ right, 0, 64, parent⟩

def digest (input : Bytes) : Bytes :=
  let node := subtree 64 0 input
  let words := compress { node with flags := node.flags ||| root }
  (List.range 8).flatMap fun i => toLe 4 (words.getD i 0)

scoped instance blake3 : Blake3 where
  digest := digest
  length_digest bs := by
    simp [digest]

/-! ## The ASCII range -/

scoped instance unicodeData : UnicodeData where
  category c := if c.toNat < 128 then asciiCategory c else .Cn
  numericType c := if c.toNat < 128 then asciiNumericType c else .none
  category_ascii _ hc := if_pos hc
  numericType_ascii _ hc := if_pos hc

/-! ## LZ4 blocks -/

/-- The bytes that follow a length of 15 or more in the token. -/
def lengthBytes (n : Nat) : Bytes :=
  List.replicate (n / 255) 255 ++ [UInt8.ofNat (n % 255)]

/-- One last sequence that holds all the bytes as literals. -/
def literalBlock (plaintext : Bytes) : Bytes :=
  if plaintext.length < 15 then
    UInt8.ofNat (16 * plaintext.length) :: plaintext
  else
    0xF0 :: (lengthBytes (plaintext.length - 15) ++ plaintext)

/-- The length whose first four bits are `nibble`, and the input behind it. -/
def readLength (nibble : Nat) (input : Bytes) : Option (Nat × Bytes) :=
  if nibble < 15 then some (nibble, input) else go 15 input
where
  go (n : Nat) : Bytes → Option (Nat × Bytes)
    | [] => none
    | b :: input => if b.toNat = 255 then go (n + 255) input else some (n + b.toNat, input)

/-- Append `n` bytes, each the one `offset` bytes before it. -/
def copyMatch (offset : Nat) : Nat → Bytes → Bytes
  | 0, out => out
  | n + 1, out => copyMatch offset n (out ++ [out.getD (out.length - offset) 0])

/-- Sequences of literals and a match, up to the last one, which has no match. -/
def decodeSequences : Nat → Bytes → Bytes → Option Bytes
  | 0, _, _ => none
  | _ + 1, [], _ => none
  | fuel + 1, token :: input, out => do
      let (literals, input) ← readLength (token.toNat / 16) input
      if input.length < literals then
        none
      else
        let out := out ++ input.take literals
        match input.drop literals with
        -- Literals up to the end of the block: the last sequence.
        | [] => some out
        -- Half an offset.
        | [_] => none
        | lo :: hi :: input =>
            let offset := lo.toNat + 256 * hi.toNat
            let (matched, input) ← readLength (token.toNat % 16) input
            -- A match reaches back into the output and no further.
            if offset = 0 ∨ out.length < offset then
              none
            else
              decodeSequences fuel input (copyMatch offset (matched + 4) out)

/-- Literals and matches alone: what the package asks of the end of a block is not checked. -/
def decodeBlock (block : Bytes) (size : Nat) : Except String Bytes :=
  match decodeSequences (block.length + 1) block [] with
  | none => .error "Decompression failed: corrupt input"
  | some out =>
      if size < out.length then
        .error "Decompression failed: insufficient space in destination buffer"
      else
        .ok out

scoped instance lz4Block : Lz4Block where
  compress plaintext := .ok (literalBlock plaintext)
  decompress := decodeBlock

/-! ## A small manifest -/

/-- No flags, no slabs, one history entry, and a reference with the given hash and inline bytes. -/
def sections (metadataHash inlineMetadata : Bytes) (hlen : metadataHash.length = 32) :
    Sections where
  header := ⟨1, 1, 1⟩
  flags := ⟨[]⟩
  metadataReference := ⟨metadataHash, [], some inlineMetadata, hlen⟩
  slabIndex := ⟨[]⟩
  ecParams := none
  dmsPolicy := none
  history := ⟨[⟨.build, 0, [], []⟩]⟩

theorem sections_inRange [UnicodeData] {metadataHash inlineMetadata : Bytes}
    {hlen : metadataHash.length = 32} (hne : inlineMetadata ≠ [])
    (hmax : inlineMetadata.length ≤ 1024 * 1024) :
    (sections metadataHash inlineMetadata hlen).InRange where
  header := ⟨by simp [sections], by simp [sections], by simp [sections]⟩
  flags := ⟨by simp [sections], by simp [sections], by simp [sections]⟩
  metadataReference := by
    refine ⟨by simp [sections], by simp [sections], ?_, by simp [sections]⟩
    rintro _ ⟨⟩
    exact ⟨hne, Nat.lt_of_le_of_lt hmax (by decide), hmax⟩
  slabIndex := ⟨by simp [sections], by simp [sections], by simp [sections]⟩
  history := by
    refine ⟨by simp [sections], by simp [sections], ?_⟩
    rintro _ (_ | ⟨_, ⟨⟩⟩)
    exact ⟨by simp, by simp, by simp, by simp⟩
  ecParams_isSome := rfl
  ecParams := by simp [sections]
  dmsPolicy_isSome := rfl
  dmsPolicy := by simp [sections]

/-- The small manifest around the one-byte blob `00` with its own hash. -/
def small : Sections :=
  sections (hashSection [0]) [0] (length_hashSection [0])

theorem small_inRange [UnicodeData] : small.InRange :=
  sections_inRange (by decide) (by decide)

end LimniFs.Reference
