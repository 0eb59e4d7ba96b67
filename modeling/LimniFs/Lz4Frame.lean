import LimniFs.SolidWindow

/-!
# Lz4Frame — the size in front of an LZ4 block

The writer puts the size of the plaintext in front of the block.  The reader skips these four bytes
and takes the size from the drop record, so a payload is accepted by its block and by the record
alone.
-/

namespace LimniFs

open Wire

/-- The contract that is assumed of `lz4.block.decompress` with a size: the decoding of the block
when it fits, and no bytes otherwise.  The block format is `decoding`, with what the package asks of
the end of a block: a block that breaks these rules has no decoding. -/
structure Lz4Decodes [Lz4Block] (decoding : Bytes → Option Bytes) : Prop where
  decodes : ∀ {block plaintext : Bytes} {size : Nat},
    Lz4Block.decompress block size = .ok plaintext ↔
      decoding block = some plaintext ∧ plaintext.length ≤ size

/-- Four bytes, whatever they are, and a block that decodes to the plaintext. -/
def IsSkippedFrame (decoding : Bytes → Option Bytes) (compressed plaintext : Bytes) : Prop :=
  ∃ size block, compressed = size ++ block ∧ size.length = 4 ∧ decoding block = some plaintext

/-- The size of the plaintext, and a block that decodes to it. -/
def IsSizedFrame (decoding : Bytes → Option Bytes) (compressed plaintext : Bytes) : Prop :=
  ∃ block, compressed = toLe 4 plaintext.length ++ block ∧ decoding block = some plaintext

theorem isSkippedFrame_iff {decoding : Bytes → Option Bytes} {compressed plaintext : Bytes} :
    IsSkippedFrame decoding compressed plaintext ↔
      4 ≤ compressed.length ∧ decoding (compressed.drop 4) = some plaintext := by
  constructor
  · rintro ⟨size, block, rfl, hsize, hblock⟩
    rw [← hsize, List.drop_left]
    exact ⟨by simp, hblock⟩
  · rintro ⟨hlen, hblock⟩
    exact ⟨compressed.take 4, compressed.drop 4, (List.take_append_drop 4 compressed).symm,
      List.length_take_of_le hlen, hblock⟩

section

variable [Lz4Block] {decoding : Bytes → Option Bytes}

theorem Lz4Decodes.decompress_iff (h : Lz4Decodes decoding) {compressed plaintext : Bytes}
    {n : Nat} : decompress codecLz4 compressed n = .ok plaintext ↔
      IsSkippedFrame decoding compressed plaintext ∧ n = plaintext.length := by
  rw [decompress_eq_ok_iff, isSkippedFrame_iff, h.decodes]
  constructor
  · rintro (⟨hcodec, -, -⟩ | ⟨-, hlen, ⟨hblock, -⟩, heq⟩)
    · exact absurd hcodec (by decide)
    · exact ⟨⟨hlen, hblock⟩, heq.symm⟩
  · rintro ⟨⟨hlen, hblock⟩, heq⟩
    exact .inr ⟨rfl, hlen, ⟨hblock, Nat.le_of_eq heq.symm⟩, heq.symm⟩

/-- Under LZ4 whatever is not decompressed is corrupt. -/
theorem decompress_lz4_raises {compressed : Bytes} {n : Nat} {e : Exn}
    (h : decompress codecLz4 compressed n = .error e) : e.IsCorrupt := by
  rcases decompress_raises h with ⟨reason, rfl⟩ | ⟨feature, rfl⟩
  · exact Exn.isCorrupt_corrupt reason
  -- The codec is known, so no feature is missing.
  · unfold decompress at h
    rw [if_neg (by decide), if_pos rfl] at h
    split at h
    · cases h
    · split at h
      · cases h
      · split at h
        · cases h
        · cases h

/-- A payload is decompressed to the plaintext of its block when the record announces its length,
and to nothing else; the four bytes in front of the block do not matter.  Every other payload is
corrupt, and a lookup returns no data for it. -/
theorem decompress_lz4_framing (h : Lz4Decodes decoding) :
    (∀ compressed n plaintext, decompress codecLz4 compressed n = .ok plaintext ↔
      IsSkippedFrame decoding compressed plaintext ∧ n = plaintext.length) ∧
    (∀ compressed n,
      (¬ ∃ plaintext, IsSkippedFrame decoding compressed plaintext ∧ n = plaintext.length) →
        ∃ reason, decompress codecLz4 compressed n = .error (.corrupt reason)) ∧
    ∀ (view : SlabView) (dropId : Bytes) (record : DropRecord),
      view.findRecord dropId = some record → record.representation.codec = codecLz4 →
      (¬ ∃ plaintext, IsSkippedFrame decoding (view.stored record) plaintext ∧
        record.plaintextLen = plaintext.length) →
      ∀ plaintext, view.plaintextFor dropId ≠ .ok (.found plaintext) := by
  refine ⟨fun _ _ _ => h.decompress_iff, ?_, ?_⟩
  · intro compressed n hnone
    cases hd : decompress codecLz4 compressed n with
    | ok plaintext =>
        exact absurd ⟨plaintext, h.decompress_iff.1 hd⟩ hnone
    | error e =>
        rcases decompress_lz4_raises hd with ⟨reason, rfl⟩
        exact ⟨reason, rfl⟩
  · intro view dropId record hfind hcodec hnone plaintext hfound
    rcases SlabView.plaintextFor_found_steps hfound with ⟨record', hfind', -, -, -, hd⟩
    rw [hfind] at hfind'
    cases hfind'
    rw [hcodec] at hd
    exact hnone ⟨plaintext, h.decompress_iff.1 hd⟩

end

namespace Reference

/-- What a block decodes to, of whatever size. -/
def decoding (block : Bytes) : Option Bytes :=
  decodeSequences (block.length + 1) block []

open scoped Reference in
theorem decoding_lz4Decodes : Lz4Decodes decoding where
  decodes {block plaintext size} := by
    have hdef : Lz4Block.decompress block size = decodeBlock block size := rfl
    rw [hdef, decodeBlock]
    cases hblock : decoding block with
    | none =>
        rw [decoding] at hblock
        simp [hblock]
    | some out =>
        rw [decoding] at hblock
        by_cases hsize : size < out.length
        · simp only [hblock, hsize, if_true, Option.some.injEq, reduceCtorEq, false_iff]
          rintro ⟨rfl, hle⟩
          exact absurd hsize (Nat.not_lt.2 hle)
        · simp only [hblock, hsize, if_false, Except.ok.injEq, Option.some.injEq]
          constructor
          · rintro rfl
            exact ⟨rfl, Nat.not_lt.1 hsize⟩
          · exact fun hout => hout.1

end Reference

open scoped Reference in
/-- A block of one literal is decompressed behind its size, and behind any other four bytes. -/
theorem decompress_lz4_framing_literal :
    decompress codecLz4 [1, 0, 0, 0, 0x10, 0x41] 1 = .ok [0x41] ∧
      decompress codecLz4 [9, 9, 9, 9, 0x10, 0x41] 1 = .ok [0x41] := by
  have hframing := (decompress_lz4_framing Reference.decoding_lz4Decodes).1
  refine ⟨(hframing _ _ _).2 ⟨⟨[1, 0, 0, 0], [0x10, 0x41], rfl, rfl, ?_⟩, rfl⟩,
    (hframing _ _ _).2 ⟨⟨[9, 9, 9, 9], [0x10, 0x41], rfl, rfl, ?_⟩, rfl⟩⟩
  · decide
  · decide

open scoped Reference in
/-- The same block behind a size of 0 is decompressed, although the sizes disagree. -/
theorem decompress_lz4_not_sized :
    Lz4Decodes Reference.decoding ∧
      ¬ ∀ compressed n plaintext, decompress codecLz4 compressed n = .ok plaintext ↔
        IsSizedFrame Reference.decoding compressed plaintext ∧ n = plaintext.length := by
  refine ⟨Reference.decoding_lz4Decodes, ?_⟩
  intro hall
  have hok : decompress codecLz4 [0, 0, 0, 0, 0x10, 0x41] 1 = .ok [0x41] := by
    decide
  rcases (hall _ _ _).1 hok with ⟨⟨block, hframe, -⟩, -⟩
  -- The frame would have to begin with the size 1.
  have hsize : toLe 4 [(0x41 : UInt8)].length = [1, 0, 0, 0] := by
    decide
  rw [hsize] at hframe
  cases hframe

end LimniFs
