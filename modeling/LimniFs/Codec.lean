import LimniFs.Cursor

/-!
# Codec — compression and decompression by codec id

The registry of `limnifs/codec.py`: codec 0x00 stores the plaintext, codec 0x01 is the LZ4 block
format behind the 4-byte little-endian length of the plaintext.  The block codec itself is the
`lz4.block` package, a parameter here; a call of it returns bytes or raises, and of the exception
only the text is kept.
-/

namespace LimniFs

open Wire

/-- `lz4.block`: `compress(plaintext, store_size=False)` and
`decompress(block, uncompressed_size=size)`. -/
class Lz4Block where
  compress : Bytes → Except Exn Bytes
  decompress : Bytes → Nat → Except String Bytes

def codecStore : Nat := 0x00
def codecLz4 : Nat := 0x01

/-- `n.to_bytes(width, "little")` -/
def toBytesLe (width n : Nat) : Except Exn Bytes :=
  if n < 256 ^ width then .ok (toLe width n) else .error .overflowError

theorem toBytesLe_eq_ok_iff {width n : Nat} {bs : Bytes} :
    toBytesLe width n = .ok bs ↔ n < 256 ^ width ∧ bs = toLe width n := by
  unfold toBytesLe
  split
  · simp [*, eq_comm]
  · simp [*]

section

variable [Lz4Block]

def compress (codecId : Nat) (plaintext : Bytes) : Except Exn Bytes :=
  if codecId = codecStore then
    .ok plaintext
  else if codecId = codecLz4 then do
    let block ← Lz4Block.compress plaintext
    let size ← toBytesLe 4 plaintext.length
    return size ++ block
  else
    .error (.unsupportedFeature s!"compress codec 0x{formatHex 2 codecId}")

def decompress (codecId : Nat) (compressed : Bytes) (expectedLen : Nat) : Except Exn Bytes :=
  if codecId = codecStore then
    if compressed.length ≠ expectedLen then
      .error (.corrupt (s!"store codec: compressed length {compressed.length} " ++
        s!"does not match plaintext_len {expectedLen}"))
    else
      .ok compressed
  else if codecId = codecLz4 then
    if compressed.length < 4 then
      .error (.corrupt "lz4: compressed data too short for size prefix")
    else
      -- The size prefix is dropped unread; the size comes from the drop record.
      match Lz4Block.decompress (compressed.drop 4) expectedLen with
      | .error e => .error (.corrupt s!"lz4 decompress failed: {e}")
      | .ok result =>
          if result.length ≠ expectedLen then
            .error (.corrupt (s!"lz4 decompress: result length {result.length} " ++
              s!"does not match plaintext_len {expectedLen}"))
          else
            .ok result
  else
    .error (.unsupportedFeature s!"decompress codec 0x{formatHex 2 codecId}")

/-! ## What is compressed is decompressed -/

/-- A block that LZ4 makes of the plaintext decodes, with the original size, to the plaintext. -/
def Lz4RoundTrips (plaintext : Bytes) : Prop :=
  ∀ block, Lz4Block.compress plaintext = .ok block →
    Lz4Block.decompress block plaintext.length = .ok plaintext

theorem decompress_compress {codecId : Nat} {plaintext stored : Bytes}
    (hlz4 : codecId = codecLz4 → Lz4RoundTrips plaintext)
    (h : compress codecId plaintext = .ok stored) :
    decompress codecId stored plaintext.length = .ok plaintext := by
  unfold compress at h
  unfold decompress
  split at h
  · rename_i hstore
    cases h
    simp [hstore]
  · rename_i hstore
    split at h
    · rename_i hcodec
      -- Compression went through, so the block was made and the size fitted its field.
      rcases bind_eq_ok_iff.1 h with ⟨block, hblock, h⟩
      rcases bind_eq_ok_iff.1 h with ⟨size, hsize, h⟩
      rcases toBytesLe_eq_ok_iff.1 hsize with ⟨-, rfl⟩
      cases h
      have hdrop : (toLe 4 plaintext.length ++ block).drop 4 = block := by
        simp
      have hlen : ¬ (toLe 4 plaintext.length ++ block).length < 4 := by
        simp
      rw [if_neg hstore, if_pos hcodec, if_neg hlen, hdrop, hlz4 hcodec block hblock]
      simp
    · cases h

/-- What decompression returns: stored bytes as they are, or the decoding of an LZ4 block behind
four bytes, and in both cases as many bytes as were expected. -/
theorem decompress_eq_ok_iff {codecId expectedLen : Nat} {compressed plaintext : Bytes} :
    decompress codecId compressed expectedLen = .ok plaintext ↔
      (codecId = codecStore ∧ compressed.length = expectedLen ∧ plaintext = compressed) ∨
        (codecId = codecLz4 ∧ 4 ≤ compressed.length ∧
          Lz4Block.decompress (compressed.drop 4) expectedLen = .ok plaintext ∧
          plaintext.length = expectedLen) := by
  unfold decompress
  by_cases hstore : codecId = codecStore
  · have hlz4 : codecId ≠ codecLz4 := by
      rw [hstore]
      decide
    rw [if_pos hstore]
    by_cases hlen : compressed.length = expectedLen
    · simp [hstore, hlen, codecStore, codecLz4, eq_comm]
    · simp [hlz4, hlen]
  by_cases hlz4 : codecId = codecLz4
  · rw [if_neg hstore, if_pos hlz4]
    by_cases hshort : compressed.length < 4
    · simp [hshort, hstore, Nat.not_le.2 hshort]
    · rw [if_neg hshort]
      cases hblock : Lz4Block.decompress (compressed.drop 4) expectedLen with
      | error e =>
          simp [hstore]
      | ok result =>
          by_cases hlen : result.length = expectedLen
          · simp only [hlen, ne_eq, not_true_eq_false, if_false, Except.ok.injEq]
            constructor
            · rintro rfl
              exact .inr ⟨hlz4, Nat.not_lt.1 hshort, rfl, hlen⟩
            · rintro (⟨h, -, -⟩ | ⟨-, -, h, -⟩)
              · exact absurd h hstore
              · exact h
          · simp only [ne_eq, hlen, not_false_eq_true, if_true, reduceCtorEq, false_iff]
            rintro (⟨h, -, -⟩ | ⟨-, -, h, hlen'⟩)
            · exact hstore h
            · rw [Except.ok.inj h] at hlen
              exact hlen hlen'
  · simp [hstore, hlz4]

/-- Decompression raises nothing but the two errors that its caller catches. -/
theorem decompress_raises {codecId expectedLen : Nat} {compressed : Bytes} {e : Exn}
    (h : decompress codecId compressed expectedLen = .error e) :
    (∃ reason, e = .corrupt reason) ∨ ∃ feature, e = .unsupportedFeature feature := by
  unfold decompress at h
  split at h
  · split at h
    · cases h
      exact .inl ⟨_, rfl⟩
    · cases h
  · split at h
    · split at h
      · cases h
        exact .inl ⟨_, rfl⟩
      · split at h
        · cases h
          exact .inl ⟨_, rfl⟩
        · split at h
          · cases h
            exact .inl ⟨_, rfl⟩
          · cases h
    · cases h
      exact .inr ⟨_, rfl⟩

end

end LimniFs
