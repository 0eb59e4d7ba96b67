import LimniFs.FormatTypes
import LimniFs.Wire.Digest

/-!
# Merkle — the ten section hashes and the `ManifestRoot`

BLAKE3 comes from a package, so the digest is a parameter: any function to 32 bytes.  No statement
assumes that it has no collisions; where that matters, a collision is part of the conclusion.
-/

namespace LimniFs

open Wire

class Blake3 where
  digest : Bytes → Bytes
  length_digest : ∀ bs, (digest bs).length = blake3Len

/-- `b"limnifs/v1"` -/
def merkleDomainSeparator : Bytes :=
  [0x6C, 0x69, 0x6D, 0x6E, 0x69, 0x66, 0x73, 0x2F, 0x76, 0x31]

section Hashes

variable [Blake3]

def hashSection (buf : Bytes) : Bytes :=
  Blake3.digest buf

def hashEmptySection : Bytes :=
  hashSection []

@[simp]
theorem length_hashSection (buf : Bytes) : (hashSection buf).length = 32 :=
  Blake3.length_digest buf

end Hashes

/-- The ten slots that feed into `computeMerkleRoot`. -/
structure SectionHashes where
  metadata : Bytes
  formatHeader : Bytes
  featureFlags : Bytes
  metadataReference : Bytes
  slabIndex : Bytes
  cryptoParams : Bytes
  ecParams : Bytes
  dmsPolicy : Bytes
  deltaLinkage : Bytes
  history : Bytes
  length_slots : ∀ slot ∈ [metadata, formatHeader, featureFlags, metadataReference, slabIndex,
    cryptoParams, ecParams, dmsPolicy, deltaLinkage, history], slot.length = 32
  deriving DecidableEq

namespace SectionHashes

/-- The constructor: it refuses the first slot that is not 32 bytes wide. -/
def make (metadata formatHeader featureFlags metadataReference slabIndex cryptoParams ecParams
    dmsPolicy deltaLinkage history : Bytes) : Except Exn SectionHashes :=
  let slots := [("metadata", metadata), ("format_header", formatHeader),
    ("feature_flags", featureFlags), ("metadata_reference", metadataReference),
    ("slab_index", slabIndex), ("crypto_params", cryptoParams), ("ec_params", ecParams),
    ("dms_policy", dmsPolicy), ("delta_linkage", deltaLinkage), ("history", history)]
  match h : slots.find? fun slot => slot.2.length ≠ 32 with
  | some (name, value) =>
      .error (.valueError s!"SectionHashes.{name} must be 32 bytes, got {value.length}")
  | none =>
      .ok ⟨metadata, formatHeader, featureFlags, metadataReference, slabIndex, cryptoParams,
        ecParams, dmsPolicy, deltaLinkage, history, by simpa [slots] using h⟩

/-- Ten slots of 32 bytes pass the constructor. -/
theorem make_eq_ok {metadata formatHeader featureFlags metadataReference slabIndex cryptoParams
    ecParams dmsPolicy deltaLinkage history : Bytes}
    (h : ∀ slot ∈ [metadata, formatHeader, featureFlags, metadataReference, slabIndex,
      cryptoParams, ecParams, dmsPolicy, deltaLinkage, history], slot.length = 32) :
    make metadata formatHeader featureFlags metadataReference slabIndex cryptoParams ecParams
      dmsPolicy deltaLinkage history =
        .ok ⟨metadata, formatHeader, featureFlags, metadataReference, slabIndex, cryptoParams,
          ecParams, dmsPolicy, deltaLinkage, history, h⟩ := by
  dsimp only [make]
  split
  -- A slot that the search finds is one of the ten and has another width.
  · rename_i name value hfind
    have hmem := List.mem_of_find?_eq_some hfind
    have hbad := List.find?_some hfind
    have hslot : value ∈ [metadata, formatHeader, featureFlags, metadataReference, slabIndex,
        cryptoParams, ecParams, dmsPolicy, deltaLinkage, history] := by
      simpa using List.mem_map_of_mem (f := Prod.snd) hmem
    exact absurd (h value hslot) (by simpa using hbad)
  · rfl

/-- The slots in the order of the Merkle computation. -/
def slots (hashes : SectionHashes) : List Bytes :=
  [hashes.metadata, hashes.formatHeader, hashes.featureFlags, hashes.metadataReference,
    hashes.slabIndex, hashes.cryptoParams, hashes.ecParams, hashes.dmsPolicy,
    hashes.deltaLinkage, hashes.history]

end SectionHashes

/-- What the updates of `compute_merkle_root` feed into the hash state: 330 bytes. -/
def merkleInput (hashes : SectionHashes) : Bytes :=
  commitInput merkleDomainSeparator hashes.slots

section Root

variable [Blake3]

def computeMerkleRoot (hashes : SectionHashes) : Except Exn ManifestRoot :=
  ManifestRoot.make (Blake3.digest (merkleInput hashes))

theorem computeMerkleRoot_eq_ok (hashes : SectionHashes) :
    computeMerkleRoot hashes =
      .ok ⟨Blake3.digest (merkleInput hashes), Blake3.length_digest _⟩ :=
  dif_pos (Blake3.length_digest _)

/-- Equal roots come from equal slots, or the two 330-byte inputs collide. -/
theorem merkleInput_binds {a b : SectionHashes}
    (h : Blake3.digest (merkleInput a) = Blake3.digest (merkleInput b)) :
    a.slots = b.slots ∨ Collision Blake3.digest (merkleInput a) (merkleInput b) :=
  commit_binds a.length_slots b.length_slots rfl h

end Root

end LimniFs
