import LimniFs.FeatureFlags
import LimniFs.Header
import LimniFs.History
import LimniFs.Merkle
import LimniFs.MetadataReference
import LimniFs.SlabIndex
import LimniFs.Wire.Writer

/-!
# Builder — declarative specs to wire bytes and `ManifestRoot`

The encoders of `ManifestBuilder` append to one buffer, section after section, and the section
hashes are taken over what each of them appended.  `pack` refuses numbers that do not fit their
format.  The numbers of a spec are not negative, and its texts have no lone surrogates.
-/

namespace LimniFs

open Wire

abbrev Encoder (α : Type) : Type :=
  Wire.Writer UInt8 Exn α

/-! ## Specs -/

structure HeaderSpec where
  dropStoreVersion : Nat := 1
  metadataVersion : Nat := 1
  manifestVersion : Nat := 1
  deriving DecidableEq

structure FeatureFlagSpec where
  flagId : Nat
  required : Bool
  deriving DecidableEq

inductive MetadataReferenceSpec
  | external (metadataHash : Bytes) (locators : List String)
  | inlined (metadata : Bytes)
  deriving DecidableEq

structure SlabIndexEntrySpec where
  slabId : SlabId
  locators : List String
  deriving DecidableEq

inductive HistoryOpSpec
  | build
  | delta
  | flatten
  | turnover
  | deepen
  deriving DecidableEq, Repr

def HistoryOpSpec.value : HistoryOpSpec → Nat
  | .build => 0x01
  | .delta => 0x02
  | .flatten => 0x03
  | .turnover => 0x04
  | .deepen => 0x05

structure HistoryEntrySpec where
  op : HistoryOpSpec
  timestampNs : Nat := 0
  inputs : List ManifestRoot := []
  params : Bytes := []
  deriving DecidableEq

structure ManifestSpec where
  header : HeaderSpec := {}
  featureFlags : List FeatureFlagSpec := []
  metadataReference : Option MetadataReferenceSpec := none
  slabIndex : List SlabIndexEntrySpec := []
  history : List HistoryEntrySpec := []
  deriving DecidableEq

structure ManifestArtifact where
  bytes : Bytes
  merkleRoot : ManifestRoot
  sectionHashes : SectionHashes
  deriving DecidableEq

/-! ## Encoders -/

/-- `pack(fmt, n)` for an unsigned little-endian format of `width` bytes. -/
def pack (width n : Nat) : Except Exn Bytes :=
  if n < 256 ^ width then .ok (toLe width n) else .error .structError

/-- `out += pack(fmt, n)` -/
def emitPacked (width n : Nat) : Encoder Unit := do
  let raw ← pack width n
  emit raw

/-- `out.append(byte)`, used on section versions, booleans and operation codes only. -/
def emitByte (byte : Nat) : Encoder Unit :=
  emit [UInt8.ofNat byte]

def encodeLocator (uri : String) : Encoder Unit := do
  let encoded := encodeUtf8 uri
  emitPacked 4 encoded.length
  emit encoded

def encodeHeader (h : HeaderSpec) : Encoder Unit := do
  -- `_encode_header` writes the magic literally.
  emit [0x4C, 0x4D, 0x46, 0x53]
  emitPacked 2 h.dropStoreVersion
  emitPacked 2 h.metadataVersion
  emitPacked 2 h.manifestVersion
  emit (List.replicate 6 0)

def encodeFeatureFlag (flag : FeatureFlagSpec) : Encoder Unit := do
  emitPacked 2 flag.flagId
  emitByte (if flag.required then 1 else 0)

def encodeFeatureFlags (flags : List FeatureFlagSpec) : Encoder Unit := do
  emitByte featureFlagsSectionVersion
  emitPacked 4 flags.length
  emitEach encodeFeatureFlag flags

/-- The field layout of the metadata reference section: hash, locators, inline bytes. -/
def encodeReferenceFields (metadataHash : Bytes) (locators : List String)
    (inlineMetadata : Option Bytes) : Encoder Unit := do
  emit metadataHash
  emitPacked 4 locators.length
  emitEach encodeLocator locators
  match inlineMetadata with
  -- No inline bytes are written as the length 0.
  | none => emitPacked 4 0
  | some blob => do
      emitPacked 4 blob.length
      emit blob

section Builder

variable [Blake3]

namespace MetadataReferenceSpec

/-- The hash that the builder writes: computed for inline metadata, given for external. -/
def metadataHash : MetadataReferenceSpec → Bytes
  | .inlined metadata => hashSection metadata
  | .external metadataHash _ => metadataHash

def locators : MetadataReferenceSpec → List String
  | .inlined _ => []
  | .external _ locators => locators

def inlineMetadata : MetadataReferenceSpec → Option Bytes
  | .inlined metadata => some metadata
  | .external _ _ => none

end MetadataReferenceSpec

/-- Writes the section and returns the metadata hash that goes into the Merkle slot. -/
def encodeMetadataReference (spec : MetadataReferenceSpec) : Encoder Bytes := do
  emitByte metadataReferenceSectionVersion
  encodeReferenceFields spec.metadataHash spec.locators spec.inlineMetadata
  return spec.metadataHash

end Builder

def encodeSlabIndexEntry (entry : SlabIndexEntrySpec) : Encoder Unit := do
  emit entry.slabId.toBytes
  emitPacked 4 entry.locators.length
  emitEach encodeLocator entry.locators

def encodeSlabIndex (entries : List SlabIndexEntrySpec) : Encoder Unit := do
  emitByte slabIndexSectionVersion
  emitPacked 4 entries.length
  emitEach encodeSlabIndexEntry entries

def encodeHistoryEntry (entry : HistoryEntrySpec) : Encoder Unit := do
  emitByte entry.op.value
  emitPacked 8 entry.timestampNs
  emitPacked 4 entry.inputs.length
  emitEach (fun inputRoot : ManifestRoot => emit inputRoot.bytes) entry.inputs
  emitPacked 4 entry.params.length
  emit entry.params

def encodeHistory (entries : List HistoryEntrySpec) : Encoder Unit := do
  -- `ManifestBuilder.make` has refused an empty history.
  emitByte historySectionVersion
  emitPacked 4 entries.length
  emitEach encodeHistoryEntry entries

/-! ## `ManifestBuilder` -/

/-- A spec that passed the constructor of `ManifestBuilder`. -/
structure ManifestBuilder where
  spec : ManifestSpec
  reference_isSome : spec.metadataReference.isSome
  history_ne : spec.history ≠ []

def ManifestBuilder.make (spec : ManifestSpec) : Except Exn ManifestBuilder :=
  -- The reference is checked before the history.
  if hr : spec.metadataReference.isSome then
    if hh : spec.history ≠ [] then
      .ok ⟨spec, hr, hh⟩
    else
      .error (.valueError "ManifestSpec.history must have at least one entry")
  else
    .error (.valueError "ManifestSpec.metadata_reference is required")

/-- What each encoder appended, and the hash that `encodeMetadataReference` returned. -/
structure BuiltSections where
  header : Bytes
  featureFlags : Bytes
  metadataHash : Bytes
  metadataReference : Bytes
  slabIndex : Bytes
  history : Bytes

section Builder

variable [Blake3]

namespace ManifestBuilder

def encodeSections (builder : ManifestBuilder) : Encoder BuiltSections := do
  let (_, header) ← withEmitted (encodeHeader builder.spec.header)
  let (_, featureFlags) ← withEmitted (encodeFeatureFlags builder.spec.featureFlags)
  let (metadataHash, metadataReference) ← withEmitted
    (encodeMetadataReference (builder.spec.metadataReference.get builder.reference_isSome))
  let (_, slabIndex) ← withEmitted (encodeSlabIndex builder.spec.slabIndex)
  let (_, history) ← withEmitted (encodeHistory builder.spec.history)
  return { header, featureFlags, metadataHash, metadataReference, slabIndex, history }

def build (builder : ManifestBuilder) : Except Exn ManifestArtifact := do
  let (built, out) ← builder.encodeSections []
  -- v0.1 writes no optional section: their four slots hold the empty-section digest.
  let sectionHashes ← SectionHashes.make built.metadataHash (hashSection built.header)
    (hashSection built.featureFlags) (hashSection built.metadataReference)
    (hashSection built.slabIndex) hashEmptySection hashEmptySection hashEmptySection
    hashEmptySection (hashSection built.history)
  let merkleRoot ← computeMerkleRoot sectionHashes
  return { bytes := out, merkleRoot, sectionHashes }

end ManifestBuilder

/-- `ManifestBuilder(spec).build()` -/
def buildManifest (spec : ManifestSpec) : Except Exn ManifestArtifact := do
  let builder ← ManifestBuilder.make spec
  builder.build

end Builder

end LimniFs
