import LimniFs.BuilderFormat

/-!
# Canonical — one encoding for every value

What a required section was read from is what the builder's field layout writes for the value that
was read.  So no byte that a parser passes over is free, and manifests with equal values have equal
roots.
-/

namespace LimniFs

open Wire

/-! ## The builder's layout of a parsed value -/

def ManifestHeader.toSpec (header : ManifestHeader) : HeaderSpec where
  dropStoreVersion := header.dropStoreVersion
  metadataVersion := header.metadataVersion
  manifestVersion := header.manifestVersion

def FeatureFlag.toSpec (flag : FeatureFlag) : FeatureFlagSpec where
  flagId := flag.flagId
  required := flag.required

def SlabIndexEntry.toSpec (entry : SlabIndexEntry) : SlabIndexEntrySpec where
  slabId := entry.slabId
  locators := entry.locators.map LocatorEntry.uri

def HistoryOp.toSpec : HistoryOp → HistoryOpSpec
  | .build => .build
  | .delta => .delta
  | .flatten => .flatten
  | .turnover => .turnover
  | .deepen => .deepen

def HistoryEntry.toSpec (entry : HistoryEntry) : HistoryEntrySpec where
  op := entry.op.toSpec
  timestampNs := entry.timestampNs
  inputs := entry.inputs
  params := entry.params

/-- Hash, locators, then the inline bytes or the length 0. -/
def encodeReference (reference : MetadataReference) : Encoder Unit := do
  emitByte metadataReferenceSectionVersion
  encodeReferenceFields reference.metadataHash (reference.locators.map LocatorEntry.uri)
    reference.inlineMetadata

theorem toLocators_map_uri (locators : List LocatorEntry) :
    toLocators (locators.map LocatorEntry.uri) = locators := by
  unfold toLocators
  rw [List.map_map]
  exact List.map_id _

theorem SlabIndexEntry.toEntry_toSpec (entry : SlabIndexEntry) : entry.toSpec.toEntry = entry := by
  cases entry
  simp [toSpec, SlabIndexEntrySpec.toEntry, toLocators_map_uri]

theorem HistoryEntry.toEntry_toSpec (entry : HistoryEntry) : entry.toSpec.toEntry = entry := by
  rcases entry with ⟨op, _, _, _⟩
  cases op <;> rfl

/-- The lengths of accepted locators fit their fields. -/
theorem length_lt_of_accepted [UnicodeData] {maxUriBytes : Nat} {locators : List LocatorEntry}
    (h : ∀ entry ∈ locators, entry.Accepted maxUriBytes) :
    ∀ uri ∈ locators.map LocatorEntry.uri, (encodeUtf8 uri).length < 2 ^ 32 := by
  intro uri huri
  rcases List.mem_map.1 huri with ⟨entry, hentry, rfl⟩
  exact (h entry hentry).length_lt

/-! ## Re-encoding -/

/-- Re-encoding what `p` returns gives back the bytes it was read from, and so one value is read
from one byte string only. -/
structure CanonicalSection {α : Type} (p : Parser α) (encode : α → Encoder Unit) : Prop where
  reencodes : ∀ {c v slice c'}, withSlice p c = .ok ((v, slice), c') →
    encode v [] = .ok ((), slice)
  unique : ∀ {c₁ c₂ v slice₁ slice₂ c₁' c₂'}, withSlice p c₁ = .ok ((v, slice₁), c₁') →
    withSlice p c₂ = .ok ((v, slice₂), c₂') → slice₁ = slice₂

/-- A parser that decodes a format is canonical for an encoder that writes it. -/
theorem CanonicalSection.of_decodes {α : Type} {p : Parser α} {Valid : α → Prop}
    {wire : α → Bytes} {encode : α → Encoder Unit} (hp : Decodes p Valid wire)
    (henc : ∀ v, Valid v → Emits (encode v) (wire v) ()) : CanonicalSection p encode where
  reencodes {c v slice c'} h := by
    -- The slice is the encoding of the value, and the encoder writes just that.
    rcases hp.withSlice.sound h with ⟨⟨hv, hslice⟩, -⟩
    dsimp only at hv hslice
    rw [hslice]
    exact henc v hv []
  unique {c₁ c₂ v slice₁ slice₂ c₁' c₂'} h₁ h₂ := by
    rcases hp.withSlice.sound h₁ with ⟨⟨-, hslice₁⟩, -⟩
    rcases hp.withSlice.sound h₂ with ⟨⟨-, hslice₂⟩, -⟩
    exact hslice₁.trans hslice₂.symm

theorem header_canonical :
    CanonicalSection parseManifestHeader fun header => encodeHeader header.toSpec :=
  .of_decodes parseManifestHeader_decodes fun header h =>
    encodeHeader_emits header.toSpec h

theorem featureFlags_canonical : CanonicalSection parseFeatureFlagsSection
    fun flags => encodeFeatureFlags (flags.entries.map FeatureFlag.toSpec) := by
  apply CanonicalSection.of_decodes parseFeatureFlagsSection_decodes
  intro flags h
  -- A flag and its spec have the same two fields.
  have hback : (flags.entries.map FeatureFlag.toSpec).map FeatureFlagSpec.toFlag =
      flags.entries := by
    rw [List.map_map]
    exact List.map_id _
  have hspecs : ∀ spec ∈ flags.entries.map FeatureFlag.toSpec, spec.flagId < 2 ^ 16 := by
    rintro _ hspec
    rcases List.mem_map.1 hspec with ⟨flag, hflag, rfl⟩
    exact (h.entries flag hflag).flagId_lt
  have hemits := encodeFeatureFlags_emits (flags.entries.map FeatureFlag.toSpec)
    (by simpa using h.length_lt) hspecs
  rwa [hback] at hemits

theorem metadataReference_canonical [UnicodeData]
    (maxLocatorUriBytes maxInlineMetadataBytes : Nat) :
    CanonicalSection (parseMetadataReferenceSection maxLocatorUriBytes maxInlineMetadataBytes)
      encodeReference := by
  apply CanonicalSection.of_decodes (parseMetadataReferenceSection_decodes _ _)
  intro reference h
  -- The inline bytes were read behind a u32 length, so their length fits it again.
  have hinline : MetadataReference.inlineLen reference.inlineMetadata < 2 ^ 32 := by
    cases hblob : reference.inlineMetadata with
    | none =>
        simp [MetadataReference.inlineLen]
    | some blob =>
        exact (h.inline blob (by simp [hblob])).2.1
  have hfields := encodeReferenceFields_emits reference.metadataHash
    (reference.locators.map LocatorEntry.uri) (by simpa using h.locators_lt)
    (length_lt_of_accepted h.locators) hinline
  rw [toLocators_map_uri, List.length_map] at hfields
  unfold encodeReference MetadataReference.wire
  simp only [List.append_assoc] at hfields ⊢
  exact Emits.bind Emits.emit hfields

theorem slabIndex_canonical [UnicodeData] (maxLocatorUriBytes : Nat) :
    CanonicalSection (parseSlabIndexSection maxLocatorUriBytes)
      fun index => encodeSlabIndex (index.entries.map SlabIndexEntry.toSpec) := by
  apply CanonicalSection.of_decodes (parseSlabIndexSection_decodes _)
  intro index h
  have hback : (index.entries.map SlabIndexEntry.toSpec).map SlabIndexEntrySpec.toEntry =
      index.entries := by
    simp [Function.comp_def, SlabIndexEntry.toEntry_toSpec]
  have hspecs : ∀ spec ∈ index.entries.map SlabIndexEntry.toSpec,
      spec.locators.length < 2 ^ 32 ∧
        ∀ uri ∈ spec.locators, (encodeUtf8 uri).length < 2 ^ 32 := by
    rintro _ hspec
    rcases List.mem_map.1 hspec with ⟨entry, hentry, rfl⟩
    have hrange := h.entries entry hentry
    exact ⟨by simpa [SlabIndexEntry.toSpec] using hrange.locators_lt,
      length_lt_of_accepted hrange.locators⟩
  have hemits := encodeSlabIndex_emits (index.entries.map SlabIndexEntry.toSpec)
    (by simpa using h.length_lt) hspecs
  rwa [hback] at hemits

theorem history_canonical (maxParamsBytes : Nat) :
    CanonicalSection (parseHistorySection maxParamsBytes)
      fun history => encodeHistory (history.entries.map HistoryEntry.toSpec) := by
  apply CanonicalSection.of_decodes (parseHistorySection_decodes _)
  intro history h
  have hback : (history.entries.map HistoryEntry.toSpec).map HistoryEntrySpec.toEntry =
      history.entries := by
    simp [Function.comp_def, HistoryEntry.toEntry_toSpec]
  have hspecs : ∀ spec ∈ history.entries.map HistoryEntry.toSpec,
      spec.toEntry.InRange maxParamsBytes := by
    rintro _ hspec
    rcases List.mem_map.1 hspec with ⟨entry, hentry, rfl⟩
    rw [HistoryEntry.toEntry_toSpec]
    exact h.entries entry hentry
  have hemits := encodeHistory_emits (history.entries.map HistoryEntry.toSpec)
    (by simpa using h.length_lt) hspecs
  rwa [hback] at hemits

/-- The required sections have one encoding for every value, the builder's, and manifests that
parse to equal values are reported with equal roots. -/
theorem requiredSections_canonical [UnicodeData] [Blake3] :
    CanonicalSection parseManifestHeader (fun header => encodeHeader header.toSpec) ∧
    CanonicalSection parseFeatureFlagsSection
      (fun flags => encodeFeatureFlags (flags.entries.map FeatureFlag.toSpec)) ∧
    (∀ maxLocatorUriBytes maxInlineMetadataBytes, CanonicalSection
      (parseMetadataReferenceSection maxLocatorUriBytes maxInlineMetadataBytes)
      encodeReference) ∧
    (∀ maxLocatorUriBytes, CanonicalSection (parseSlabIndexSection maxLocatorUriBytes)
      (fun index => encodeSlabIndex (index.entries.map SlabIndexEntry.toSpec))) ∧
    (∀ maxParamsBytes, CanonicalSection (parseHistorySection maxParamsBytes)
      (fun history => encodeHistory (history.entries.map HistoryEntry.toSpec))) ∧
    ∀ bufA bufB sections slicesA slicesB cursorA cursorB,
      parseSections (.start bufA) = .ok ((sections, slicesA), cursorA) →
      parseSections (.start bufB) = .ok ((sections, slicesB), cursorB) →
      ∃ reportA reportB, verifyBytes bufA = .ok reportA ∧ verifyBytes bufB = .ok reportB ∧
        reportA.merkleRoot = reportB.merkleRoot := by
  refine ⟨header_canonical, featureFlags_canonical, metadataReference_canonical,
    slabIndex_canonical, history_canonical, ?_⟩
  intro bufA bufB sections slicesA slicesB cursorA cursorB hA hB
  -- Both buffers begin with the encoding of the one value, so both reports are about it.
  rcases parseSections_decodes.sound hA with ⟨⟨hrange, -⟩, hcA⟩
  rcases parseSections_decodes.sound hB with ⟨-, hcB⟩
  have hbufA : bufA = sections.wire ++ cursorA.remaining := by
    simpa using hcA.2
  have hbufB : bufB = sections.wire ++ cursorB.remaining := by
    simpa using hcB.2
  rw [hbufA, hbufB]
  exact ⟨_, _, verifyBytes_append hrange _, verifyBytes_append hrange _, rfl⟩

end LimniFs
