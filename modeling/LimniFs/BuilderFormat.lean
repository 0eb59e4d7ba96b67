import LimniFs.Builder
import LimniFs.Manifest
import Mathlib.Data.List.Nodup

/-!
# BuilderFormat — what the builder writes

Each encoder writes the wire format that the section parser decodes: the lemmas `encode…_emits` say
which value of the reader a spec stands for, and that the bytes appended are its encoding.
-/

namespace LimniFs

open Wire

/-! ## The values that specs stand for -/

def HeaderSpec.toHeader (spec : HeaderSpec) : ManifestHeader where
  dropStoreVersion := spec.dropStoreVersion
  metadataVersion := spec.metadataVersion
  manifestVersion := spec.manifestVersion

def FeatureFlagSpec.toFlag (spec : FeatureFlagSpec) : FeatureFlag where
  flagId := spec.flagId
  required := spec.required

def toLocators (uris : List String) : List LocatorEntry :=
  uris.map LocatorEntry.mk

def SlabIndexEntrySpec.toEntry (spec : SlabIndexEntrySpec) : SlabIndexEntry where
  slabId := spec.slabId
  locators := toLocators spec.locators

def HistoryOpSpec.toOp : HistoryOpSpec → HistoryOp
  | .build => .build
  | .delta => .delta
  | .flatten => .flatten
  | .turnover => .turnover
  | .deepen => .deepen

def HistoryEntrySpec.toEntry (spec : HistoryEntrySpec) : HistoryEntry where
  op := spec.op.toOp
  timestampNs := spec.timestampNs
  inputs := spec.inputs
  params := spec.params

theorem HistoryOpSpec.value_toOp (op : HistoryOpSpec) : op.toOp.value = op.value := by
  cases op <;> rfl

/-! ## What the encoders append -/

theorem emitPacked_emits (width : Nat) {n : Nat} (h : n < 256 ^ width) :
    Emits (emitPacked width n) (toLe width n) () := by
  unfold emitPacked pack
  rw [if_pos h]
  exact Emits.emit

theorem encodeLocator_emits {uri : String} (h : (encodeUtf8 uri).length < 2 ^ 32) :
    Emits (encodeLocator uri) (LocatorEntry.wire ⟨uri⟩) () := by
  unfold LocatorEntry.wire
  exact (emitPacked_emits 4 h).bind Emits.emit

/-- The bytes of a list of locators, where each length fits its field. -/
theorem encodeLocators_emits {uris : List String}
    (h : ∀ uri ∈ uris, (encodeUtf8 uri).length < 2 ^ 32) :
    Emits (emitEach encodeLocator uris) ((toLocators uris).flatMap LocatorEntry.wire) () := by
  -- The loop runs over the texts, the format over the entries made from them.
  have hmap : (toLocators uris).flatMap LocatorEntry.wire =
      uris.flatMap fun uri => LocatorEntry.wire ⟨uri⟩ := by
    simp [toLocators, List.flatMap_map]
  rw [hmap]
  exact Emits.emitEach fun uri huri => encodeLocator_emits (h uri huri)

theorem encodeHeader_emits (spec : HeaderSpec) (h : spec.toHeader.InRange) :
    Emits (encodeHeader spec) spec.toHeader.wire () := by
  unfold encodeHeader ManifestHeader.wire
  simp only [List.append_assoc]
  apply Emits.bind Emits.emit
  apply Emits.bind (emitPacked_emits _ h.dropStoreVersion)
  apply Emits.bind (emitPacked_emits _ h.metadataVersion)
  apply Emits.bind (emitPacked_emits _ h.manifestVersion)
  exact Emits.emit

theorem encodeFeatureFlag_emits {spec : FeatureFlagSpec} (h : spec.flagId < 2 ^ 16) :
    Emits (encodeFeatureFlag spec) spec.toFlag.wire () := by
  have hbyte : [UInt8.ofNat (if spec.required then 1 else 0)] =
      [if spec.toFlag.required then (1 : UInt8) else 0] := by
    unfold FeatureFlagSpec.toFlag
    cases spec.required <;> rfl
  unfold encodeFeatureFlag FeatureFlag.wire
  rw [← hbyte]
  exact (emitPacked_emits 2 h).bind Emits.emit

theorem encodeFeatureFlags_emits (specs : List FeatureFlagSpec) (hlen : specs.length < 2 ^ 32)
    (h : ∀ spec ∈ specs, spec.flagId < 2 ^ 16) :
    Emits (encodeFeatureFlags specs)
      (FeatureFlags.wire ⟨specs.map FeatureFlagSpec.toFlag⟩) () := by
  unfold encodeFeatureFlags FeatureFlags.wire
  simp only [List.append_assoc, List.length_map, List.flatMap_map]
  apply Emits.bind Emits.emit
  apply Emits.bind (emitPacked_emits _ hlen)
  exact Emits.emitEach fun spec hspec => encodeFeatureFlag_emits (h spec hspec)

/-- The field layout of a reference, where every length fits its field. -/
theorem encodeReferenceFields_emits (metadataHash : Bytes) (uris : List String)
    {inlineMetadata : Option Bytes} (hlen : uris.length < 2 ^ 32)
    (huris : ∀ uri ∈ uris, (encodeUtf8 uri).length < 2 ^ 32)
    (hinline : MetadataReference.inlineLen inlineMetadata < 2 ^ 32) :
    Emits (encodeReferenceFields metadataHash uris inlineMetadata)
      (metadataHash ++ toLe 4 uris.length ++ (toLocators uris).flatMap LocatorEntry.wire ++
        toLe 4 (MetadataReference.inlineLen inlineMetadata) ++ inlineMetadata.getD []) () := by
  unfold encodeReferenceFields
  simp only [List.append_assoc]
  apply Emits.bind Emits.emit
  apply Emits.bind (emitPacked_emits _ hlen)
  apply Emits.bind (encodeLocators_emits huris)
  -- Absent inline bytes and empty ones are both written as a length of 0.
  cases inlineMetadata with
  | none =>
      simpa [MetadataReference.inlineLen] using emitPacked_emits 4 (n := 0) (by decide)
  | some blob =>
      exact (emitPacked_emits _ hinline).bind Emits.emit

theorem encodeSlabIndexEntry_emits {spec : SlabIndexEntrySpec}
    (hlen : spec.locators.length < 2 ^ 32)
    (h : ∀ uri ∈ spec.locators, (encodeUtf8 uri).length < 2 ^ 32) :
    Emits (encodeSlabIndexEntry spec) spec.toEntry.wire () := by
  unfold encodeSlabIndexEntry SlabIndexEntry.wire SlabIndexEntrySpec.toEntry
  simp only [List.append_assoc, toLocators, List.length_map]
  apply Emits.bind Emits.emit
  apply Emits.bind (emitPacked_emits _ hlen)
  exact encodeLocators_emits h

theorem encodeSlabIndex_emits (specs : List SlabIndexEntrySpec) (hlen : specs.length < 2 ^ 32)
    (h : ∀ spec ∈ specs, spec.locators.length < 2 ^ 32 ∧
      ∀ uri ∈ spec.locators, (encodeUtf8 uri).length < 2 ^ 32) :
    Emits (encodeSlabIndex specs) (SlabIndex.wire ⟨specs.map SlabIndexEntrySpec.toEntry⟩) () := by
  unfold encodeSlabIndex SlabIndex.wire
  simp only [List.append_assoc, List.length_map, List.flatMap_map]
  apply Emits.bind Emits.emit
  apply Emits.bind (emitPacked_emits _ hlen)
  exact Emits.emitEach fun spec hspec =>
    encodeSlabIndexEntry_emits (h spec hspec).1 (h spec hspec).2

theorem encodeHistoryEntry_emits {maxParamsBytes : Nat} {spec : HistoryEntrySpec}
    (h : spec.toEntry.InRange maxParamsBytes) :
    Emits (encodeHistoryEntry spec) spec.toEntry.wire () := by
  unfold encodeHistoryEntry HistoryEntry.wire
  simp only [List.append_assoc]
  rw [show spec.toEntry.op.value = spec.op.value from spec.op.value_toOp]
  apply Emits.bind Emits.emit
  apply Emits.bind (emitPacked_emits _ h.timestampNs_lt)
  apply Emits.bind (emitPacked_emits _ h.inputs_lt)
  apply Emits.bind (Emits.emitEach fun _ _ => Emits.emit)
  exact (emitPacked_emits _ h.params_lt).bind Emits.emit

theorem encodeHistory_emits {maxParamsBytes : Nat} (specs : List HistoryEntrySpec)
    (hlen : specs.length < 2 ^ 32)
    (h : ∀ spec ∈ specs, spec.toEntry.InRange maxParamsBytes) :
    Emits (encodeHistory specs) (History.wire ⟨specs.map HistoryEntrySpec.toEntry⟩) () := by
  unfold encodeHistory History.wire
  simp only [List.append_assoc, List.length_map, List.flatMap_map]
  apply Emits.bind Emits.emit
  apply Emits.bind (emitPacked_emits _ hlen)
  exact Emits.emitEach fun spec hspec => encodeHistoryEntry_emits (h spec hspec)

/-! ## Specs in the format's range -/

structure HeaderSpec.InRange (spec : HeaderSpec) : Prop where
  dropStoreVersion : spec.dropStoreVersion < 2 ^ 16
  metadataVersion : spec.metadataVersion < 2 ^ 16
  manifestVersion : spec.manifestVersion < 2 ^ 16

def MetadataReferenceSpec.InRange : MetadataReferenceSpec → Prop
  | .inlined metadata => 1 ≤ metadata.length ∧ metadata.length ≤ 1024 * 1024
  | .external metadataHash locators =>
      metadataHash.length = 32 ∧ locators ≠ [] ∧ locators.length < 2 ^ 32 ∧
        ∀ uri ∈ locators, UriInRange uri

structure SlabIndexEntrySpec.InRange (spec : SlabIndexEntrySpec) : Prop where
  locators_ne : spec.locators ≠ []
  locators_lt : spec.locators.length < 2 ^ 32
  locators : ∀ uri ∈ spec.locators, UriInRange uri

structure HistoryEntrySpec.InRange (spec : HistoryEntrySpec) : Prop where
  timestampNs_lt : spec.timestampNs < 2 ^ 64
  inputs_lt : spec.inputs.length < 2 ^ 32
  params_le : spec.params.length ≤ 4096

structure ManifestSpec.InRange (spec : ManifestSpec) : Prop where
  header : spec.header.InRange
  flags_lt : spec.featureFlags.length < 2 ^ 32
  flags : ∀ flag ∈ spec.featureFlags, 1 ≤ flag.flagId ∧ flag.flagId ≤ 65535
  flags_nodup : (spec.featureFlags.map FeatureFlagSpec.flagId).Nodup
  metadataReference : ∃ reference, spec.metadataReference = some reference ∧ reference.InRange
  slabIndex_lt : spec.slabIndex.length < 2 ^ 32
  slabIndex : ∀ entry ∈ spec.slabIndex, entry.InRange
  slabIndex_nodup : (spec.slabIndex.map SlabIndexEntrySpec.slabId).Nodup
  history_ne : spec.history ≠ []
  history_lt : spec.history.length < 2 ^ 32
  history : ∀ entry ∈ spec.history, entry.InRange

/-- The spec has an entry with this flag id, required or optional. -/
def ManifestSpec.Declares (spec : ManifestSpec) (flagId : Nat) : Prop :=
  ∃ flag ∈ spec.featureFlags, flag.flagId = flagId

/-- The sections hold exactly what the spec says, and no optional section. -/
structure ManifestSpec.Describes [Blake3] (spec : ManifestSpec) (sections : Sections) : Prop where
  header : sections.header = spec.header.toHeader
  flags : sections.flags.entries = spec.featureFlags.map FeatureFlagSpec.toFlag
  metadataReference : ∃ reference, spec.metadataReference = some reference ∧
    sections.metadataReference.metadataHash = reference.metadataHash ∧
    sections.metadataReference.locators = toLocators reference.locators ∧
    sections.metadataReference.inlineMetadata = reference.inlineMetadata
  slabIndex : sections.slabIndex.entries = spec.slabIndex.map SlabIndexEntrySpec.toEntry
  ecParams : sections.ecParams = none
  dmsPolicy : sections.dmsPolicy = none
  history : sections.history.entries = spec.history.map HistoryEntrySpec.toEntry

/-! ## Specs in range stand for sections in range -/

theorem UriInRange.length_lt {uri : String} (h : UriInRange uri) :
    (encodeUtf8 uri).length < 2 ^ 32 :=
  Nat.lt_of_le_of_lt h.le_max (by decide)

theorem accepted_of_uris [UnicodeData] {uris : List String} (h : ∀ uri ∈ uris, UriInRange uri) :
    ∀ entry ∈ toLocators uris, entry.Accepted defaultLocatorMaxUriBytes := by
  intro entry hentry
  rcases List.mem_map.1 hentry with ⟨uri, huri, rfl⟩
  exact (h uri huri).accepted

theorem HeaderSpec.InRange.toHeader {spec : HeaderSpec} (h : spec.InRange) :
    spec.toHeader.InRange :=
  ⟨h.dropStoreVersion, h.metadataVersion, h.manifestVersion⟩

theorem HistoryEntrySpec.InRange.toEntry {spec : HistoryEntrySpec} (h : spec.InRange) :
    spec.toEntry.InRange defaultHistoryParamsMaxBytes :=
  ⟨h.timestampNs_lt, h.inputs_lt, Nat.lt_of_le_of_lt h.params_le (by decide), h.params_le⟩

theorem SlabIndexEntrySpec.InRange.toEntry [UnicodeData] {spec : SlabIndexEntrySpec}
    (h : spec.InRange) :
    spec.toEntry.InRange defaultLocatorMaxUriBytes := by
  have hlen : spec.toEntry.locators.length = spec.locators.length :=
    List.length_map _
  refine ⟨hlen ▸ h.locators_lt, ?_, accepted_of_uris h.locators⟩
  rw [hlen]
  exact fun hzero => h.locators_ne (List.length_eq_zero_iff.1 hzero)

/-- The reference section that a reference spec in range is written as. -/
theorem MetadataReferenceSpec.InRange.exists_reference [UnicodeData] [Blake3]
    {spec : MetadataReferenceSpec} (h : spec.InRange) :
    ∃ reference : MetadataReference, reference.metadataHash = spec.metadataHash ∧
      reference.locators = toLocators spec.locators ∧
      reference.inlineMetadata = spec.inlineMetadata ∧
      reference.InRange defaultLocatorMaxUriBytes defaultInlineMetadataMaxBytes := by
  cases spec with
  | inlined metadata =>
      rcases h with ⟨hmin, hmax⟩
      refine ⟨⟨hashSection metadata, [], some metadata, length_hashSection metadata⟩, rfl, rfl,
        rfl, by simp, by simp, ?_, by simp⟩
      -- The inline bytes are not empty, so they do not read as absent.
      rintro _ ⟨⟩
      refine ⟨?_, Nat.lt_of_le_of_lt hmax (by decide), hmax⟩
      rintro rfl
      simp at hmin
  | external metadataHash locators =>
      rcases h with ⟨hlen, hne, hlt, hlocators⟩
      refine ⟨⟨metadataHash, toLocators locators, none, hlen⟩, rfl, rfl, rfl, ?_,
        accepted_of_uris hlocators, by simp, ?_⟩
      · simpa [toLocators] using hlt
      -- Without inline bytes it is the locators that make the reference reachable.
      · rintro ⟨hnil, -⟩
        exact hne (List.map_eq_nil_iff.1 hnil)

section Sections

variable [Blake3]

/-- A spec in range stands for sections that are in range, the optional ones aside. -/
theorem ManifestSpec.InRange.exists_sections [UnicodeData] {spec : ManifestSpec}
    (h : spec.InRange) :
    ∃ sections, spec.Describes sections ∧ sections.RequiredInRange := by
  rcases h.metadataReference with ⟨spec', hspec, hrange⟩
  rcases hrange.exists_reference with ⟨reference, hhash, hlocators, hinline, hreference⟩
  -- Flags, slab index and history each need their count, their elements and a list condition.
  refine ⟨{ header := spec.header.toHeader
            flags := ⟨spec.featureFlags.map FeatureFlagSpec.toFlag⟩
            metadataReference := reference
            slabIndex := ⟨spec.slabIndex.map SlabIndexEntrySpec.toEntry⟩
            ecParams := none
            dmsPolicy := none
            history := ⟨spec.history.map HistoryEntrySpec.toEntry⟩ },
    ⟨rfl, rfl, ⟨spec', hspec, hhash, hlocators, hinline⟩, rfl, rfl, rfl, rfl⟩,
    h.header.toHeader, ⟨?_, ?_, ?_⟩, hreference, ⟨?_, ?_, ?_⟩, ⟨?_, ?_, ?_⟩⟩
  · simpa using h.flags_lt
  · rintro _ hflag
    rcases List.mem_map.1 hflag with ⟨flag, hmem, rfl⟩
    rcases h.flags flag hmem with ⟨hpos, hmax⟩
    exact ⟨Nat.lt_of_le_of_lt hmax (by decide), Nat.ne_of_gt hpos⟩
  · rw [List.map_map]
    exact h.flags_nodup
  · simpa using h.slabIndex_lt
  · rintro _ hentry
    rcases List.mem_map.1 hentry with ⟨entry, hmem, rfl⟩
    exact (h.slabIndex entry hmem).toEntry
  -- Distinct slab ids have distinct keys, which is what the reader compares.
  · have hkeys : (spec.slabIndex.map SlabIndexEntrySpec.toEntry).map SlabIndexEntry.key =
        (spec.slabIndex.map SlabIndexEntrySpec.slabId).map fun id => (id.ordinal, id.hash) := by
      calc
        (spec.slabIndex.map SlabIndexEntrySpec.toEntry).map SlabIndexEntry.key
            = spec.slabIndex.map fun entry => (entry.slabId.ordinal, entry.slabId.hash) :=
              List.map_map
        _ = (spec.slabIndex.map SlabIndexEntrySpec.slabId).map
              fun id => (id.ordinal, id.hash) := by
              rw [List.map_map]
              rfl
    rw [hkeys]
    apply List.Nodup.map _ h.slabIndex_nodup
    intro a b hab
    exact SlabId.ext_iff'.2 (Prod.mk.inj hab)
  · simpa using h.history_lt
  · simpa using h.history_ne
  · rintro _ hentry
    rcases List.mem_map.1 hentry with ⟨entry, hmem, rfl⟩
    exact (h.history entry hmem).toEntry

theorem encodeMetadataReference_emits {spec : MetadataReferenceSpec} {reference : MetadataReference}
    (h : spec.InRange) (hhash : reference.metadataHash = spec.metadataHash)
    (hlocators : reference.locators = toLocators spec.locators)
    (hinline : reference.inlineMetadata = spec.inlineMetadata) :
    Emits (encodeMetadataReference spec) reference.wire spec.metadataHash := by
  have hfields : Emits (encodeReferenceFields spec.metadataHash spec.locators spec.inlineMetadata)
      (spec.metadataHash ++ toLe 4 spec.locators.length ++
        (toLocators spec.locators).flatMap LocatorEntry.wire ++
        toLe 4 (MetadataReference.inlineLen spec.inlineMetadata) ++
        spec.inlineMetadata.getD []) () := by
    -- Each kind of reference leaves one of the two sources empty.
    cases spec with
    | inlined metadata =>
        exact encodeReferenceFields_emits _ _ (by simp [MetadataReferenceSpec.locators])
          (by simp [MetadataReferenceSpec.locators]) (Nat.lt_of_le_of_lt h.2 (by decide))
    | external metadataHash locators =>
        exact encodeReferenceFields_emits _ _ h.2.2.1 (fun uri huri => (h.2.2.2 uri huri).length_lt)
          (by simp [MetadataReference.inlineLen, MetadataReferenceSpec.inlineMetadata])
  unfold encodeMetadataReference MetadataReference.wire
  rw [hhash, hlocators, hinline]
  simp only [List.append_assoc, toLocators, List.length_map] at hfields ⊢
  apply Emits.bind Emits.emit
  exact hfields.bind_nil Emits.pure

/-- The encoders run through on a spec in range and append the encoding of its sections. -/
theorem encodeSections_emits {builder : ManifestBuilder} {sections : Sections}
    (h : builder.spec.InRange) (hd : builder.spec.Describes sections) :
    Emits builder.encodeSections sections.wire
      { header := sections.slices.header
        featureFlags := sections.slices.flags
        metadataHash := sections.metadataReference.metadataHash
        metadataReference := sections.slices.metadataReference
        slabIndex := sections.slices.slabIndex
        history := sections.slices.history } := by
  rcases hd.metadataReference with ⟨reference, hreference, hhash, hlocators, hinline⟩
  rcases h.metadataReference with ⟨reference', hreference', hrange⟩
  -- The reference that is described is the one in range.
  obtain rfl : reference = reference' := Option.some.inj (hreference.symm.trans hreference')
  have hget : builder.spec.metadataReference.get builder.reference_isSome = reference := by
    simp [hreference]
  have hflagIds : ∀ flag ∈ builder.spec.featureFlags, flag.flagId < 2 ^ 16 :=
    fun flag hflag => Nat.lt_of_le_of_lt (h.flags flag hflag).2 (by decide)
  have hslabs : ∀ entry ∈ builder.spec.slabIndex, entry.locators.length < 2 ^ 32 ∧
      ∀ uri ∈ entry.locators, (encodeUtf8 uri).length < 2 ^ 32 :=
    fun entry hentry => ⟨(h.slabIndex entry hentry).locators_lt,
      fun uri huri => ((h.slabIndex entry hentry).locators uri huri).length_lt⟩
  have hflags : sections.flags = ⟨builder.spec.featureFlags.map FeatureFlagSpec.toFlag⟩ :=
    congrArg FeatureFlags.mk hd.flags
  have hslabIndex : sections.slabIndex =
      ⟨builder.spec.slabIndex.map SlabIndexEntrySpec.toEntry⟩ :=
    congrArg SlabIndex.mk hd.slabIndex
  have hhistory : sections.history = ⟨builder.spec.history.map HistoryEntrySpec.toEntry⟩ :=
    congrArg History.mk hd.history
  -- Absent optional sections contribute nothing, so the five encoders give the whole encoding.
  unfold ManifestBuilder.encodeSections Sections.wire Slices.concat Sections.slices
  simp only [List.append_assoc, hd.ecParams, hd.dmsPolicy, optionWire, List.nil_append, hget,
    hd.header, hflags, hslabIndex, hhistory, hhash]
  apply Emits.bind (encodeHeader_emits _ h.header.toHeader).withEmitted
  apply Emits.bind (encodeFeatureFlags_emits _ h.flags_lt hflagIds).withEmitted
  apply Emits.bind
    (encodeMetadataReference_emits hrange hhash hlocators hinline).withEmitted
  apply Emits.bind (encodeSlabIndex_emits _ h.slabIndex_lt hslabs).withEmitted
  exact (encodeHistory_emits _ h.history_lt
    fun entry hentry => (h.history entry hentry).toEntry).withEmitted.bind_nil Emits.pure

/-- The builder succeeds on every spec in range; it writes the encoding of the sections that the
spec describes, and its root is theirs. -/
theorem buildManifest_eq_ok {spec : ManifestSpec} {sections : Sections} (h : spec.InRange)
    (hd : spec.Describes sections) :
    buildManifest spec = .ok
      { bytes := sections.wire
        merkleRoot := sections.root
        sectionHashes := sections.hashes } := by
  rcases hd.metadataReference with ⟨reference, hreference, -⟩
  have hsome : spec.metadataReference.isSome := by
    simp [hreference]
  have hmake : ManifestBuilder.make spec = .ok ⟨spec, hsome, h.history_ne⟩ := by
    unfold ManifestBuilder.make
    rw [dif_pos hsome, dif_pos h.history_ne]
  have hsections := encodeSections_emits
    (show (ManifestBuilder.mk spec hsome h.history_ne).spec.InRange from h) hd []
  -- The sections have no optional section, so their slots hash the empty slice.
  have hec : hashSection sections.slices.ecParams = hashEmptySection := by
    simp [Sections.slices, hd.ecParams, optionWire, hashEmptySection]
  have hdms : hashSection sections.slices.dmsPolicy = hashEmptySection := by
    simp [Sections.slices, hd.dmsPolicy, optionWire, hashEmptySection]
  have hhashes : SectionHashes.make sections.metadataReference.metadataHash
      (hashSection sections.slices.header) (hashSection sections.slices.flags)
      (hashSection sections.slices.metadataReference) (hashSection sections.slices.slabIndex)
      hashEmptySection hashEmptySection hashEmptySection hashEmptySection
      (hashSection sections.slices.history) = .ok sections.hashes := by
    have hmk := SectionHashes.make_eq_ok sections.hashes.length_slots
    simpa only [Sections.hashes, hec, hdms] using hmk
  unfold buildManifest
  rw [hmake]
  simp only [bind, Except.bind, ManifestBuilder.build, hsections, hhashes,
    computeMerkleRoot_eq_ok]
  rfl

end Sections

end LimniFs
