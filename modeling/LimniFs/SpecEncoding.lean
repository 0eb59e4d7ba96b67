import LimniFs.BuilderFormat
import LimniFs.Reference
import LimniFs.Wire.PrefixCode

/-!
# SpecEncoding — every spec, in range or not

The builder checks nothing but what `pack` refuses: it also writes specs that no reader accepts.
Here its encoders are described on all specs, and the layout is shown to be a prefix code as soon
as every number fits the format it is packed with.
-/

namespace LimniFs

open Wire

/-! ## Numbers that fit their formats -/

def LocatorEntry.Packable (entry : LocatorEntry) : Prop :=
  (encodeUtf8 entry.uri).length < 2 ^ 32

/-- A list of locators whose count and lengths are packed without an error. -/
def LocatorsPackable (entries : List LocatorEntry) : Prop :=
  entries.length < 2 ^ 32 ∧ ∀ entry ∈ entries, entry.Packable

structure HistoryEntry.Packable (entry : HistoryEntry) : Prop where
  timestampNs_lt : entry.timestampNs < 2 ^ 64
  inputs_lt : entry.inputs.length < 2 ^ 32
  params_lt : entry.params.length < 2 ^ 32

/-- What the reader sees of a reference: an empty blob and no blob are written alike. -/
structure MetadataReference.Packable (reference : MetadataReference) : Prop where
  locators : LocatorsPackable reference.locators
  inline_lt : inlineLen reference.inlineMetadata < 2 ^ 32
  inline_ne : reference.inlineMetadata ≠ some []

structure Sections.Packable (sections : Sections) : Prop where
  header : sections.header.InRange
  flags_lt : sections.flags.entries.length < 2 ^ 32
  flags : ∀ flag ∈ sections.flags.entries, flag.flagId < 2 ^ 16
  metadataReference : sections.metadataReference.Packable
  slabIndex_lt : sections.slabIndex.entries.length < 2 ^ 32
  slabIndex : ∀ entry ∈ sections.slabIndex.entries, LocatorsPackable entry.locators
  history_lt : sections.history.entries.length < 2 ^ 32
  history : ∀ entry ∈ sections.history.entries, entry.Packable

/-! ## The layout is a prefix code -/

theorem LocatorEntry.prefixCode : PrefixCode LocatorEntry.Packable LocatorEntry.wire := by
  apply PrefixCode.comap (fun entry : LocatorEntry => encodeUtf8 entry.uri)
    (PrefixCode.lengthPrefixed 4)
  · exact fun entry hentry => hentry
  · rintro ⟨uri⟩ ⟨uri'⟩ - - huri
    exact congrArg LocatorEntry.mk (encodeUtf8_inj huri)

theorem locators_prefixCode : PrefixCode LocatorsPackable fun entries =>
    toLe 4 entries.length ++ entries.flatMap LocatorEntry.wire :=
  LocatorEntry.prefixCode.counted 4

theorem ManifestHeader.prefixCode : PrefixCode ManifestHeader.InRange ManifestHeader.wire :=
  fun _ _ _ _ ha hb heq => parseManifestHeader_decodes.append_inj ha hb heq

theorem FeatureFlag.prefixCode :
    PrefixCode (fun flag : FeatureFlag => flag.flagId < 2 ^ 16) FeatureFlag.wire := by
  apply PrefixCode.field FeatureFlag.flagId (PrefixCode.number 2) fun flag hflag => hflag
  intro flagId
  apply PrefixCode.comap (fun flag : FeatureFlag => [if flag.required then (1 : UInt8) else 0])
    (PrefixCode.block 1)
  · exact fun flag _ => rfl
  · rintro ⟨a, required⟩ ⟨b, required'⟩ ⟨-, rfl⟩ ⟨-, rfl⟩ hbyte
    cases required <;> cases required' <;> first | rfl | simp at hbyte

theorem FeatureFlags.prefixCode : PrefixCode (fun flags : FeatureFlags =>
    flags.entries.length < 2 ^ 32 ∧ ∀ flag ∈ flags.entries, flag.flagId < 2 ^ 16)
    FeatureFlags.wire := by
  apply PrefixCode.congr (fun flags : FeatureFlags => [UInt8.ofNat featureFlagsSectionVersion] ++
    (toLe 4 flags.entries.length ++ flags.entries.flatMap FeatureFlag.wire))
  · apply PrefixCode.marked
    apply PrefixCode.comap FeatureFlags.entries (FeatureFlag.prefixCode.counted 4)
    · exact fun flags hflags => hflags
    · rintro ⟨a⟩ ⟨b⟩ - - rfl
      rfl
  · exact fun flags _ => List.append_assoc _ _ _

theorem inlineLen_eq_length (inlineMetadata : Option Bytes) :
    MetadataReference.inlineLen inlineMetadata = (inlineMetadata.getD []).length := by
  cases inlineMetadata <;> rfl

/-- Inline bytes behind their length, where an empty blob is not told from an absent one. -/
theorem inline_prefixCode : PrefixCode (fun inlineMetadata : Option Bytes =>
    MetadataReference.inlineLen inlineMetadata < 2 ^ 32 ∧ inlineMetadata ≠ some [])
    fun inlineMetadata => toLe 4 (MetadataReference.inlineLen inlineMetadata) ++
      inlineMetadata.getD [] := by
  simp only [inlineLen_eq_length]
  apply PrefixCode.comap (fun inlineMetadata : Option Bytes => inlineMetadata.getD [])
    (PrefixCode.lengthPrefixed 4)
  · exact fun inlineMetadata h => h.1
  · rintro (_ | blob) (_ | blob') ⟨-, hne⟩ ⟨-, hne'⟩ heq
    · rfl
    · exact absurd (congrArg some heq.symm) hne'
    · exact absurd (congrArg some heq) hne
    · exact congrArg some heq

theorem MetadataReference.prefixCode :
    PrefixCode MetadataReference.Packable MetadataReference.wire := by
  apply PrefixCode.congr (fun reference : MetadataReference =>
    [UInt8.ofNat metadataReferenceSectionVersion] ++ (reference.metadataHash ++
      ((toLe 4 reference.locators.length ++ reference.locators.flatMap LocatorEntry.wire) ++
        (toLe 4 (inlineLen reference.inlineMetadata) ++ reference.inlineMetadata.getD []))))
  · apply PrefixCode.marked
    apply PrefixCode.field MetadataReference.metadataHash (PrefixCode.block 32)
    · exact fun reference _ => reference.length_metadataHash
    intro metadataHash
    apply PrefixCode.field MetadataReference.locators locators_prefixCode
    · exact fun reference href => href.1.locators
    intro locators
    apply PrefixCode.comap MetadataReference.inlineMetadata inline_prefixCode
    · exact fun reference href => ⟨href.1.1.inline_lt, href.1.1.inline_ne⟩
    · rintro ⟨_, _, _, _⟩ ⟨_, _, _, _⟩ ⟨⟨-, rfl⟩, rfl⟩ ⟨⟨-, rfl⟩, rfl⟩ hinline
      simpa using hinline
  · intro reference _
    simp [MetadataReference.wire]

theorem SlabId.prefixCode : PrefixCode (fun _ : SlabId => True) SlabId.toBytes := by
  apply PrefixCode.field SlabId.ordinal (PrefixCode.number 8) fun slabId _ => slabId.ordinal_lt
  intro ordinal
  apply PrefixCode.comap SlabId.hash (PrefixCode.block 32) fun slabId _ => slabId.length_hash
  exact fun a b ha hb hhash => SlabId.ext_iff'.2 ⟨ha.2.trans hb.2.symm, hhash⟩

theorem SlabIndexEntry.prefixCode : PrefixCode
    (fun entry : SlabIndexEntry => LocatorsPackable entry.locators) SlabIndexEntry.wire := by
  apply PrefixCode.congr (fun entry : SlabIndexEntry => entry.slabId.toBytes ++
    (toLe 4 entry.locators.length ++ entry.locators.flatMap LocatorEntry.wire))
  · apply PrefixCode.field SlabIndexEntry.slabId SlabId.prefixCode fun _ _ => trivial
    intro slabId
    apply PrefixCode.comap SlabIndexEntry.locators locators_prefixCode
    · exact fun entry hentry => hentry.1
    · rintro ⟨_, _⟩ ⟨_, _⟩ ⟨-, rfl⟩ ⟨-, rfl⟩ hlocators
      exact congrArg (SlabIndexEntry.mk _) hlocators
  · exact fun entry _ => List.append_assoc _ _ _

theorem SlabIndex.prefixCode : PrefixCode (fun index : SlabIndex =>
    index.entries.length < 2 ^ 32 ∧ ∀ entry ∈ index.entries, LocatorsPackable entry.locators)
    SlabIndex.wire := by
  apply PrefixCode.congr (fun index : SlabIndex => [UInt8.ofNat slabIndexSectionVersion] ++
    (toLe 4 index.entries.length ++ index.entries.flatMap SlabIndexEntry.wire))
  · apply PrefixCode.marked
    apply PrefixCode.comap SlabIndex.entries (SlabIndexEntry.prefixCode.counted 4)
    · exact fun index hindex => hindex
    · rintro ⟨a⟩ ⟨b⟩ - - rfl
      rfl
  · exact fun index _ => List.append_assoc _ _ _

theorem HistoryOp.prefixCode :
    PrefixCode (fun _ : HistoryOp => True) fun op => [UInt8.ofNat op.value] := by
  apply PrefixCode.comap (fun op : HistoryOp => [UInt8.ofNat op.value]) (PrefixCode.block 1)
  · exact fun op _ => rfl
  · intro a b _ _ hbyte
    cases a <;> cases b <;> first | rfl | exact absurd hbyte (by decide)

theorem ManifestRoot.prefixCode :
    PrefixCode (fun _ : ManifestRoot => True) ManifestRoot.bytes := by
  apply PrefixCode.comap ManifestRoot.bytes (PrefixCode.block 32)
  · exact fun root _ => root.length_bytes
  · rintro ⟨_, _⟩ ⟨_, _⟩ - - rfl
    rfl

theorem HistoryEntry.prefixCode : PrefixCode HistoryEntry.Packable HistoryEntry.wire := by
  apply PrefixCode.congr (fun entry : HistoryEntry => [UInt8.ofNat entry.op.value] ++
    (toLe 8 entry.timestampNs ++
      ((toLe 4 entry.inputs.length ++ entry.inputs.flatMap ManifestRoot.bytes) ++
        (toLe 4 entry.params.length ++ entry.params))))
  · apply PrefixCode.field HistoryEntry.op HistoryOp.prefixCode fun _ _ => trivial
    intro op
    apply PrefixCode.field HistoryEntry.timestampNs (PrefixCode.number 8)
    · exact fun entry hentry => hentry.1.timestampNs_lt
    intro timestampNs
    apply PrefixCode.field HistoryEntry.inputs (ManifestRoot.prefixCode.counted 4)
    · exact fun entry hentry => ⟨hentry.1.1.inputs_lt, fun _ _ => trivial⟩
    intro inputs
    apply PrefixCode.comap HistoryEntry.params (PrefixCode.lengthPrefixed 4)
    · exact fun entry hentry => hentry.1.1.1.params_lt
    · rintro ⟨_, _, _, _⟩ ⟨_, _, _, _⟩ ⟨⟨⟨-, rfl⟩, rfl⟩, rfl⟩ ⟨⟨⟨-, rfl⟩, rfl⟩, rfl⟩ hparams
      exact congrArg (HistoryEntry.mk _ _ _) hparams
  · intro entry _
    simp [HistoryEntry.wire]

theorem History.prefixCode : PrefixCode (fun history : History =>
    history.entries.length < 2 ^ 32 ∧ ∀ entry ∈ history.entries, entry.Packable)
    History.wire := by
  apply PrefixCode.congr (fun history : History => [UInt8.ofNat historySectionVersion] ++
    (toLe 4 history.entries.length ++ history.entries.flatMap HistoryEntry.wire))
  · apply PrefixCode.marked
    apply PrefixCode.comap History.entries (HistoryEntry.prefixCode.counted 4)
    · exact fun history hhistory => hhistory
    · rintro ⟨a⟩ ⟨b⟩ - - rfl
      rfl
  · exact fun history _ => List.append_assoc _ _ _

/-- A section that is there or not, as known beforehand. -/
theorem optionWire_prefixCode {α : Type} {Valid : α → Prop} {wire : α → Bytes}
    (h : PrefixCode Valid wire) (present : Bool) :
    PrefixCode (fun o : Option α => o.isSome = present ∧ ∀ a ∈ o, Valid a) (optionWire wire) := by
  rintro (_ | a) (_ | b) xs ys ⟨ha, hva⟩ ⟨hb, hvb⟩ heq
  · exact ⟨rfl, heq⟩
  · exact absurd (ha.trans hb.symm) (by simp)
  · exact absurd (ha.trans hb.symm) (by simp)
  · rcases h (hva a rfl) (hvb b rfl) heq with ⟨rfl, hrest⟩
    exact ⟨rfl, hrest⟩

theorem EcParams.prefixCode : PrefixCode EcParams.InRange EcParams.wire :=
  fun _ _ _ _ ha hb heq => parseEcParamsSection_decodes.append_inj ha hb heq

-- The character database of the parser only appears in its messages: any one will do.
open scoped Reference in
theorem DmsPolicy.prefixCode (maxShareDataBytes maxHintBytes : Nat) :
    PrefixCode (DmsPolicy.InRange maxShareDataBytes maxHintBytes) DmsPolicy.wire :=
  fun _ _ _ _ ha hb heq => (parseDmsPolicySection_decodes _ _).append_inj ha hb heq

/-- Sections whose optional part is decided by their flags in one way or another. -/
structure Sections.PackableWith (hasEc hasDms : FeatureFlags → Bool) (sections : Sections) : Prop
    extends Sections.Packable sections where
  ecParams : sections.ecParams.isSome = hasEc sections.flags ∧
    ∀ params ∈ sections.ecParams, params.InRange
  dmsPolicy : sections.dmsPolicy.isSome = hasDms sections.flags ∧
    ∀ policy ∈ sections.dmsPolicy, policy.InRange defaultShareDataMaxBytes defaultHintMaxBytes

theorem Sections.prefixCode (hasEc hasDms : FeatureFlags → Bool) :
    PrefixCode (Sections.PackableWith hasEc hasDms) Sections.wire := by
  apply PrefixCode.congr (fun sections : Sections => sections.header.wire ++
    (sections.flags.wire ++ (sections.metadataReference.wire ++ (sections.slabIndex.wire ++
      (optionWire EcParams.wire sections.ecParams ++
        (optionWire DmsPolicy.wire sections.dmsPolicy ++ sections.history.wire))))))
  · apply PrefixCode.field Sections.header ManifestHeader.prefixCode fun _ h => h.header
    intro header
    apply PrefixCode.field Sections.flags FeatureFlags.prefixCode
    · exact fun _ h => ⟨h.1.flags_lt, h.1.flags⟩
    intro flags
    apply PrefixCode.field Sections.metadataReference MetadataReference.prefixCode
    · exact fun _ h => h.1.1.metadataReference
    intro reference
    apply PrefixCode.field Sections.slabIndex SlabIndex.prefixCode
    · exact fun _ h => ⟨h.1.1.1.slabIndex_lt, h.1.1.1.slabIndex⟩
    intro slabIndex
    -- The flags are known by now, and with them which optional sections are on the wire.
    apply PrefixCode.field Sections.ecParams
      (optionWire_prefixCode EcParams.prefixCode (hasEc flags))
    · rintro sections ⟨⟨⟨⟨h, -⟩, rfl⟩, -⟩, -⟩
      exact h.ecParams
    intro ecParams
    apply PrefixCode.field Sections.dmsPolicy
      (optionWire_prefixCode (DmsPolicy.prefixCode _ _) (hasDms flags))
    · rintro sections ⟨⟨⟨⟨⟨h, -⟩, rfl⟩, -⟩, -⟩, -⟩
      exact h.dmsPolicy
    intro dmsPolicy
    apply PrefixCode.comap Sections.history History.prefixCode
    · exact fun _ h => ⟨h.1.1.1.1.1.1.history_lt, h.1.1.1.1.1.1.history⟩
    · rintro ⟨_, _, _, _, _, _, _⟩ ⟨_, _, _, _, _, _, _⟩
        ⟨⟨⟨⟨⟨⟨-, rfl⟩, rfl⟩, rfl⟩, rfl⟩, rfl⟩, rfl⟩ ⟨⟨⟨⟨⟨⟨-, rfl⟩, rfl⟩, rfl⟩, rfl⟩, rfl⟩, rfl⟩
        hhistory
      exact congrArg (Sections.mk _ _ _ _ _ _) hhistory
  · intro sections _
    simp [Sections.wire, Slices.concat, Sections.slices]

/-! ## The encoders on every spec -/

def UrisPackable (uris : List String) : Prop :=
  LocatorsPackable (toLocators uris)

def MetadataReferenceSpec.Packable [Blake3] (spec : MetadataReferenceSpec) : Prop :=
  UrisPackable spec.locators ∧ MetadataReference.inlineLen spec.inlineMetadata < 2 ^ 32

/-- Nothing that the builder packs is too large for its format. -/
structure ManifestSpec.Packable [Blake3] (spec : ManifestSpec) : Prop where
  header : spec.header.toHeader.InRange
  flags_lt : spec.featureFlags.length < 2 ^ 32
  flags : ∀ flag ∈ spec.featureFlags, flag.flagId < 2 ^ 16
  reference : ∀ reference ∈ spec.metadataReference, reference.Packable
  slabIndex_lt : spec.slabIndex.length < 2 ^ 32
  slabIndex : ∀ entry ∈ spec.slabIndex, UrisPackable entry.locators
  history_lt : spec.history.length < 2 ^ 32
  history : ∀ entry ∈ spec.history, entry.toEntry.Packable

theorem emitPacked_emitsIf (width n : Nat) :
    EmitsIf (n < 256 ^ width) .structError (emitPacked width n) (toLe width n) () := by
  refine ⟨emitPacked_emits width, fun out hnot => ?_⟩
  unfold emitPacked pack
  rw [if_neg hnot]
  rfl

theorem encodeLocator_emitsIf (uri : String) :
    EmitsIf (LocatorEntry.Packable ⟨uri⟩) .structError (encodeLocator uri)
      (LocatorEntry.wire ⟨uri⟩) () :=
  ((emitPacked_emitsIf 4 _).bind (.always Emits.emit)).congr (iff_of_eq (and_true _)).symm

theorem encodeLocators_emitsIf (uris : List String) :
    EmitsIf (∀ entry ∈ toLocators uris, entry.Packable) .structError
      (emitEach encodeLocator uris) ((toLocators uris).flatMap LocatorEntry.wire) () := by
  apply EmitsIf.of_run (.emitEach encodeLocator_emitsIf uris)
  · simp [toLocators]
  · simp [toLocators, List.flatMap_map]

theorem urisPackable_iff {uris : List String} : UrisPackable uris ↔
    uris.length < 2 ^ 32 ∧ ∀ entry ∈ toLocators uris, entry.Packable := by
  simp [UrisPackable, LocatorsPackable, toLocators]

theorem encodeHeader_emitsIf (spec : HeaderSpec) :
    EmitsIf spec.toHeader.InRange .structError (encodeHeader spec) spec.toHeader.wire () := by
  unfold encodeHeader
  apply EmitsIf.of_run
  · apply EmitsIf.bind (.always Emits.emit)
    apply EmitsIf.bind (emitPacked_emitsIf _ _)
    apply EmitsIf.bind (emitPacked_emitsIf _ _)
    apply EmitsIf.bind (emitPacked_emitsIf _ _)
    exact .always Emits.emit
  · constructor
    · exact fun h => ⟨trivial, h.dropStoreVersion, h.metadataVersion, h.manifestVersion, trivial⟩
    · exact fun h => ⟨h.2.1, h.2.2.1, h.2.2.2.1⟩
  · simp [ManifestHeader.wire, HeaderSpec.toHeader, manifestMagic]

theorem encodeFeatureFlag_emitsIf (spec : FeatureFlagSpec) :
    EmitsIf (spec.flagId < 2 ^ 16) .structError (encodeFeatureFlag spec) spec.toFlag.wire () := by
  have hbyte : UInt8.ofNat (if spec.required then 1 else 0) =
      if spec.toFlag.required then (1 : UInt8) else 0 := by
    unfold FeatureFlagSpec.toFlag
    cases spec.required <;> rfl
  unfold encodeFeatureFlag
  apply EmitsIf.of_run
  · apply EmitsIf.bind (emitPacked_emitsIf _ _)
    exact .always Emits.emit
  · exact (iff_of_eq (and_true _)).symm
  · rw [hbyte]
    rfl

theorem encodeFeatureFlags_emitsIf (specs : List FeatureFlagSpec) :
    EmitsIf (specs.length < 2 ^ 32 ∧ ∀ spec ∈ specs, spec.flagId < 2 ^ 16) .structError
      (encodeFeatureFlags specs) (FeatureFlags.wire ⟨specs.map FeatureFlagSpec.toFlag⟩) () := by
  unfold encodeFeatureFlags
  apply EmitsIf.of_run
  · apply EmitsIf.bind (.always Emits.emit)
    apply EmitsIf.bind (emitPacked_emitsIf _ _)
    exact .emitEach encodeFeatureFlag_emitsIf specs
  · exact (iff_of_eq (true_and _)).symm
  · simp [FeatureFlags.wire, List.flatMap_map]

theorem encodeInline_emitsIf (inlineMetadata : Option Bytes) :
    EmitsIf (MetadataReference.inlineLen inlineMetadata < 2 ^ 32) .structError
      (match inlineMetadata with
        | none => emitPacked 4 0
        | some blob => do
            emitPacked 4 blob.length
            emit blob)
      (toLe 4 (MetadataReference.inlineLen inlineMetadata) ++ inlineMetadata.getD []) () := by
  cases inlineMetadata with
  | none =>
      have hzero := emitPacked_emitsIf 4 0
      simpa [MetadataReference.inlineLen] using hzero
  | some blob =>
      exact ((emitPacked_emitsIf 4 blob.length).bind (.always Emits.emit)).congr
        (iff_of_eq (and_true _)).symm

/-- The fields of a reference, also where its hash has another length than the reader knows. -/
theorem encodeReferenceFields_emitsIf (metadataHash : Bytes) (uris : List String)
    (inlineMetadata : Option Bytes) :
    EmitsIf (UrisPackable uris ∧ MetadataReference.inlineLen inlineMetadata < 2 ^ 32) .structError
      (encodeReferenceFields metadataHash uris inlineMetadata)
      (metadataHash ++ toLe 4 uris.length ++ (toLocators uris).flatMap LocatorEntry.wire ++
        toLe 4 (MetadataReference.inlineLen inlineMetadata) ++ inlineMetadata.getD []) () := by
  unfold encodeReferenceFields
  apply EmitsIf.of_run
  · apply EmitsIf.bind (.always Emits.emit)
    apply EmitsIf.bind (emitPacked_emitsIf _ _)
    apply EmitsIf.bind (encodeLocators_emitsIf uris)
    exact encodeInline_emitsIf inlineMetadata
  · rw [urisPackable_iff, true_and, and_assoc]
    exact Iff.rfl
  · simp only [List.append_assoc]

theorem encodeSlabIndexEntry_emitsIf (spec : SlabIndexEntrySpec) :
    EmitsIf (UrisPackable spec.locators) .structError (encodeSlabIndexEntry spec)
      spec.toEntry.wire () := by
  unfold encodeSlabIndexEntry
  apply EmitsIf.of_run
  · apply EmitsIf.bind (.always Emits.emit)
    apply EmitsIf.bind (emitPacked_emitsIf _ _)
    exact encodeLocators_emitsIf spec.locators
  · rw [urisPackable_iff, true_and]
    exact Iff.rfl
  · simp [SlabIndexEntry.wire, SlabIndexEntrySpec.toEntry, toLocators]

theorem encodeSlabIndex_emitsIf (specs : List SlabIndexEntrySpec) :
    EmitsIf (specs.length < 2 ^ 32 ∧ ∀ spec ∈ specs, UrisPackable spec.locators) .structError
      (encodeSlabIndex specs) (SlabIndex.wire ⟨specs.map SlabIndexEntrySpec.toEntry⟩) () := by
  unfold encodeSlabIndex
  apply EmitsIf.of_run
  · apply EmitsIf.bind (.always Emits.emit)
    apply EmitsIf.bind (emitPacked_emitsIf _ _)
    exact .emitEach encodeSlabIndexEntry_emitsIf specs
  · exact (iff_of_eq (true_and _)).symm
  · simp [SlabIndex.wire, List.flatMap_map]

theorem encodeHistoryEntry_emitsIf (spec : HistoryEntrySpec) :
    EmitsIf spec.toEntry.Packable .structError (encodeHistoryEntry spec) spec.toEntry.wire () := by
  have hroots : EmitsIf (∀ root ∈ spec.inputs, True) Exn.structError
      (emitEach (fun inputRoot : ManifestRoot => emit inputRoot.bytes) spec.inputs)
      (spec.inputs.flatMap ManifestRoot.bytes) () :=
    .emitEach (fun _ => .always Emits.emit) spec.inputs
  unfold encodeHistoryEntry
  apply EmitsIf.of_run
  · apply EmitsIf.bind (.always Emits.emit)
    apply EmitsIf.bind (emitPacked_emitsIf _ _)
    apply EmitsIf.bind (emitPacked_emitsIf _ _)
    apply EmitsIf.bind hroots
    apply EmitsIf.bind (emitPacked_emitsIf _ _)
    exact .always Emits.emit
  · constructor
    · exact fun h => ⟨trivial, h.timestampNs_lt, h.inputs_lt, fun _ _ => trivial, h.params_lt,
        trivial⟩
    · exact fun h => ⟨h.2.1, h.2.2.1, h.2.2.2.2.1⟩
  · simp [HistoryEntry.wire, HistoryEntrySpec.toEntry, HistoryOpSpec.value_toOp]

theorem encodeHistory_emitsIf (specs : List HistoryEntrySpec) :
    EmitsIf (specs.length < 2 ^ 32 ∧ ∀ spec ∈ specs, spec.toEntry.Packable) .structError
      (encodeHistory specs) (History.wire ⟨specs.map HistoryEntrySpec.toEntry⟩) () := by
  unfold encodeHistory
  apply EmitsIf.of_run
  · apply EmitsIf.bind (.always Emits.emit)
    apply EmitsIf.bind (emitPacked_emitsIf _ _)
    exact .emitEach encodeHistoryEntry_emitsIf specs
  · exact (iff_of_eq (true_and _)).symm
  · simp [History.wire, List.flatMap_map]

section Builder

variable [Blake3]

/-- The bytes of a reference section; with a hash of 32 bytes they are those of a reference. -/
def MetadataReferenceSpec.wire (spec : MetadataReferenceSpec) : Bytes :=
  [UInt8.ofNat metadataReferenceSectionVersion] ++
    (spec.metadataHash ++ toLe 4 spec.locators.length ++
      (toLocators spec.locators).flatMap LocatorEntry.wire ++
      toLe 4 (MetadataReference.inlineLen spec.inlineMetadata) ++ spec.inlineMetadata.getD [])

theorem encodeMetadataReference_emitsIf (spec : MetadataReferenceSpec) :
    EmitsIf spec.Packable .structError (encodeMetadataReference spec) spec.wire
      spec.metadataHash := by
  unfold encodeMetadataReference
  apply EmitsIf.of_run
  · apply EmitsIf.bind (.always Emits.emit)
    apply EmitsIf.bind_nil (encodeReferenceFields_emitsIf _ _ _)
    exact Emits.pure
  · exact (iff_of_eq (true_and _)).symm
  · rfl

/-- The five slices that the builder hashes. -/
def ManifestSpec.built (spec : ManifestSpec) (reference : MetadataReferenceSpec) :
    BuiltSections where
  header := spec.header.toHeader.wire
  featureFlags := FeatureFlags.wire ⟨spec.featureFlags.map FeatureFlagSpec.toFlag⟩
  metadataHash := reference.metadataHash
  metadataReference := reference.wire
  slabIndex := SlabIndex.wire ⟨spec.slabIndex.map SlabIndexEntrySpec.toEntry⟩
  history := History.wire ⟨spec.history.map HistoryEntrySpec.toEntry⟩

def BuiltSections.concat (built : BuiltSections) : Bytes :=
  built.header ++ (built.featureFlags ++ (built.metadataReference ++ (built.slabIndex ++
    built.history)))

/-- All encoders together: they write the five sections, or the first number that does not fit its
format stops them. -/
theorem encodeSections_emitsIf (builder : ManifestBuilder) {reference : MetadataReferenceSpec}
    (href : builder.spec.metadataReference = some reference) :
    EmitsIf builder.spec.Packable .structError builder.encodeSections
      (builder.spec.built reference).concat (builder.spec.built reference) := by
  have hget : builder.spec.metadataReference.get builder.reference_isSome = reference := by
    simp [href]
  unfold ManifestBuilder.encodeSections
  rw [hget]
  apply EmitsIf.of_run
  · apply EmitsIf.bind (encodeHeader_emitsIf _).withEmitted
    apply EmitsIf.bind (encodeFeatureFlags_emitsIf _).withEmitted
    apply EmitsIf.bind (encodeMetadataReference_emitsIf reference).withEmitted
    apply EmitsIf.bind (encodeSlabIndex_emitsIf _).withEmitted
    apply EmitsIf.bind_nil (encodeHistory_emitsIf _).withEmitted
    exact Emits.pure
  · constructor
    · exact fun h => ⟨h.header, ⟨h.flags_lt, h.flags⟩, h.reference reference href,
        ⟨h.slabIndex_lt, h.slabIndex⟩, h.history_lt, h.history⟩
    · rintro ⟨hheader, hflags, hreference, hslabIndex, hhistory⟩
      refine ⟨hheader, hflags.1, hflags.2, ?_, hslabIndex.1, hslabIndex.2, hhistory.1, hhistory.2⟩
      intro reference' href'
      obtain rfl : reference = reference' := Option.some.inj (href.symm.trans href')
      exact hreference
  · rfl

end Builder

end LimniFs
