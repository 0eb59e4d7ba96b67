import LimniFs.DeltaLinkage
import LimniFs.EcParams
import LimniFs.FeatureFlags
import LimniFs.History
import LimniFs.SlabIndex
import LimniFs.Wire.Conservative

/-!
# SizeChecks — the checks made before the counted loops

Every counted loop of the reader is preceded by a check that the least its rounds can read is still
there.  The parsers are repeated here with each of their checks made or removed, and compared with
those of the reader: the checks reject nothing that the loops would not reject themselves.
-/

namespace LimniFs

open Wire

/-! ## The parsers with a check removed -/

/-- `requireRemaining`, unless it is removed. -/
def requireRemainingWith (check : SizeCheck) (need : Nat) : Parser Unit :=
  check.run need fun avail => .truncated avail need

def parseFeatureFlagsSectionWith (check : SizeCheck) : Parser FeatureFlags := do
  let sectionVersion ← readU8
  raiseIf (sectionVersion ≠ featureFlagsSectionVersion)
    (.unsupportedFeature (s!"feature_flags section version {sectionVersion} " ++
      s!"(supported: {featureFlagsSectionVersion})"))
  let entryCount ← readU32Le
  requireRemainingWith check (entryCount * featureFlagsEntryLen)
  let entries ← collect parseFeatureFlag 0 entryCount []
  return { entries }

def parseHistoryEntryWith (inputCheck : SizeCheck) (maxParamsBytes index : Nat) :
    Parser HistoryEntry := do
  let opByte ← readU8
  let op ← parseHistoryOp index opByte
  let timestampNs ← readU64Le
  let inputCount ← readU32Le
  requireRemainingWith inputCheck (inputCount * 32)
  let inputsBytes ← read (inputCount * 32)
  let inputs ← chunkInputs inputsBytes 0 inputCount
  let paramsLen ← readU32Le
  raiseIf (paramsLen > maxParamsBytes)
    (.corrupt (s!"history entry {index}: params_len {paramsLen} exceeds " ++
      s!"ceiling {maxParamsBytes}"))
  let params ← read paramsLen
  return { op, timestampNs, inputs, params }

def parseHistorySectionWith (check inputCheck : SizeCheck) (maxParamsBytes : Nat) :
    Parser History := do
  let sectionVersion ← readU8
  raiseIf (sectionVersion ≠ historySectionVersion)
    (.unsupportedFeature (s!"history section version {sectionVersion} " ++
      s!"(supported: {historySectionVersion})"))
  let entryCount ← readU32Le
  raiseIf (entryCount = 0)
    (.corrupt "history entry_count is 0 (every image must have at least the build entry)")
  requireRemainingWith check (entryCount * (historyEntryFixedLen + 4))
  let entries ← repeatIndexed (parseHistoryEntryWith inputCheck maxParamsBytes) 0 entryCount
  return { entries }

def parseDeltaLinkageSectionWith (check : SizeCheck) : Parser DeltaLinkage := do
  let sectionVersion ← readU8
  raiseIf (sectionVersion ≠ deltaLinkageSectionVersion)
    (.unsupportedFeature (s!"delta_linkage section version {sectionVersion} " ++
      s!"(supported: {deltaLinkageSectionVersion})"))
  let baseRootBytes ← read 32
  let baseRoot ← ManifestRoot.make baseRootBytes
  let opCount ← readU32Le
  requireRemainingWith check (opCount * minTreeOpLen)
  let treeOps ← repeatIndexed parseTreeOp 0 opCount
  return { baseRoot, treeOps }

def parseEcParamsSectionWith (check : SizeCheck) : Parser EcParams := do
  let sectionVersion ← readU8
  raiseIf (sectionVersion ≠ ecParamsSectionVersion)
    (.unsupportedFeature (s!"ec_params section version {sectionVersion} " ++
      s!"(supported: {ecParamsSectionVersion})"))
  let k ← readU8
  let m ← readU8
  validateShards k m "default"
  let polynomial ← readU16Le
  raiseIf (polynomial ≠ defaultEcPolynomial)
    (.unsupportedFeature (s!"ec_params polynomial 0x{formatHex 4 polynomial} " ++
      s!"(supported: 0x{formatHex 4 defaultEcPolynomial})"))
  let overrideCount ← readU32Le
  requireRemainingWith check (overrideCount * overrideEntryLen)
  let overrides ← collect parseEcOverride 0 overrideCount []
  return { k, m, polynomial, overrides }

section Locators

variable [UnicodeData]

def parseLocatorEntriesWith (check : SizeCheck) (count maxUriBytes : Nat) :
    Parser (List LocatorEntry) := do
  requireRemainingWith check (count * (locatorLengthPrefixLen + minLocatorUriBytes))
  repeatIndexed
    (fun index => mapError (annotateLocatorError index) (parseLocatorEntry maxUriBytes)) 0 count

def parseSlabIndexEntryWith (locatorCheck : SizeCheck) (maxLocatorUriBytes index : Nat)
    (seen : List SlabKey) : Parser (SlabIndexEntry × List SlabKey) := do
  let ordinal ← readU64Le
  let hash ← read 32
  let slabId ← SlabId.make ordinal hash
  raiseIf ((slabId.ordinal, slabId.hash) ∈ seen)
    (.corrupt (s!"slab_index entry {index}: duplicate slab_id " ++
      s!"(ordinal {slabId.ordinal}, hash {bytesHex slabId.hash})"))
  let locatorCount ← readU32Le
  raiseIf (locatorCount = 0)
    (.corrupt (s!"slab_index entry {index}: slab_id (ordinal {slabId.ordinal}) " ++
      "declares zero locators (unreachable)"))
  let locators ← parseLocatorEntriesWith locatorCheck locatorCount maxLocatorUriBytes
  return ({ slabId, locators }, (slabId.ordinal, slabId.hash) :: seen)

def parseSlabIndexSectionWith (check locatorCheck : SizeCheck) (maxLocatorUriBytes : Nat) :
    Parser SlabIndex := do
  let sectionVersion ← readU8
  raiseIf (sectionVersion ≠ slabIndexSectionVersion)
    (.unsupportedFeature (s!"slab_index section version {sectionVersion} " ++
      s!"(supported: {slabIndexSectionVersion})"))
  let entryCount ← readU32Le
  requireRemainingWith check (entryCount * slabIndexEntryFixedLen)
  let entries ← collect (parseSlabIndexEntryWith locatorCheck maxLocatorUriBytes) 0 entryCount []
  return { entries }

/-- With every check made these are the parsers of the reader. -/
theorem parsers_checks_made :
    parseFeatureFlagsSectionWith .made = parseFeatureFlagsSection ∧
      parseLocatorEntriesWith .made = parseLocatorEntries ∧
      parseSlabIndexSectionWith .made .made = parseSlabIndexSection ∧
      parseHistorySectionWith .made .made = parseHistorySection ∧
      parseDeltaLinkageSectionWith .made = parseDeltaLinkageSection ∧
      parseEcParamsSectionWith .made = parseEcParamsSection :=
  ⟨rfl, rfl, rfl, rfl, rfl, rfl⟩

end Locators

/-! ## What a round takes at least -/

theorem parseFeatureFlag_takes (index : Nat) (seen : List Nat) :
    Takes featureFlagsEntryLen (parseFeatureFlag index seen) := by
  apply Takes.of_decodes (parseFeatureFlag_decodes index seen)
  intro r _
  exact Nat.le_of_eq r.1.length_wire.symm

theorem parseHistoryEntry_takes (maxParamsBytes index : Nat) :
    Takes (historyEntryFixedLen + 4) (parseHistoryEntry maxParamsBytes index) :=
  Takes.of_decodes (parseHistoryEntry_decodes maxParamsBytes index)
    fun entry _ => entry.length_wire_ge

theorem parseTreeOp_takes (index : Nat) : Takes minTreeOpLen (parseTreeOp index) :=
  Takes.of_decodes (parseTreeOp_decodes index) fun _ hop => hop.length_wire_ge

theorem parseEcOverride_takes (index : Nat) (seen : List SlabKey) :
    Takes overrideEntryLen (parseEcOverride index seen) := by
  apply Takes.of_decodes (parseEcOverride_decodes index seen)
  intro r _
  exact Nat.le_of_eq r.1.length_wire.symm

theorem read_takes (n : Nat) : Takes n (read n) :=
  Takes.of_decodes (read_decodes n) fun _ hlen => Nat.le_of_eq hlen.symm

theorem readU32Le_takes : Takes 4 readU32Le :=
  Takes.of_decodes readU32Le_decodes fun n _ => Nat.le_of_eq (length_toLe 4 n).symm

section Locators

variable [UnicodeData]

theorem parseLocatorEntry_takes (maxUriBytes : Nat) :
    Takes (locatorLengthPrefixLen + minLocatorUriBytes) (parseLocatorEntry maxUriBytes) := by
  apply Takes.of_decodes (parseLocatorEntry_decodes maxUriBytes)
  intro entry hentry
  rw [entry.length_wire]
  exact Nat.add_le_add_left hentry.min_le _

theorem parseSlabIndexEntry_takes (maxLocatorUriBytes index : Nat) (seen : List SlabKey) :
    Takes slabIndexEntryFixedLen (parseSlabIndexEntry maxLocatorUriBytes index seen) :=
  Takes.of_decodes (parseSlabIndexEntry_decodes maxLocatorUriBytes index seen)
    fun r _ => r.1.length_wire_ge

end Locators

/-! ## The checks are conservative -/

/-- The size check of a parser, in front of what takes that size. -/
theorem requireRemaining_same {α : Type} {need : Nat} {p q : Parser α} (check : SizeCheck)
    (htakes : Takes need p) (h : SameResults p q) :
    SameResults (requireRemaining need >>= fun _ => p)
      (requireRemainingWith check need >>= fun _ => q) :=
  SameResults.sizeCheck check htakes h

theorem parseFeatureFlagsSection_same (check : SizeCheck) :
    SameResults parseFeatureFlagsSection (parseFeatureFlagsSectionWith check) := by
  apply SameResults.after
  intro sectionVersion
  apply SameResults.after
  intro _
  apply SameResults.after
  intro entryCount
  apply requireRemaining_same
  · apply (Takes.collect parseFeatureFlag_takes entryCount 0 []).bind_left
    exact fun entries => Takes.pure _
  · exact SameResults.refl _

theorem parseHistoryEntry_same (inputCheck : SizeCheck) (maxParamsBytes index : Nat) :
    SameResults (parseHistoryEntry maxParamsBytes index)
      (parseHistoryEntryWith inputCheck maxParamsBytes index) := by
  apply SameResults.after
  intro opByte
  apply SameResults.after
  intro op
  apply SameResults.after
  intro timestampNs
  apply SameResults.after
  intro inputCount
  apply requireRemaining_same
  -- The bytes asked for are the next to be read; what is read after them comes on top.
  · apply (read_takes (inputCount * 32)).bind_left
    intro inputsBytes
    apply (Takes.lift _).bind_right
    intro inputs
    apply (readU32Le_takes.weaken (Nat.zero_le _)).bind_right
    intro paramsLen
    apply (Takes.raiseIf _ _).bind_right
    intro _
    apply ((read_takes paramsLen).weaken (Nat.zero_le _)).bind_right
    exact fun params => Takes.pure _
  · exact SameResults.refl _

theorem parseHistorySection_same (check inputCheck : SizeCheck) (maxParamsBytes : Nat) :
    SameResults (parseHistorySection maxParamsBytes)
      (parseHistorySectionWith check inputCheck maxParamsBytes) := by
  apply SameResults.after
  intro sectionVersion
  apply SameResults.after
  intro _
  apply SameResults.after
  intro entryCount
  apply SameResults.after
  intro _
  apply requireRemaining_same
  · apply (Takes.repeatIndexed (parseHistoryEntry_takes maxParamsBytes) entryCount 0).bind_left
    exact fun entries => Takes.pure _
  · apply SameResults.before
    exact SameResults.repeatIndexed (parseHistoryEntry_same inputCheck maxParamsBytes) entryCount 0

theorem parseDeltaLinkageSection_same (check : SizeCheck) :
    SameResults parseDeltaLinkageSection (parseDeltaLinkageSectionWith check) := by
  apply SameResults.after
  intro sectionVersion
  apply SameResults.after
  intro _
  apply SameResults.after
  intro baseRootBytes
  apply SameResults.after
  intro baseRoot
  apply SameResults.after
  intro opCount
  apply requireRemaining_same
  · apply (Takes.repeatIndexed parseTreeOp_takes opCount 0).bind_left
    exact fun treeOps => Takes.pure _
  · exact SameResults.refl _

theorem parseEcParamsSection_same (check : SizeCheck) :
    SameResults parseEcParamsSection (parseEcParamsSectionWith check) := by
  apply SameResults.after
  intro sectionVersion
  apply SameResults.after
  intro _
  apply SameResults.after
  intro k
  apply SameResults.after
  intro m
  apply SameResults.after
  intro _
  apply SameResults.after
  intro polynomial
  apply SameResults.after
  intro _
  apply SameResults.after
  intro overrideCount
  apply requireRemaining_same
  · apply (Takes.collect parseEcOverride_takes overrideCount 0 []).bind_left
    exact fun overrides => Takes.pure _
  · exact SameResults.refl _

section Locators

variable [UnicodeData]

theorem parseLocatorEntries_same (check : SizeCheck) (count maxUriBytes : Nat) :
    SameResults (parseLocatorEntries count maxUriBytes)
      (parseLocatorEntriesWith check count maxUriBytes) := by
  apply requireRemaining_same
  · exact Takes.repeatIndexed (fun index => (parseLocatorEntry_takes maxUriBytes).mapError _) count 0
  · exact SameResults.refl _

theorem parseSlabIndexEntry_same (locatorCheck : SizeCheck) (maxLocatorUriBytes index : Nat)
    (seen : List SlabKey) :
    SameResults (parseSlabIndexEntry maxLocatorUriBytes index seen)
      (parseSlabIndexEntryWith locatorCheck maxLocatorUriBytes index seen) := by
  apply SameResults.after
  intro ordinal
  apply SameResults.after
  intro hash
  apply SameResults.after
  intro slabId
  apply SameResults.after
  intro _
  apply SameResults.after
  intro locatorCount
  apply SameResults.after
  intro _
  apply SameResults.before
  exact parseLocatorEntries_same locatorCheck locatorCount maxLocatorUriBytes

theorem parseSlabIndexSection_same (check locatorCheck : SizeCheck) (maxLocatorUriBytes : Nat) :
    SameResults (parseSlabIndexSection maxLocatorUriBytes)
      (parseSlabIndexSectionWith check locatorCheck maxLocatorUriBytes) := by
  apply SameResults.after
  intro sectionVersion
  apply SameResults.after
  intro _
  apply SameResults.after
  intro entryCount
  apply requireRemaining_same
  · apply (Takes.collect (parseSlabIndexEntry_takes maxLocatorUriBytes) entryCount 0 []).bind_left
    exact fun entries => Takes.pure _
  · apply SameResults.before
    exact SameResults.collect (parseSlabIndexEntry_same locatorCheck maxLocatorUriBytes)
      entryCount 0 []

/-- From every position of every buffer, and whichever of the size checks are made, each parser
returns the same values at the same positions. -/
theorem sizeChecks_conservative (maxUriBytes maxParamsBytes : Nat) (check nested : SizeCheck) :
    SameResults parseFeatureFlagsSection (parseFeatureFlagsSectionWith check) ∧
      (∀ count, SameResults (parseLocatorEntries count maxUriBytes)
        (parseLocatorEntriesWith check count maxUriBytes)) ∧
      SameResults (parseSlabIndexSection maxUriBytes)
        (parseSlabIndexSectionWith check nested maxUriBytes) ∧
      SameResults (parseHistorySection maxParamsBytes)
        (parseHistorySectionWith check nested maxParamsBytes) ∧
      SameResults parseDeltaLinkageSection (parseDeltaLinkageSectionWith check) ∧
      SameResults parseEcParamsSection (parseEcParamsSectionWith check) := by
  refine ⟨parseFeatureFlagsSection_same check, ?_, ?_, ?_, parseDeltaLinkageSection_same check,
    parseEcParamsSection_same check⟩
  · intro count
    exact parseLocatorEntries_same check count maxUriBytes
  · exact parseSlabIndexSection_same check nested maxUriBytes
  · exact parseHistorySection_same check nested maxParamsBytes

end Locators

end LimniFs
