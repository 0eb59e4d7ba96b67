import LimniFs.BuilderRefinement
import LimniFs.KeyedSections

/-!
# MinimalReader — the reader of the round-trip tests

`parse_and_recompute_root` reads the five sections that the builder writes, whatever the flags
declare, and computes the root from them.  It accepts every artifact of a readable spec, with the
builder's root; where the flags declare no optional section it agrees with `limnifs verify` on all
inputs.
-/

namespace LimniFs

open Wire

/-- Without its flag an optional section is no step at all. -/
theorem withSlice_absent {α : Type} (p : Parser α) :
    withSlice (parseOptional false p) = pure (none, []) := by
  funext c
  have hslice : (c.buf.take c.pos).drop c.pos = [] := by
    rw [List.drop_eq_nil_iff, List.length_take]
    exact Nat.min_le_left _ _
  exact congrArg (fun slice => Except.ok ((none, slice), c)) hslice

theorem of_withSlice_ok {α : Type} {p : Parser α} {c c' : Cursor} {a : α} {slice : Bytes}
    (h : withSlice p c = .ok ((a, slice), c')) : p c = .ok (a, c') := by
  unfold withSlice at h
  cases hp : p c with
  | error e =>
      rw [hp] at h
      cases h
  | ok r =>
      rw [hp] at h
      cases h
      rfl

section Parser

variable [UnicodeData]

/-- The five sections in a row, each with its slice of the buffer. -/
def parseRequiredSections : Parser (Sections × Slices) := do
  let (header, headerSlice) ← withSlice parseManifestHeader
  let (flags, flagsSlice) ← withSlice parseFeatureFlagsSection
  let (metadataReference, metaRefSlice) ← withSlice
    (parseMetadataReferenceSection defaultLocatorMaxUriBytes defaultInlineMetadataMaxBytes)
  let (slabIndex, slabIndexSlice) ← withSlice (parseSlabIndexSection defaultLocatorMaxUriBytes)
  let (history, historySlice) ← withSlice (parseHistorySection defaultHistoryParamsMaxBytes)
  return ({ header, flags, metadataReference, slabIndex, ecParams := none, dmsPolicy := none,
            history },
    { header := headerSlice, flags := flagsSlice, metadataReference := metaRefSlice,
      slabIndex := slabIndexSlice, ecParams := [], dmsPolicy := [], history := historySlice })

/-- `parse_and_recompute_root(buf)` -/
def parseAndRecomputeRoot [Blake3] (buf : Bytes) : Except Exn (Bytes × Nat) := do
  let ((sections, slices), cursor) ← parseRequiredSections (.start buf)
  let sectionHashes ← SectionHashes.make sections.metadataReference.metadataHash
    (hashSection slices.header) (hashSection slices.flags) (hashSection slices.metadataReference)
    (hashSection slices.slabIndex) hashEmptySection hashEmptySection hashEmptySection
    hashEmptySection (hashSection slices.history)
  let root ← computeMerkleRoot sectionHashes
  return (root.bytes, cursor.remainingLen)

/-- Sections as this reader returns them: the five, and no optional one. -/
structure Sections.Minimal (sections : Sections) : Prop extends RequiredInRange sections where
  ecParams : sections.ecParams = none
  dmsPolicy : sections.dmsPolicy = none

theorem parseRequiredSections_decodes :
    Decodes parseRequiredSections (fun r => r.1.Minimal ∧ r.2 = r.1.slices)
      (fun r => r.1.wire) := by
  apply Wire.Decodes.record
  · apply Wire.Decodes.fieldSlice (fun r : Sections × Slices => r.1.header)
      (fun r => r.2.header) parseManifestHeader_decodes
    · exact fun r hr => congrArg Slices.header hr.2
    · exact fun r hr _ => hr.1.header
    intro header hheader
    apply Wire.Decodes.fieldSlice (fun r : Sections × Slices => r.1.flags) (fun r => r.2.flags)
      parseFeatureFlagsSection_decodes
    · exact fun r hr => congrArg Slices.flags hr.2
    · exact fun r hr _ => hr.1.flags
    intro flags hflags
    apply Wire.Decodes.fieldSlice (fun r : Sections × Slices => r.1.metadataReference)
      (fun r => r.2.metadataReference) (parseMetadataReferenceSection_decodes _ _)
    · exact fun r hr => congrArg Slices.metadataReference hr.2
    · exact fun r hr _ => hr.1.metadataReference
    intro reference hreference
    apply Wire.Decodes.fieldSlice (fun r : Sections × Slices => r.1.slabIndex)
      (fun r => r.2.slabIndex) (parseSlabIndexSection_decodes _)
    · exact fun r hr => congrArg Slices.slabIndex hr.2
    · exact fun r hr _ => hr.1.slabIndex
    intro slabIndex hslabIndex
    apply Wire.Decodes.fieldSlice (fun r : Sections × Slices => r.1.history)
      (fun r => r.2.history) (parseHistorySection_decodes _)
    · exact fun r hr => congrArg Slices.history hr.2
    · exact fun r hr _ => hr.1.history
    intro history hhistory
    apply Wire.Decodes.done
    · exact ⟨⟨⟨hheader, hflags, hreference, hslabIndex, hhistory⟩, rfl, rfl⟩, rfl⟩
    · exact ⟨⟨⟨⟨⟨trivial, rfl⟩, rfl⟩, rfl⟩, rfl⟩, rfl⟩
    -- What is not read is absent, so the five sections are all that is known.
    · rintro ⟨⟨_, _, _, _, _, _, _⟩, _⟩ ⟨hminimal, hslices⟩ ⟨⟨⟨⟨⟨-, rfl⟩, rfl⟩, rfl⟩, rfl⟩, rfl⟩
      rcases hminimal with ⟨-, rfl, rfl⟩
      exact Prod.ext rfl hslices
  · rintro ⟨sections, _⟩ ⟨⟨-, hec, hdms⟩, -⟩
    dsimp only at hec hdms
    simp [Sections.wire, Slices.concat, Sections.slices, hec, hdms, optionWire]

theorem parseRequiredSections_ensures : Ensures (fun _ => True) parseRequiredSections := by
  apply Wire.Ensures.bind parseManifestHeader_ensures.withSlice
  rintro ⟨header, headerSlice⟩ _
  apply Wire.Ensures.bind parseFeatureFlagsSection_ensures.withSlice
  rintro ⟨flags, flagsSlice⟩ _
  apply Wire.Ensures.bind (parseMetadataReferenceSection_ensures _ _).withSlice
  rintro ⟨reference, metaRefSlice⟩ _
  apply Wire.Ensures.bind (parseSlabIndexSection_ensures _).withSlice
  rintro ⟨slabIndex, slabIndexSlice⟩ _
  apply Wire.Ensures.bind (parseHistorySection_ensures _).withSlice
  rintro ⟨history, historySlice⟩ _
  exact Wire.Ensures.pure trivial

/-- The flags that a buffer declares, as far as it gets to them. -/
def declaredFlags (buf : Bytes) : Except Exn FeatureFlags := do
  let (_, c) ← parseManifestHeader (.start buf)
  let (flags, _) ← parseFeatureFlagsSection c
  return flags

theorem declaredFlags_wire {sections : Sections} (h : sections.RequiredInRange) (tail : Bytes) :
    declaredFlags (sections.wire ++ tail) = .ok sections.flags := by
  have hwire : sections.wire ++ tail = sections.header.wire ++ (sections.flags.wire ++
      (sections.slices.metadataReference ++ (sections.slices.slabIndex ++
        (sections.slices.ecParams ++ (sections.slices.dmsPolicy ++
          (sections.slices.history ++ tail)))))) := by
    simp [Sections.wire, Slices.concat, Sections.slices]
  rw [hwire]
  rcases parseManifestHeader_decodes.decode_append h.header _ with ⟨c, hheader, hrem⟩
  rcases parseFeatureFlagsSection_decodes.run h.flags hrem with ⟨c', hflags, -⟩
  unfold declaredFlags
  rw [hheader]
  simp only [bind, Except.bind, hflags]
  rfl

theorem parseSections_eq {buf : Bytes} (h : ∀ flags, declaredFlags buf = .ok flags →
    flags.hasEc = false ∧ flags.hasDms = false) :
    parseSections (.start buf) = parseRequiredSections (.start buf) := by
  unfold parseSections parseRequiredSections
  cases hheader : withSlice parseManifestHeader (.start buf) with
  | error e =>
      rw [Wire.Decodes.bind_error hheader, Wire.Decodes.bind_error hheader]
  | ok r =>
      rcases r with ⟨⟨header, headerSlice⟩, c⟩
      rw [Wire.Decodes.bind_ok hheader, Wire.Decodes.bind_ok hheader]
      dsimp only
      cases hflags : withSlice parseFeatureFlagsSection c with
      | error e =>
          rw [Wire.Decodes.bind_error hflags, Wire.Decodes.bind_error hflags]
      | ok r =>
          rcases r with ⟨⟨flags, flagsSlice⟩, c'⟩
          rw [Wire.Decodes.bind_ok hflags, Wire.Decodes.bind_ok hflags]
          dsimp only
          have hdeclared : declaredFlags buf = .ok flags := by
            unfold declaredFlags
            rw [of_withSlice_ok hheader]
            simp only [bind, Except.bind, of_withSlice_ok hflags]
            rfl
          rcases h flags hdeclared with ⟨hec, hdms⟩
          simp only [hec, hdms, withSlice_absent, pure_bind]

end Parser

section Root

variable [UnicodeData] [Blake3]

/-- Behind the sections that it reads, nothing can fail. -/
theorem parseAndRecomputeRoot_eq {buf : Bytes} {sections : Sections} {c : Cursor}
    (hminimal : sections.Minimal)
    (h : parseRequiredSections (.start buf) = .ok ((sections, sections.slices), c)) :
    parseAndRecomputeRoot buf = .ok (sections.root.bytes, c.remainingLen) := by
  have hmake := SectionHashes.make_eq_ok sections.hashes.length_slots
  have hslices : sections.slices.ecParams = [] ∧ sections.slices.dmsPolicy = [] := by
    simp [Sections.slices, hminimal.ecParams, hminimal.dmsPolicy, optionWire]
  have hhashes : SectionHashes.make sections.metadataReference.metadataHash
      (hashSection sections.slices.header) (hashSection sections.slices.flags)
      (hashSection sections.slices.metadataReference) (hashSection sections.slices.slabIndex)
      hashEmptySection hashEmptySection hashEmptySection hashEmptySection
      (hashSection sections.slices.history) = .ok sections.hashes := by
    have hempty : hashEmptySection = hashSection [] := rfl
    rw [← hmake]
    simp only [Sections.hashes, hslices, ← hempty]
  unfold parseAndRecomputeRoot
  rw [h]
  simp only [bind, Except.bind, hhashes, computeMerkleRoot_eq_ok]
  rfl

theorem parseAndRecomputeRoot_eq_ok_iff {buf : Bytes} {r : Bytes × Nat} :
    parseAndRecomputeRoot buf = .ok r ↔ ∃ (sections : Sections) (tail : Bytes),
      sections.Minimal ∧ buf = sections.wire ++ tail ∧ r = (sections.root.bytes, tail.length) := by
  constructor
  · intro h
    rcases bind_eq_ok_iff.1 h with ⟨⟨⟨sections, slices⟩, c⟩, hparse, hroot⟩
    rcases parseRequiredSections_decodes.sound hparse with ⟨⟨hminimal, hslices⟩, hc⟩
    dsimp only at hslices
    subst hslices
    refine ⟨sections, c.remaining, hminimal, by simpa using hc.2, ?_⟩
    rw [parseAndRecomputeRoot_eq hminimal hparse] at h
    rw [Wire.Cursor.length_remaining]
    exact (Except.ok.inj h).symm
  · rintro ⟨sections, tail, hminimal, rfl, rfl⟩
    rcases parseRequiredSections_decodes.decode_append (a := (sections, sections.slices))
      ⟨hminimal, rfl⟩ tail with ⟨c, hparse, hrem⟩
    rw [parseAndRecomputeRoot_eq hminimal hparse, ← hrem, Wire.Cursor.length_remaining]

theorem parseAndRecomputeRoot_raises {buf : Bytes} {e : Exn}
    (h : parseAndRecomputeRoot buf = .error e) :
    parseRequiredSections (.start buf) = .error e := by
  cases hparse : parseRequiredSections (.start buf) with
  | error e' =>
      unfold parseAndRecomputeRoot at h
      rw [hparse] at h
      cases h
      rfl
  | ok r =>
      rcases r with ⟨⟨sections, slices⟩, c⟩
      rcases parseRequiredSections_decodes.sound hparse with ⟨⟨hminimal, hslices⟩, -⟩
      dsimp only at hminimal hslices
      subst hslices
      rw [parseAndRecomputeRoot_eq hminimal hparse] at h
      cases h

/-- Of the artifacts of all specs, with any flags, this reader accepts those of the readable ones,
and it computes the root of the builder with nothing left over. -/
theorem recompute_built_iff {spec : ManifestSpec} {artifact : ManifestArtifact}
    (hbuild : buildManifest spec = .ok artifact) :
    (∀ r, parseAndRecomputeRoot artifact.bytes = .ok r ↔
      spec.Readable ∧ r = (artifact.merkleRoot.bytes, 0)) ∧
    (¬ spec.Readable → ∃ pe, parseAndRecomputeRoot artifact.bytes = .error (.parse pe)) := by
  rcases exists_buildable hbuild with ⟨reference, h, rfl⟩
  have haccepted : ∀ r, parseAndRecomputeRoot h.sections.artifact.bytes = .ok r ↔
      spec.Readable ∧ r = (h.sections.artifact.merkleRoot.bytes, 0) := by
    intro r
    rw [parseAndRecomputeRoot_eq_ok_iff, ← requiredInRange_iff h]
    constructor
    -- What is read has the encoding of the spec's sections, so it is these sections.
    · rintro ⟨sections, tail, hminimal, hbytes, rfl⟩
      have hwire : h.sections.wire ++ [] = sections.wire ++ tail := by
        rw [List.append_nil]
        exact hbytes
      have hpack : sections.PackableWith (fun _ => false) fun _ => false :=
        { hminimal.toRequiredInRange.packable with
          ecParams := by simp [hminimal.ecParams]
          dmsPolicy := by simp [hminimal.dmsPolicy] }
      rcases Sections.prefixCode _ _ (Buildable.packableWith h) hpack hwire with ⟨rfl, rfl⟩
      exact ⟨hminimal.toRequiredInRange, rfl⟩
    · rintro ⟨hrange, rfl⟩
      exact ⟨h.sections, [], ⟨hrange, rfl, rfl⟩, by rw [List.append_nil]; rfl, rfl⟩
  refine ⟨haccepted, fun hnot => ?_⟩
  cases hread : parseAndRecomputeRoot h.sections.artifact.bytes with
  | ok r =>
      exact absurd ((haccepted r).1 hread).1 hnot
  | error e =>
      rcases parseRequiredSections_ensures.raises (parseAndRecomputeRoot_raises hread) with
        ⟨pe, rfl⟩
      exact ⟨pe, rfl⟩

/-! ## Lookups in what was built -/

/-- What is looked up in the sections of a built artifact is what the spec says under the key, and
nothing else. -/
theorem built_lookups {spec : ManifestSpec} {artifact : ManifestArtifact}
    (hbuild : buildManifest spec = .ok artifact) (hread : spec.Readable) :
    ∃ sections c, parseRequiredSections (.start artifact.bytes) =
        .ok ((sections, sections.slices), c) ∧
      (∀ flagId flag, sections.flags.get flagId = some flag ↔
        ∃ flagSpec ∈ spec.featureFlags, flagSpec.flagId = flagId ∧ flagSpec.toFlag = flag) ∧
      (∀ flagId, sections.flags.isRequired flagId ↔ ⟨flagId, true⟩ ∈ spec.featureFlags) ∧
      ∀ slabId entry, sections.slabIndex.find slabId = some entry ↔
        ∃ entrySpec ∈ spec.slabIndex, entrySpec.slabId = slabId ∧ entrySpec.toEntry = entry := by
  rcases exists_buildable hbuild with ⟨reference, h, rfl⟩
  have hrange := (requiredInRange_iff h).2 hread
  rcases parseRequiredSections_decodes.decode_append (a := (h.sections, h.sections.slices))
    ⟨⟨hrange, rfl, rfl⟩, rfl⟩ [] with ⟨c, hparse, -⟩
  rw [List.append_nil] at hparse
  have hflags := hrange.flags.isMap
  have hindex := hrange.slabIndex.isMap
  refine ⟨h.sections, c, hparse, ?_, ?_, ?_⟩
  · intro flagId flag
    rw [hflags.get_iff]
    constructor
    · rintro ⟨hmem, rfl⟩
      rcases List.mem_map.1 hmem with ⟨flagSpec, hspec, rfl⟩
      exact ⟨flagSpec, hspec, rfl, rfl⟩
    · rintro ⟨flagSpec, hspec, rfl, rfl⟩
      exact ⟨List.mem_map_of_mem hspec, rfl⟩
  · intro flagId
    rw [hflags.isRequired_iff]
    constructor
    · rintro ⟨flag, hmem, rfl, hrequired⟩
      rcases List.mem_map.1 hmem with ⟨⟨flagId, required⟩, hspec, rfl⟩
      obtain rfl : required = true := hrequired
      exact hspec
    · intro hspec
      exact ⟨_, List.mem_map_of_mem hspec, rfl, rfl⟩
  · intro slabId entry
    rw [hindex.find_iff]
    constructor
    · rintro ⟨hmem, hkey⟩
      rcases List.mem_map.1 hmem with ⟨entrySpec, hspec, rfl⟩
      exact ⟨entrySpec, hspec, SlabId.ext_iff'.2 (Prod.mk.inj hkey), rfl⟩
    · rintro ⟨entrySpec, hspec, rfl, rfl⟩
      exact ⟨List.mem_map_of_mem hspec, rfl⟩

/-! ## The two readers side by side -/

/-- Where the flags declare no optional section, the reader of the tests and the verifier accept
the same buffers with the same root and the same rest, and raise the same errors on the others. -/
theorem recompute_agrees {buf : Bytes} (h : ∀ flags, declaredFlags buf = .ok flags →
    flags.hasEc = false ∧ flags.hasDms = false) :
    (∀ (root : ManifestRoot) (extra : Nat), parseAndRecomputeRoot buf = .ok (root.bytes, extra) ↔
      ∃ report, verifyBytes buf = .ok report ∧ report.merkleRoot = root.toText ∧
        report.extraBytesAfterHistory = extra) ∧
    ∀ e, parseAndRecomputeRoot buf = .error e ↔ verifyBytes buf = .error e := by
  have hparse := parseSections_eq h
  cases hsections : parseSections (.start buf) with
  | error e =>
      have hverify : verifyBytes buf = .error e := by
        unfold verifyBytes
        rw [hsections]
        rfl
      have hrecompute : parseAndRecomputeRoot buf = .error e := by
        unfold parseAndRecomputeRoot
        rw [← hparse, hsections]
        rfl
      rw [hverify, hrecompute]
      simp
  | ok r =>
      rcases r with ⟨⟨sections, slices⟩, c⟩
      have hsections' := hsections
      rw [hparse] at hsections'
      rcases parseRequiredSections_decodes.sound hsections' with ⟨⟨hminimal, hslices⟩, -⟩
      rcases parseSections_decodes.sound hsections with ⟨⟨hrange, -⟩, -⟩
      dsimp only at hminimal hslices hrange
      subst hslices
      have hrecompute := parseAndRecomputeRoot_eq hminimal hsections'
      have hverify : verifyBytes buf = .ok (sections.report c.remainingLen) := by
        unfold verifyBytes
        rw [hsections]
        exact reportSections_eq_ok hrange _
      rw [hverify, hrecompute]
      refine ⟨fun root extra => ?_, by simp⟩
      constructor
      · intro heq
        rcases Prod.mk.inj (Except.ok.inj heq) with ⟨hbytes, hextra⟩
        have hroot : sections.root = root := by
          cases root
          exact ManifestRoot.mk.injEq .. ▸ hbytes
        exact ⟨_, rfl, congrArg ManifestRoot.toText hroot, hextra⟩
      · rintro ⟨_, ⟨⟩, htext, rfl⟩
        have hroot : sections.root = root := ManifestRoot.toText_inj htext
        rw [← hroot]
        rfl

end Root

open scoped Reference in
theorem recompute_built_iff_minimal :
    ∃ artifact, buildManifest minimalV01Spec = .ok artifact ∧
      (∀ r, parseAndRecomputeRoot artifact.bytes = .ok r ↔
        minimalV01Spec.Readable ∧ r = (artifact.merkleRoot.bytes, 0)) ∧
      (¬ minimalV01Spec.Readable →
        ∃ pe, parseAndRecomputeRoot artifact.bytes = .error (.parse pe)) := by
  rcases minimalV01Spec_inRange.exists_artifact with ⟨_, hbuild⟩
  exact ⟨_, hbuild, recompute_built_iff hbuild⟩

open scoped Reference in
theorem built_lookups_minimal :
    ∃ artifact, buildManifest minimalV01WithFlagsSpec = .ok artifact ∧
      ∃ sections c, parseRequiredSections (.start artifact.bytes) =
          .ok ((sections, sections.slices), c) ∧
        (∀ flagId flag, sections.flags.get flagId = some flag ↔
          ∃ flagSpec ∈ minimalV01WithFlagsSpec.featureFlags,
            flagSpec.flagId = flagId ∧ flagSpec.toFlag = flag) ∧
        (∀ flagId, sections.flags.isRequired flagId ↔
          ⟨flagId, true⟩ ∈ minimalV01WithFlagsSpec.featureFlags) ∧
        ∀ slabId entry, sections.slabIndex.find slabId = some entry ↔
          ∃ entrySpec ∈ minimalV01WithFlagsSpec.slabIndex,
            entrySpec.slabId = slabId ∧ entrySpec.toEntry = entry := by
  rcases minimalV01WithFlagsSpec_inRange.exists_artifact with ⟨_, hbuild⟩
  exact ⟨_, hbuild, built_lookups hbuild minimalV01WithFlagsSpec_inRange.readable⟩

open scoped Reference in
theorem recompute_agrees_small :
    (∀ (root : ManifestRoot) (extra : Nat),
      parseAndRecomputeRoot (Reference.small.wire ++ [7]) = .ok (root.bytes, extra) ↔
        ∃ report, verifyBytes (Reference.small.wire ++ [7]) = .ok report ∧
          report.merkleRoot = root.toText ∧ report.extraBytesAfterHistory = extra) ∧
    ∀ e, parseAndRecomputeRoot (Reference.small.wire ++ [7]) = .error e ↔
      verifyBytes (Reference.small.wire ++ [7]) = .error e := by
  refine recompute_agrees fun flags hflags => ?_
  rw [declaredFlags_wire Reference.small_inRange.toRequiredInRange] at hflags
  cases hflags
  exact ⟨rfl, rfl⟩

end LimniFs
