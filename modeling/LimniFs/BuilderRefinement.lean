import LimniFs.BuilderOutcome
import LimniFs.Canonical

/-!
# BuilderRefinement — builder and verifier as two sides of one format

Builder and verifier check complementary things.  On specs without optional flags the verifier is
the partial inverse of the builder: the artifacts that it accepts and the accepted manifests that
the builder could have written are both described exactly.
-/

namespace LimniFs

open Wire

/-! ## Which artifacts the verifier accepts -/

theorem slabKeys_nodup_iff (specs : List SlabIndexEntrySpec) :
    ((specs.map SlabIndexEntrySpec.toEntry).map SlabIndexEntry.key).Nodup ↔
      (specs.map SlabIndexEntrySpec.slabId).Nodup := by
  have hkeys : (specs.map SlabIndexEntrySpec.toEntry).map SlabIndexEntry.key =
      (specs.map SlabIndexEntrySpec.slabId).map fun id => (id.ordinal, id.hash) := by
    rw [List.map_map, List.map_map]
    rfl
  rw [hkeys]
  exact List.nodup_map_iff fun a b hab => SlabId.ext_iff'.2 (Prod.mk.inj hab)

theorem Sections.RequiredInRange.packable [UnicodeData] {sections : Sections}
    (h : sections.RequiredInRange) : sections.Packable where
  header := h.header
  flags_lt := h.flags.length_lt
  flags := fun flag hflag => (h.flags.entries flag hflag).flagId_lt
  metadataReference := by
    refine ⟨⟨h.metadataReference.locators_lt, fun entry hentry =>
      (h.metadataReference.locators entry hentry).length_lt⟩, ?_, ?_⟩
    · cases hinline : sections.metadataReference.inlineMetadata with
      | none =>
          simp [MetadataReference.inlineLen]
      | some blob =>
          exact (h.metadataReference.inline blob hinline).2.1
    · exact fun hempty => (h.metadataReference.inline [] hempty).1 rfl
  slabIndex_lt := h.slabIndex.length_lt
  slabIndex := by
    intro entry hentry
    have hrange := h.slabIndex.entries entry hentry
    exact ⟨hrange.locators_lt, fun locator hlocator => (hrange.locators locator hlocator).length_lt⟩
  history_lt := h.history.length_lt
  history := fun entry hentry =>
    have hrange := h.history.entries entry hentry
    ⟨hrange.timestampNs_lt, hrange.inputs_lt, hrange.params_lt⟩

theorem Sections.InRange.packableWith [UnicodeData] {sections : Sections} (h : sections.InRange) :
    sections.PackableWith FeatureFlags.hasEc FeatureFlags.hasDms where
  toPackable := h.toRequiredInRange.packable
  ecParams := ⟨h.ecParams_isSome, h.ecParams⟩
  dmsPolicy := ⟨h.dmsPolicy_isSome, h.dmsPolicy⟩

section Builder

variable [Blake3]

/-- A flag that a spec does not declare is not among the flags of its sections. -/
theorem get_sections_eq_none {spec : ManifestSpec} {reference : MetadataReferenceSpec}
    (h : spec.Buildable reference) {flagId : Nat} (hdecl : ¬ spec.Declares flagId) :
    h.sections.flags.get flagId = none := by
  unfold FeatureFlags.get
  rw [List.find?_eq_none]
  intro flag hflag
  rcases List.mem_map.1 hflag with ⟨flagSpec, hmem, rfl⟩
  simp only [decide_eq_true_eq]
  exact fun heq => hdecl ⟨flagSpec, hmem, heq⟩

variable [UnicodeData]

/-- What the verifier asks of a reference beyond what the builder checks. -/
structure MetadataReferenceSpec.Readable (spec : MetadataReferenceSpec) : Prop where
  locators : ∀ entry ∈ toLocators spec.locators, entry.Accepted defaultLocatorMaxUriBytes
  inline_le : ∀ blob ∈ spec.inlineMetadata, blob.length ≤ defaultInlineMetadataMaxBytes
  reachable : ¬ (spec.locators = [] ∧ spec.inlineMetadata.getD [] = [])

/-- What the verifier asks of a spec beyond what the builder checks. -/
structure ManifestSpec.Readable (spec : ManifestSpec) : Prop where
  flags : ∀ flag ∈ spec.featureFlags, flag.flagId ≠ 0
  flags_nodup : (spec.featureFlags.map FeatureFlagSpec.flagId).Nodup
  reference : ∀ reference ∈ spec.metadataReference, reference.Readable
  slabIndex : ∀ entry ∈ spec.slabIndex, entry.locators ≠ [] ∧
    ∀ locator ∈ toLocators entry.locators, locator.Accepted defaultLocatorMaxUriBytes
  slabIndex_nodup : (spec.slabIndex.map SlabIndexEntrySpec.slabId).Nodup
  history : ∀ entry ∈ spec.history, entry.params.length ≤ defaultHistoryParamsMaxBytes

theorem toReference_inRange_iff {spec : MetadataReferenceSpec} (h : spec.Packable)
    (hlen : spec.metadataHash.length = 32) :
    (spec.toReference hlen).InRange defaultLocatorMaxUriBytes defaultInlineMetadataMaxBytes ↔
      spec.Readable := by
  have hnone : (spec.toReference hlen).inlineMetadata = none ↔
      spec.inlineMetadata.getD [] = [] := by
    unfold MetadataReferenceSpec.toReference
    rcases spec.inlineMetadata with _ | _ | _ <;> simp [Option.filter]
  have hnil : (spec.toReference hlen).locators = [] ↔ spec.locators = [] :=
    List.map_eq_nil_iff
  constructor
  · intro hrange
    refine ⟨hrange.locators, ?_, ?_⟩
    · intro blob hblob
      -- An empty blob is within the ceiling, and the others are on the wire.
      rcases blob with _ | ⟨byte, blob⟩
      · exact Nat.zero_le _
      · have hfilter : byte :: blob ∈ (spec.toReference hlen).inlineMetadata := by
          simpa [MetadataReferenceSpec.toReference] using hblob
        exact (hrange.inline _ hfilter).2.2
    · rw [← hnil, ← hnone]
      exact hrange.reachable
  · intro hread
    refine ⟨h.1.1, hread.locators, ?_, ?_⟩
    · intro blob hblob
      have hmem : blob ∈ spec.inlineMetadata ∧ blob ≠ [] := by
        simpa [MetadataReferenceSpec.toReference] using hblob
      have hlt := h.2
      rw [Option.mem_def.1 hmem.1] at hlt
      exact ⟨hmem.2, hlt, hread.inline_le blob hmem.1⟩
    · rw [hnil, hnone]
      exact hread.reachable

/-- The sections of a buildable spec are what the reader accepts when the spec is readable: the
builder and the reader check complementary things. -/
theorem requiredInRange_iff {spec : ManifestSpec} {reference : MetadataReferenceSpec}
    (h : spec.Buildable reference) : h.sections.RequiredInRange ↔ spec.Readable := by
  have href := toReference_inRange_iff (h.packable.reference reference h.reference_eq)
    h.length_hash
  constructor
  · rintro ⟨-, hflags, hreference, hslabIndex, hhistory⟩
    refine ⟨?_, ?_, ?_, ?_, (slabKeys_nodup_iff _).1 hslabIndex.nodup, ?_⟩
    · exact fun flag hflag => (hflags.entries _ (List.mem_map_of_mem hflag)).flagId_ne_zero
    · have hnodup := hflags.nodup
      rwa [show h.sections.flags.entries = spec.featureFlags.map FeatureFlagSpec.toFlag from rfl,
        List.map_map] at hnodup
    · intro reference' href'
      obtain rfl : reference = reference' := Option.some.inj (h.reference_eq.symm.trans href')
      exact href.1 hreference
    · intro entry hentry
      have hrange := hslabIndex.entries _ (List.mem_map_of_mem hentry)
      refine ⟨fun hnil => hrange.locators_ne ?_, hrange.locators⟩
      simp [SlabIndexEntrySpec.toEntry, toLocators, hnil]
    · exact fun entry hentry => (hhistory.entries _ (List.mem_map_of_mem hentry)).params_le
  · intro hread
    have hpack := Buildable.packable h
    refine ⟨hpack.header, ⟨hpack.flags_lt, ?_, ?_⟩, href.2 (hread.reference _ h.reference_eq),
      ⟨hpack.slabIndex_lt, ?_, (slabKeys_nodup_iff _).2 hread.slabIndex_nodup⟩,
      ⟨hpack.history_lt, ?_, ?_⟩⟩
    · intro flag hflag
      rcases List.mem_map.1 hflag with ⟨flagSpec, hmem, rfl⟩
      exact ⟨h.packable.flags flagSpec hmem, hread.flags flagSpec hmem⟩
    · rw [show h.sections.flags.entries = spec.featureFlags.map FeatureFlagSpec.toFlag from rfl,
        List.map_map]
      exact hread.flags_nodup
    · intro entry hentry
      rcases List.mem_map.1 hentry with ⟨entrySpec, hmem, rfl⟩
      rcases hread.slabIndex entrySpec hmem with ⟨hne, haccepted⟩
      refine ⟨(h.packable.slabIndex entrySpec hmem).1, fun hzero => hne ?_, haccepted⟩
      exact List.map_eq_nil_iff.1 (List.length_eq_zero_iff.1 hzero)
    · exact fun hzero => h.history_ne (List.map_eq_nil_iff.1 (List.length_eq_zero_iff.1 hzero))
    · intro entry hentry
      rcases List.mem_map.1 hentry with ⟨entrySpec, hmem, rfl⟩
      have hfits := h.packable.history entrySpec hmem
      exact ⟨hfits.timestampNs_lt, hfits.inputs_lt, hfits.params_lt, hread.history entrySpec hmem⟩

/-- An artifact of a spec without optional flags is accepted exactly when the spec is readable, and
then it is read as the sections of the spec, with the builder's root and nothing left over; every
other one is refused with a `ParseError`. -/
theorem verify_built_iff {spec : ManifestSpec} {artifact : ManifestArtifact}
    (hbuild : buildManifest spec = .ok artifact) (hec : ¬ spec.Declares flagEc)
    (hdms : ¬ spec.Declares flagDms) :
    (∀ report, verifyBytes artifact.bytes = .ok report ↔ spec.Readable ∧
      ∃ reference, ∃ h : spec.Buildable reference, report = h.sections.report 0 ∧
        report.merkleRoot = artifact.merkleRoot.toText) ∧
    (¬ spec.Readable → ∃ pe, verifyBytes artifact.bytes = .error (.parse pe)) := by
  rcases exists_buildable hbuild with ⟨reference, h, rfl⟩
  have hecNone : h.sections.flags.hasEc = false := by
    simp [FeatureFlags.hasEc, get_sections_eq_none h hec]
  have hdmsNone : h.sections.flags.hasDms = false := by
    simp [FeatureFlags.hasDms, get_sections_eq_none h hdms]
  have hrange : spec.Readable → h.sections.InRange := fun hread =>
    { (requiredInRange_iff h).2 hread with
      ecParams_isSome := hecNone.symm
      ecParams := (Buildable.packableWith h).ecParams.2
      dmsPolicy_isSome := hdmsNone.symm
      dmsPolicy := (Buildable.packableWith h).dmsPolicy.2 }
  have hpack : h.sections.PackableWith FeatureFlags.hasEc FeatureFlags.hasDms :=
    { Buildable.packableWith h with
      ecParams := ⟨hecNone.symm, (Buildable.packableWith h).ecParams.2⟩
      dmsPolicy := ⟨hdmsNone.symm, (Buildable.packableWith h).dmsPolicy.2⟩ }
  -- An accepted artifact begins with an encoding, which is that of the spec: nothing is left over.
  have haccepted : ∀ report, verifyBytes h.sections.artifact.bytes = .ok report →
      spec.Readable ∧ report = h.sections.report 0 := by
    intro report hverify
    rcases verifyBytes_eq_ok_iff.1 hverify with ⟨sections, tail, hsections, hbytes, rfl⟩
    have hwire : h.sections.wire ++ [] = sections.wire ++ tail := by
      rw [List.append_nil]
      exact hbytes
    rcases Sections.prefixCode _ _ hpack (Sections.InRange.packableWith hsections) hwire
      with ⟨hsame, rfl⟩
    exact ⟨(requiredInRange_iff h).1 (hsame ▸ hsections.toRequiredInRange), by rw [hsame]; rfl⟩
  refine ⟨fun report => ⟨fun hverify => ?_, ?_⟩, fun hnot => ?_⟩
  · rcases haccepted report hverify with ⟨hread, rfl⟩
    exact ⟨hread, reference, h, rfl, rfl⟩
  · rintro ⟨hread, reference', h', rfl, -⟩
    have hverify := verifyBytes_append (hrange hread) []
    rw [List.append_nil] at hverify
    obtain rfl : reference = reference' :=
      Option.some.inj (h.reference_eq.symm.trans h'.reference_eq)
    exact hverify
  · cases hverify : verifyBytes h.sections.artifact.bytes with
    | ok report =>
        exact absurd (haccepted report hverify).1 hnot
    | error e =>
        rcases verifyBytes_raises hverify with ⟨pe, rfl⟩
        exact ⟨pe, rfl⟩

end Builder

/-- A spec in the format's range is readable. -/
theorem ManifestSpec.InRange.readable [UnicodeData] {spec : ManifestSpec} (h : spec.InRange) :
    spec.Readable where
  flags flag hflag := Nat.ne_of_gt (h.flags flag hflag).1
  flags_nodup := h.flags_nodup
  reference := by
    intro reference href
    rcases h.metadataReference with ⟨reference', href', hrange⟩
    obtain rfl : reference' = reference := Option.some.inj (href'.symm.trans href)
    cases reference' with
    | external metadataHash locators =>
        rcases hrange with ⟨-, hne, -, huris⟩
        exact ⟨accepted_of_uris huris, by simp [MetadataReferenceSpec.inlineMetadata],
          fun hnot => hne hnot.1⟩
    | inlined metadata =>
        refine ⟨accepted_of_uris (by simp [MetadataReferenceSpec.locators]), ?_, ?_⟩
        · rintro _ ⟨⟩
          exact hrange.2
        · rintro ⟨-, hnil⟩
          have hpos := hrange.1
          rw [show metadata = [] from hnil] at hpos
          cases hpos
  slabIndex := by
    intro entry hentry
    have hrange := h.slabIndex entry hentry
    exact ⟨hrange.locators_ne, accepted_of_uris hrange.locators⟩
  slabIndex_nodup := h.slabIndex_nodup
  history entry hentry := (h.history entry hentry).params_le

open scoped Reference in
theorem verify_built_iff_minimal :
    ∃ artifact, buildManifest minimalV01Spec = .ok artifact ∧
      (∀ report, verifyBytes artifact.bytes = .ok report ↔ minimalV01Spec.Readable ∧
        ∃ reference, ∃ h : minimalV01Spec.Buildable reference, report = h.sections.report 0 ∧
          report.merkleRoot = artifact.merkleRoot.toText) ∧
      (¬ minimalV01Spec.Readable → ∃ pe, verifyBytes artifact.bytes = .error (.parse pe)) := by
  rcases minimalV01Spec_inRange.exists_artifact with ⟨_, hbuild⟩
  exact ⟨_, hbuild, verify_built_iff hbuild (by rintro ⟨_, ⟨⟩, -⟩) (by rintro ⟨_, ⟨⟩, -⟩)⟩

/-! ## Which manifests the builder could have written -/

/-- The reference spec that says what a reference says: with inline bytes an inlined one. -/
def MetadataReference.toSpec (reference : MetadataReference) : MetadataReferenceSpec :=
  match reference.inlineMetadata with
  | none => .external reference.metadataHash (reference.locators.map LocatorEntry.uri)
  | some blob => .inlined blob

def Sections.toSpec (sections : Sections) : ManifestSpec where
  header := sections.header.toSpec
  featureFlags := sections.flags.entries.map FeatureFlag.toSpec
  metadataReference := some sections.metadataReference.toSpec
  slabIndex := sections.slabIndex.entries.map SlabIndexEntry.toSpec
  history := sections.history.entries.map HistoryEntry.toSpec

theorem map_toFlag_toSpec (flags : List FeatureFlag) :
    (flags.map FeatureFlag.toSpec).map FeatureFlagSpec.toFlag = flags := by
  simp [Function.comp_def, FeatureFlagSpec.toFlag, FeatureFlag.toSpec]

theorem map_toEntry_toSpec (entries : List SlabIndexEntry) :
    (entries.map SlabIndexEntry.toSpec).map SlabIndexEntrySpec.toEntry = entries := by
  simp [Function.comp_def, SlabIndexEntry.toEntry_toSpec]

theorem map_toEntry_history (entries : List HistoryEntry) :
    (entries.map HistoryEntry.toSpec).map HistoryEntrySpec.toEntry = entries := by
  simp [Function.comp_def, HistoryEntry.toEntry_toSpec]

section Builder

variable [Blake3]

/-- The builder hashes what it inlines, and adds no locators to it. -/
def MetadataReference.FromBuilder (reference : MetadataReference) : Prop :=
  ∀ blob ∈ reference.inlineMetadata,
    reference.locators = [] ∧ reference.metadataHash = hashSection blob

theorem toReference_fromBuilder (spec : MetadataReferenceSpec)
    (hlen : spec.metadataHash.length = 32) : (spec.toReference hlen).FromBuilder := by
  intro blob hblob
  have hmem : blob ∈ spec.inlineMetadata ∧ blob ≠ [] := by
    simpa [MetadataReferenceSpec.toReference] using hblob
  cases spec with
  | external metadataHash locators =>
      cases hmem.1
  | inlined metadata =>
      cases hmem.1
      exact ⟨rfl, rfl⟩

/-- A reference as the builder writes it is read back from its spec. -/
theorem MetadataReference.toReference_toSpec {reference : MetadataReference}
    (h : reference.Packable) (hfrom : reference.FromBuilder) :
    ∃ hlen : reference.toSpec.metadataHash.length = 32,
      reference.toSpec.toReference hlen = reference ∧ reference.toSpec.Packable := by
  rcases reference with ⟨metadataHash, locators, _ | blob, hlen⟩
  · refine ⟨hlen, ?_, ?_, Nat.two_pow_pos 32⟩
    · simp [toSpec, MetadataReferenceSpec.toReference, MetadataReferenceSpec.metadataHash,
        MetadataReferenceSpec.locators, MetadataReferenceSpec.inlineMetadata, toLocators_map_uri]
    · have hlocators := h.locators
      rwa [← toLocators_map_uri locators] at hlocators
  -- Inline bytes are not empty, name their own hash and stand without locators.
  · rcases hfrom blob rfl with ⟨hnil, hhash⟩
    have hne : blob ≠ [] := fun hempty => h.inline_ne (congrArg some hempty)
    dsimp only at hnil hhash
    subst hnil hhash
    refine ⟨length_hashSection blob, ?_, ⟨Nat.two_pow_pos 32, by simp [toLocators, toSpec,
      MetadataReferenceSpec.locators]⟩, h.inline_lt⟩
    simp [toSpec, MetadataReferenceSpec.toReference, MetadataReferenceSpec.metadataHash,
      MetadataReferenceSpec.locators, MetadataReferenceSpec.inlineMetadata, toLocators, hne,
      Option.filter]

variable [UnicodeData]

/-- Accepted sections without optional ones come from the builder when their reference does. -/
theorem exists_buildable_of_inRange {sections : Sections} (h : sections.InRange)
    (hec : sections.ecParams = none) (hdms : sections.dmsPolicy = none)
    (hfrom : sections.metadataReference.FromBuilder) :
    ∃ reference, ∃ hb : sections.toSpec.Buildable reference, hb.sections = sections := by
  have hpack := Sections.InRange.packableWith h
  rcases MetadataReference.toReference_toSpec hpack.metadataReference hfrom with
    ⟨hlen, hsame, hreference⟩
  have hb : sections.toSpec.Buildable sections.metadataReference.toSpec := by
    refine ⟨rfl, ?_, ⟨hpack.header, ?_, ?_, ?_, ?_, ?_, ?_, ?_⟩, hlen⟩
    · intro hnil
      have hentries := map_toEntry_history sections.history.entries
      rw [show sections.history.entries.map HistoryEntry.toSpec = [] from hnil] at hentries
      exact h.history.length_ne (by rw [← hentries]; rfl)
    · simpa [Sections.toSpec] using hpack.flags_lt
    · intro flag hflag
      rcases List.mem_map.1 hflag with ⟨entry, hmem, rfl⟩
      exact hpack.flags entry hmem
    · rintro _ ⟨⟩
      exact hreference
    · simpa [Sections.toSpec] using hpack.slabIndex_lt
    · intro entry hentry
      rcases List.mem_map.1 hentry with ⟨entry', hmem, rfl⟩
      have hlocators := hpack.slabIndex entry' hmem
      rwa [← SlabIndexEntry.toEntry_toSpec entry'] at hlocators
    · simpa [Sections.toSpec] using hpack.history_lt
    · intro entry hentry
      rcases List.mem_map.1 hentry with ⟨entry', hmem, rfl⟩
      rw [HistoryEntry.toEntry_toSpec]
      exact hpack.history entry' hmem
  refine ⟨_, hb, ?_⟩
  unfold ManifestSpec.Buildable.sections ManifestSpec.toSections Sections.toSpec
  dsimp only
  rw [hsame, map_toFlag_toSpec, map_toEntry_toSpec, map_toEntry_history, ← hec, ← hdms]
  rfl

/-- An accepted manifest whose flags declare no optional section is one that the builder could have
written exactly when its inline bytes, if any, are the ones it names and stand without locators. -/
theorem exists_built_iff {buf : Bytes} {report : Report} (h : verifyBytes buf = .ok report)
    (hflags : ∀ flag ∈ report.featureFlags, flag.flagId ≠ flagEc ∧ flag.flagId ≠ flagDms) :
    (∃ spec artifact, buildManifest spec = .ok artifact ∧
        artifact.bytes = consumed buf report ∧ artifact.merkleRoot.toText = report.merkleRoot) ↔
      ∃ sections cursor, parseSections (.start buf) = .ok ((sections, sections.slices), cursor) ∧
        sections.metadataReference.FromBuilder := by
  rcases exists_sections_of_verifyBytes h with
    ⟨sections, tail, cursor, hrange, -, rfl, -, hconsumed, hparse, -⟩
  have hnone : ∀ flagId, (∀ flag ∈ sections.flags.entries, flag.flagId ≠ flagId) →
      sections.flags.get flagId = none := by
    intro flagId hne
    unfold FeatureFlags.get
    rw [List.find?_eq_none]
    exact fun flag hflag => by simpa using hne flag hflag
  have hecNone : sections.flags.hasEc = false := by
    simp [FeatureFlags.hasEc, hnone flagEc fun flag hflag => (hflags flag hflag).1]
  have hdmsNone : sections.flags.hasDms = false := by
    simp [FeatureFlags.hasDms, hnone flagDms fun flag hflag => (hflags flag hflag).2]
  have hpack : sections.PackableWith (fun _ => false) fun _ => false :=
    { Sections.InRange.packableWith hrange with
      ecParams := ⟨hrange.ecParams_isSome.trans hecNone, hrange.ecParams⟩
      dmsPolicy := ⟨hrange.dmsPolicy_isSome.trans hdmsNone, hrange.dmsPolicy⟩ }
  rw [hconsumed]
  constructor
  · rintro ⟨spec, artifact, hbuild, hbytes, -⟩
    rcases exists_buildable hbuild with ⟨reference, hb, rfl⟩
    -- The same bytes are the same sections, and those of a spec have such a reference.
    have hsame : hb.sections = sections :=
      (Sections.prefixCode _ _).inj (Buildable.packableWith hb) hpack hbytes
    exact ⟨sections, cursor, hparse, hsame ▸ toReference_fromBuilder reference hb.length_hash⟩
  · rintro ⟨sections', cursor', hparse', hfrom⟩
    cases hparse.symm.trans hparse'
    have hec : sections.ecParams = none :=
      Option.isNone_iff_eq_none.1 (Option.isSome_eq_false_iff.1 hpack.ecParams.1)
    have hdms : sections.dmsPolicy = none :=
      Option.isNone_iff_eq_none.1 (Option.isSome_eq_false_iff.1 hpack.dmsPolicy.1)
    rcases exists_buildable_of_inRange hrange hec hdms hfrom with ⟨reference, hb, hsame⟩
    refine ⟨_, _, buildManifest_of_buildable hb, ?_, ?_⟩
    · exact congrArg Sections.wire hsame
    · exact congrArg (fun sections : Sections => sections.root.toText) hsame

end Builder

open scoped Reference in
theorem exists_built_iff_small :
    verifyBytes Reference.small.wire = .ok (Reference.small.report 0) ∧
      ((∃ spec artifact, buildManifest spec = .ok artifact ∧
          artifact.bytes = consumed Reference.small.wire (Reference.small.report 0) ∧
          artifact.merkleRoot.toText = (Reference.small.report 0).merkleRoot) ↔
        ∃ sections cursor, parseSections (.start Reference.small.wire) =
            .ok ((sections, sections.slices), cursor) ∧
          sections.metadataReference.FromBuilder) := by
  have hverify := verifyBytes_append Reference.small_inRange []
  rw [List.append_nil] at hverify
  exact ⟨hverify, exists_built_iff hverify (by rintro _ ⟨⟩)⟩

end LimniFs
