import LimniFs.BuilderOutcome

/-!
# BuilderSections — the builder, one section at a time

`build` writes into one buffer and cuts the slices that it hashes out of it.  Here the five encoders
run each on a buffer of its own, the header through `ManifestHeader.to_bytes` and the hashes through
`section_hashes_minimal`, and what they give together is the artifact.
-/

namespace LimniFs

open Wire

/-- `ManifestHeader.to_bytes()` -/
def ManifestHeader.toBytes (h : ManifestHeader) : Except Exn Bytes := do
  -- `pack("<HHH", ...)`
  let dropStoreVersion ← pack 2 h.dropStoreVersion
  let metadataVersion ← pack 2 h.metadataVersion
  let manifestVersion ← pack 2 h.manifestVersion
  return manifestMagic ++ (dropStoreVersion ++ metadataVersion ++ manifestVersion) ++
    List.replicate 6 0

theorem pack_eq_ok_iff {width n : Nat} {bs : Bytes} :
    pack width n = .ok bs ↔ n < 256 ^ width ∧ toLe width n = bs := by
  unfold pack
  by_cases hlt : n < 256 ^ width
  · simp [hlt]
  · simp [hlt]

theorem ManifestHeader.toBytes_eq_ok_iff {h : ManifestHeader} {bs : Bytes} :
    h.toBytes = .ok bs ↔ h.InRange ∧ bs = h.wire := by
  unfold toBytes
  constructor
  · intro hok
    rcases bind_eq_ok_iff.1 hok with ⟨d, hd, hok⟩
    rcases bind_eq_ok_iff.1 hok with ⟨m, hm, hok⟩
    rcases bind_eq_ok_iff.1 hok with ⟨v, hv, hok⟩
    rcases pack_eq_ok_iff.1 hd with ⟨hdlt, rfl⟩
    rcases pack_eq_ok_iff.1 hm with ⟨hmlt, rfl⟩
    rcases pack_eq_ok_iff.1 hv with ⟨hvlt, rfl⟩
    cases hok
    exact ⟨⟨hdlt, hmlt, hvlt⟩, by simp [wire]⟩
  · rintro ⟨hrange, rfl⟩
    refine bind_eq_ok_iff.2 ⟨_, pack_eq_ok_iff.2 ⟨hrange.dropStoreVersion, rfl⟩, ?_⟩
    refine bind_eq_ok_iff.2 ⟨_, pack_eq_ok_iff.2 ⟨hrange.metadataVersion, rfl⟩, ?_⟩
    refine bind_eq_ok_iff.2 ⟨_, pack_eq_ok_iff.2 ⟨hrange.manifestVersion, rfl⟩, ?_⟩
    have hwire : h.wire = manifestMagic ++ (toLe 2 h.dropStoreVersion ++
        toLe 2 h.metadataVersion ++ toLe 2 h.manifestVersion) ++ List.replicate 6 0 := by
      simp [wire]
    rw [hwire]
    rfl

section Builder

variable [Blake3]

/-- `section_hashes_minimal`: the slots of the optional sections hold the empty-section digest. -/
def sectionHashesMinimal (metadata formatHeader featureFlags metadataReference slabIndex
    history : Bytes) : Except Exn SectionHashes :=
  SectionHashes.make metadata formatHeader featureFlags metadataReference slabIndex
    hashEmptySection hashEmptySection hashEmptySection hashEmptySection history

/-- Every encoder writes its section on its own, and the artifact is these sections in a row with
the root of their hashes. -/
def ManifestSpec.WrittenSectionwise (spec : ManifestSpec) (reference : MetadataReferenceSpec)
    (artifact : ManifestArtifact) : Prop :=
  ∃ header flags metadataHash metadataReference slabIndex history,
    spec.header.toHeader.toBytes = .ok header ∧
    encodeFeatureFlags spec.featureFlags [] = .ok ((), flags) ∧
    encodeMetadataReference reference [] = .ok (metadataHash, metadataReference) ∧
    encodeSlabIndex spec.slabIndex [] = .ok ((), slabIndex) ∧
    encodeHistory spec.history [] = .ok ((), history) ∧
    sectionHashesMinimal metadataHash (hashSection header) (hashSection flags)
      (hashSection metadataReference) (hashSection slabIndex) (hashSection history) =
        .ok artifact.sectionHashes ∧
    computeMerkleRoot artifact.sectionHashes = .ok artifact.merkleRoot ∧
    artifact.bytes = header ++ (flags ++ (metadataReference ++ (slabIndex ++ history)))

/-- The builder makes the artifacts that are written section by section, and no others. -/
theorem buildManifest_sectionwise {spec : ManifestSpec} {reference : MetadataReferenceSpec}
    (href : spec.metadataReference = some reference) (hne : spec.history ≠ [])
    (artifact : ManifestArtifact) :
    buildManifest spec = .ok artifact ↔ spec.WrittenSectionwise reference artifact := by
  constructor
  · intro hbuild
    rcases exists_buildable hbuild with ⟨reference', h, rfl⟩
    obtain rfl : reference = reference' := Option.some.inj (href.symm.trans h.reference_eq)
    have hpack := h.packable
    exact ⟨_, _, _, _, _, _, ManifestHeader.toBytes_eq_ok_iff.2 ⟨hpack.header, rfl⟩,
      (encodeFeatureFlags_emitsIf _).run_nil.2 ⟨⟨hpack.flags_lt, hpack.flags⟩, rfl, rfl⟩,
      (encodeMetadataReference_emitsIf _).run_nil.2
        ⟨hpack.reference reference h.reference_eq, rfl, rfl⟩,
      (encodeSlabIndex_emitsIf _).run_nil.2 ⟨⟨hpack.slabIndex_lt, hpack.slabIndex⟩, rfl, rfl⟩,
      (encodeHistory_emitsIf _).run_nil.2 ⟨⟨hpack.history_lt, hpack.history⟩, rfl, rfl⟩,
      make_built h, computeMerkleRoot_eq_ok _, (concat_built h).symm⟩
  · rintro ⟨header, flags, metadataHash, metadataReference, slabIndex, history, hheader, hflags,
      hreference, hslabIndex, hhistory, hhashes, hroot, hbytes⟩
    rcases ManifestHeader.toBytes_eq_ok_iff.1 hheader with ⟨hheaderFits, rfl⟩
    rcases (encodeFeatureFlags_emitsIf _).run_nil.1 hflags with ⟨hflagsFit, -, rfl⟩
    rcases (encodeMetadataReference_emitsIf _).run_nil.1 hreference with ⟨hrefFits, rfl, rfl⟩
    rcases (encodeSlabIndex_emitsIf _).run_nil.1 hslabIndex with ⟨hindexFits, -, rfl⟩
    rcases (encodeHistory_emitsIf _).run_nil.1 hhistory with ⟨hhistoryFits, -, rfl⟩
    have hpack : spec.Packable := by
      refine ⟨hheaderFits, hflagsFit.1, hflagsFit.2, ?_, hindexFits.1, hindexFits.2,
        hhistoryFits.1, hhistoryFits.2⟩
      rintro reference' href'
      obtain rfl : reference = reference' := Option.some.inj (href.symm.trans href')
      exact hrefFits
    have hlen : reference.metadataHash.length = 32 := by
      by_contra hbad
      cases (make_eq_error hbad ..).symm.trans hhashes
    have h : spec.Buildable reference := ⟨href, hne, hpack, hlen⟩
    have hsame : h.sections.hashes = artifact.sectionHashes :=
      Except.ok.inj ((make_built h).symm.trans hhashes)
    have hrootSame : h.sections.root = artifact.merkleRoot := by
      rw [← hsame] at hroot
      exact Except.ok.inj ((computeMerkleRoot_eq_ok _).symm.trans hroot)
    have hartifact : artifact = h.sections.artifact := by
      rcases artifact with ⟨bytes, merkleRoot, sectionHashes⟩
      dsimp only at hsame hrootSame hbytes
      rw [hbytes, ← hsame, ← hrootSame]
      exact congrArg (fun bytes => ManifestArtifact.mk bytes _ _) (concat_built h)
    rw [hartifact]
    exact buildManifest_of_buildable h

end Builder

open scoped Reference in
theorem buildManifest_sectionwise_minimal :
    ∃ artifact, buildManifest minimalV01Spec = .ok artifact ∧
      minimalV01Spec.WrittenSectionwise (.external (List.replicate 32 0xAA)
        ["file:///var/lib/limnifs/metadata.bin"]) artifact := by
  rcases minimalV01Spec_inRange.exists_artifact with ⟨_, hbuild⟩
  have hne : minimalV01Spec.history ≠ [] := by
    simp [minimalV01Spec]
  exact ⟨_, hbuild, (buildManifest_sectionwise rfl hne _).1 hbuild⟩

end LimniFs
