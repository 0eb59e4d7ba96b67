import LimniFs.Binding
import LimniFs.RoundTrip
import LimniFs.SpecEncoding

/-!
# BuilderOutcome — what the builder does with a spec

When it succeeds and with which error it fails, which specs it writes alike, and what the root of an
artifact says about the spec.
-/

namespace LimniFs

open Wire

/-! ## The sections of a spec -/

theorem inlineLen_filter (inlineMetadata : Option Bytes) :
    MetadataReference.inlineLen (inlineMetadata.filter fun blob => !blob.isEmpty) =
      MetadataReference.inlineLen inlineMetadata := by
  rcases inlineMetadata with _ | _ | _ <;> rfl

theorem getD_filter (inlineMetadata : Option Bytes) :
    (inlineMetadata.filter fun blob => !blob.isEmpty).getD [] = inlineMetadata.getD [] := by
  rcases inlineMetadata with _ | _ | _ <;> rfl

theorem toLocators_inj {uris uris' : List String} :
    toLocators uris = toLocators uris' ↔ uris = uris' := by
  refine ⟨fun h => ?_, fun h => h ▸ rfl⟩
  have huris := congrArg (List.map LocatorEntry.uri) h
  simpa [toLocators, Function.comp_def] using huris

theorem make_eq_ok {spec : ManifestSpec} {reference : MetadataReferenceSpec}
    (href : spec.metadataReference = some reference) (hne : spec.history ≠ []) :
    ManifestBuilder.make spec = .ok ⟨spec, by simp [href], hne⟩ := by
  have hsome : spec.metadataReference.isSome := by
    simp [href]
  unfold ManifestBuilder.make
  rw [dif_pos hsome, dif_pos hne]

theorem FeatureFlagSpec.toFlag_injective : Function.Injective FeatureFlagSpec.toFlag := by
  rintro ⟨_, _⟩ ⟨_, _⟩ heq
  cases heq
  rfl

theorem SlabIndexEntrySpec.toEntry_injective : Function.Injective SlabIndexEntrySpec.toEntry := by
  rintro ⟨slabId, uris⟩ ⟨slabId', uris'⟩ heq
  rcases SlabIndexEntry.mk.inj heq with ⟨hid, huris⟩
  rw [SlabIndexEntrySpec.mk.injEq]
  exact ⟨hid, toLocators_inj.1 huris⟩

theorem HistoryEntrySpec.toEntry_injective : Function.Injective HistoryEntrySpec.toEntry := by
  rintro ⟨op, _, _, _⟩ ⟨op', _, _, _⟩ heq
  cases op <;> cases op' <;> cases heq <;> rfl

/-- The first slot that is not 32 bytes wide is the one that the constructor names. -/
theorem make_eq_error {metadata : Bytes} (hlen : metadata.length ≠ 32)
    (formatHeader featureFlags metadataReference slabIndex cryptoParams ecParams dmsPolicy
      deltaLinkage history : Bytes) :
    SectionHashes.make metadata formatHeader featureFlags metadataReference slabIndex cryptoParams
      ecParams dmsPolicy deltaLinkage history =
        .error
          (.valueError s!"SectionHashes.metadata must be 32 bytes, got {metadata.length}") := by
  dsimp only [SectionHashes.make]
  split
  · rename_i name value hfind
    rw [List.find?_cons_of_pos (by simpa using hlen), Option.some.injEq, Prod.mk.injEq] at hfind
    rcases hfind with ⟨rfl, rfl⟩
    rfl
  · rename_i hfind
    rw [List.find?_cons_of_pos (by simpa using hlen)] at hfind
    cases hfind

section Builder

variable [Blake3]

namespace MetadataReferenceSpec

/-- The reference that is read back: an empty blob is written as no blob. -/
def toReference (spec : MetadataReferenceSpec) (hlen : spec.metadataHash.length = 32) :
    MetadataReference where
  metadataHash := spec.metadataHash
  locators := toLocators spec.locators
  inlineMetadata := spec.inlineMetadata.filter fun blob => !blob.isEmpty
  length_metadataHash := hlen

/-- An inlined empty blob names its hash and nothing else, as an external reference without
locators does. -/
def canonical : MetadataReferenceSpec → MetadataReferenceSpec
  | .inlined [] => .external (hashSection []) []
  | spec => spec

theorem toReference_wire (spec : MetadataReferenceSpec) (hlen : spec.metadataHash.length = 32) :
    (spec.toReference hlen).wire = spec.wire := by
  unfold MetadataReference.wire wire toReference
  simp only [inlineLen_filter, getD_filter, toLocators, List.length_map, List.append_assoc]

theorem toReference_packable {spec : MetadataReferenceSpec} (h : spec.Packable)
    (hlen : spec.metadataHash.length = 32) : (spec.toReference hlen).Packable := by
  refine ⟨h.1, ?_, ?_⟩
  · unfold toReference
    rw [inlineLen_filter]
    exact h.2
  · unfold toReference
    rcases spec.inlineMetadata with _ | _ | _ <;> simp [Option.filter]

/-- Two reference specs are read back alike when only the spelling of an empty blob differs. -/
theorem toReference_eq_iff {a b : MetadataReferenceSpec} (ha : a.metadataHash.length = 32)
    (hb : b.metadataHash.length = 32) :
    a.toReference ha = b.toReference hb ↔ a.canonical = b.canonical := by
  -- External, empty and non-empty inlined references on either side.
  rcases a with ⟨hash, uris⟩ | (_ | ⟨x, xs⟩) <;> rcases b with ⟨hash', uris'⟩ | (_ | ⟨y, ys⟩) <;>
    simp [toReference, canonical, metadataHash, locators, inlineMetadata, Option.filter,
      toLocators_inj]
  rintro rfl rfl
  rfl

end MetadataReferenceSpec

namespace ManifestSpec

/-- The sections of a spec with its reference; v0.1 writes no optional section. -/
def toSections (spec : ManifestSpec) (reference : MetadataReference) : Sections where
  header := spec.header.toHeader
  flags := ⟨spec.featureFlags.map FeatureFlagSpec.toFlag⟩
  metadataReference := reference
  slabIndex := ⟨spec.slabIndex.map SlabIndexEntrySpec.toEntry⟩
  ecParams := none
  dmsPolicy := none
  history := ⟨spec.history.map HistoryEntrySpec.toEntry⟩

def canonical (spec : ManifestSpec) : ManifestSpec :=
  { spec with metadataReference := spec.metadataReference.map MetadataReferenceSpec.canonical }

/-- All that the builder asks of a spec. -/
structure Buildable (spec : ManifestSpec) (reference : MetadataReferenceSpec) : Prop where
  reference_eq : spec.metadataReference = some reference
  history_ne : spec.history ≠ []
  packable : spec.Packable
  length_hash : reference.metadataHash.length = 32

/-- The sections that a buildable spec is written as. -/
def Buildable.sections {spec : ManifestSpec} {reference : MetadataReferenceSpec}
    (h : spec.Buildable reference) : Sections :=
  spec.toSections (reference.toReference h.length_hash)

end ManifestSpec

def Sections.artifact (sections : Sections) : ManifestArtifact where
  bytes := sections.wire
  merkleRoot := sections.root
  sectionHashes := sections.hashes

/-! ## When the builder succeeds, and how it fails -/

theorem concat_built {spec : ManifestSpec} {reference : MetadataReferenceSpec}
    (h : spec.Buildable reference) : (spec.built reference).concat = h.sections.wire := by
  have hwire : (reference.toReference h.length_hash).wire = reference.wire :=
    reference.toReference_wire h.length_hash
  simp [Sections.wire, Slices.concat, Sections.slices, ManifestSpec.Buildable.sections,
    ManifestSpec.toSections, optionWire, hwire, ManifestSpec.built, BuiltSections.concat]

/-- The hashes that the builder computes from its slices are those of the sections. -/
theorem make_built {spec : ManifestSpec} {reference : MetadataReferenceSpec}
    (h : spec.Buildable reference) :
    SectionHashes.make (spec.built reference).metadataHash
      (hashSection (spec.built reference).header) (hashSection (spec.built reference).featureFlags)
      (hashSection (spec.built reference).metadataReference)
      (hashSection (spec.built reference).slabIndex) hashEmptySection hashEmptySection
      hashEmptySection hashEmptySection (hashSection (spec.built reference).history) =
        .ok h.sections.hashes := by
  -- The slice of the reference is the one that the reader sees.
  have hreference : (spec.built reference).metadataReference =
      h.sections.slices.metadataReference :=
    (reference.toReference_wire h.length_hash).symm
  rw [hreference]
  exact SectionHashes.make_eq_ok h.sections.hashes.length_slots

theorem buildManifest_of_buildable {spec : ManifestSpec} {reference : MetadataReferenceSpec}
    (h : spec.Buildable reference) : buildManifest spec = .ok h.sections.artifact := by
  have hsections := (encodeSections_emitsIf ⟨spec, by simp [h.reference_eq], h.history_ne⟩
    h.reference_eq).1 h.packable []
  unfold buildManifest
  rw [make_eq_ok h.reference_eq h.history_ne]
  simp only [bind, Except.bind, ManifestBuilder.build, hsections, List.nil_append,
    concat_built h, make_built h, computeMerkleRoot_eq_ok]
  rfl

/-- What is wrong with a spec, in the order in which the builder finds it out. -/
inductive ManifestSpec.Refused (spec : ManifestSpec) : Exn → Prop
  | noReference (h : spec.metadataReference = none) :
      Refused spec (.valueError "ManifestSpec.metadata_reference is required")
  | noHistory (h : spec.metadataReference ≠ none) (hnil : spec.history = []) :
      Refused spec (.valueError "ManifestSpec.history must have at least one entry")
  | unpackable (h : spec.metadataReference ≠ none) (hne : spec.history ≠ [])
      (hpack : ¬ spec.Packable) : Refused spec .structError
  | hashLength {reference : MetadataReferenceSpec} (h : spec.metadataReference = some reference)
      (hne : spec.history ≠ []) (hpack : spec.Packable)
      (hlen : reference.metadataHash.length ≠ 32) :
      Refused spec (.valueError
        s!"SectionHashes.metadata must be 32 bytes, got {reference.metadataHash.length}")

theorem buildManifest_of_refused {spec : ManifestSpec} {e : Exn} (h : spec.Refused e) :
    buildManifest spec = .error e := by
  cases h with
  | noReference h =>
      unfold buildManifest ManifestBuilder.make
      rw [dif_neg (by simp [h])]
      rfl
  | noHistory h hnil =>
      unfold buildManifest ManifestBuilder.make
      rw [dif_pos (Option.isSome_iff_ne_none.2 h), dif_neg (by simp [hnil])]
      rfl
  | unpackable h hne hpack =>
      rcases Option.ne_none_iff_exists'.1 h with ⟨reference, href⟩
      have hsections := (encodeSections_emitsIf ⟨spec, by simp [href], hne⟩ href).2
        [] hpack
      unfold buildManifest
      rw [make_eq_ok href hne]
      simp only [bind, Except.bind, ManifestBuilder.build, hsections]
  | hashLength href hne hpack hlen =>
      rename_i reference
      have hsections := (encodeSections_emitsIf ⟨spec, by simp [href], hne⟩ href).1
        hpack []
      have hhash : (spec.built reference).metadataHash.length ≠ 32 := hlen
      unfold buildManifest
      rw [make_eq_ok href hne]
      simp only [bind, Except.bind, ManifestBuilder.build, hsections, make_eq_error hhash]
      rfl

/-- Every spec is buildable or refused. -/
theorem buildable_or_refused (spec : ManifestSpec) :
    (∃ reference, spec.Buildable reference) ∨ ∃ e, spec.Refused e := by
  cases href : spec.metadataReference with
  | none =>
      exact Or.inr ⟨_, .noReference href⟩
  | some reference =>
      have hsome : spec.metadataReference ≠ none := by
        simp [href]
      by_cases hnil : spec.history = []
      · exact Or.inr ⟨_, .noHistory hsome hnil⟩
      by_cases hpack : spec.Packable
      · by_cases hlen : reference.metadataHash.length = 32
        · exact Or.inl ⟨reference, href, hnil, hpack, hlen⟩
        · exact Or.inr ⟨_, .hashLength href hnil hpack hlen⟩
      · exact Or.inr ⟨_, .unpackable hsome hnil hpack⟩

/-- The builder writes exactly the specs that have a reference with a 32-byte hash, a history and
no number too large for its format, and it writes the encoding of their sections; on the others it
fails with the error of the first check that they miss. -/
theorem buildManifest_outcome (spec : ManifestSpec) :
    (∀ artifact, buildManifest spec = .ok artifact ↔
      ∃ reference, ∃ h : spec.Buildable reference, artifact = h.sections.artifact) ∧
    ∀ e, buildManifest spec = .error e ↔ spec.Refused e := by
  rcases buildable_or_refused spec with ⟨reference, h⟩ | ⟨e, h⟩
  · have hbuild := buildManifest_of_buildable h
    refine ⟨fun artifact => ?_, fun e => ?_⟩
    · constructor
      · intro hok
        exact ⟨reference, h, Except.ok.inj (hok.symm.trans hbuild)⟩
      · rintro ⟨reference', h', rfl⟩
        exact buildManifest_of_buildable h'
    · constructor
      · intro herr
        cases herr.symm.trans hbuild
      · exact buildManifest_of_refused
  · have hbuild := buildManifest_of_refused h
    refine ⟨fun artifact => ?_, fun e' => ?_⟩
    · constructor
      · intro hok
        cases hok.symm.trans hbuild
      · rintro ⟨reference', h', rfl⟩
        exact buildManifest_of_buildable h'
    · constructor
      · intro herr
        cases herr.symm.trans hbuild
        exact h
      · exact buildManifest_of_refused

/-! ## Which specs are written alike -/

theorem Buildable.packable {spec : ManifestSpec} {reference : MetadataReferenceSpec}
    (h : spec.Buildable reference) : h.sections.Packable where
  header := h.packable.header
  flags_lt := by
    simpa [ManifestSpec.Buildable.sections, ManifestSpec.toSections] using h.packable.flags_lt
  flags := by
    intro flag hflag
    rcases List.mem_map.1 hflag with ⟨flagSpec, hmem, rfl⟩
    exact h.packable.flags flagSpec hmem
  metadataReference :=
    MetadataReferenceSpec.toReference_packable (h.packable.reference reference h.reference_eq) _
  slabIndex_lt := by
    simpa [ManifestSpec.Buildable.sections, ManifestSpec.toSections] using h.packable.slabIndex_lt
  slabIndex := by
    intro entry hentry
    rcases List.mem_map.1 hentry with ⟨entrySpec, hmem, rfl⟩
    exact h.packable.slabIndex entrySpec hmem
  history_lt := by
    simpa [ManifestSpec.Buildable.sections, ManifestSpec.toSections] using h.packable.history_lt
  history := by
    intro entry hentry
    rcases List.mem_map.1 hentry with ⟨entrySpec, hmem, rfl⟩
    exact h.packable.history entrySpec hmem

/-- Two specs stand for the same sections when only the spelling of an empty blob differs. -/
theorem sections_eq_iff {a b : ManifestSpec} {reference reference' : MetadataReferenceSpec}
    (ha : a.Buildable reference) (hb : b.Buildable reference') :
    ha.sections = hb.sections ↔ a.canonical = b.canonical := by
  have hcanonical : a.canonical = b.canonical ↔ a.header = b.header ∧
      a.featureFlags = b.featureFlags ∧ reference.canonical = reference'.canonical ∧
      a.slabIndex = b.slabIndex ∧ a.history = b.history := by
    simp [ManifestSpec.canonical, ha.reference_eq, hb.reference_eq]
  have hheader : a.header.toHeader = b.header.toHeader ↔ a.header = b.header := by
    rcases a.header with ⟨_, _, _⟩
    rcases b.header with ⟨_, _, _⟩
    simp [HeaderSpec.toHeader]
  rw [hcanonical, ← MetadataReferenceSpec.toReference_eq_iff ha.length_hash hb.length_hash,
    ← hheader, ← FeatureFlagSpec.toFlag_injective.list_map.eq_iff,
    ← SlabIndexEntrySpec.toEntry_injective.list_map.eq_iff,
    ← HistoryEntrySpec.toEntry_injective.list_map.eq_iff]
  simp [ManifestSpec.Buildable.sections, ManifestSpec.toSections]

/-- Sections with one root have the same slices, or two inputs of the hash collide. -/
theorem slices_eq_of_root_eq {a b : Sections} (h : a.root = b.root) :
    a.slices = b.slices ∨ ∃ p ∈ (hashInputs a.hashes a.slices).zip (hashInputs b.hashes b.slices),
      Collision Blake3.digest p.1 p.2 := by
  rcases merkleInput_binds (congrArg ManifestRoot.bytes h) with hslots | hcol
  · rw [hashes_slots, hashes_slots, List.cons.injEq] at hslots
    rcases map_digest_eq hslots.2 with heq | ⟨p, hp, hcol⟩
    · exact Or.inl (Slices.toList_inj heq)
    · exact Or.inr ⟨p, List.mem_cons_of_mem _ hp, hcol⟩
  · exact Or.inr ⟨_, List.mem_cons_self, hcol⟩

/-- A built spec has no optional section, whatever its flags declare. -/
theorem Buildable.packableWith {spec : ManifestSpec} {reference : MetadataReferenceSpec}
    (h : spec.Buildable reference) :
    h.sections.PackableWith (fun _ => false) fun _ => false where
  toPackable := Buildable.packable h
  ecParams := ⟨rfl, by simp [ManifestSpec.Buildable.sections, ManifestSpec.toSections]⟩
  dmsPolicy := ⟨rfl, by simp [ManifestSpec.Buildable.sections, ManifestSpec.toSections]⟩

theorem sections_eq_of_wire_eq {a b : ManifestSpec} {reference reference' : MetadataReferenceSpec}
    (ha : a.Buildable reference) (hb : b.Buildable reference')
    (h : ha.sections.wire = hb.sections.wire) : ha.sections = hb.sections :=
  (Sections.prefixCode _ _).inj (Buildable.packableWith ha) (Buildable.packableWith hb) h

theorem exists_buildable {spec : ManifestSpec} {artifact : ManifestArtifact}
    (h : buildManifest spec = .ok artifact) :
    ∃ reference, ∃ hb : spec.Buildable reference, artifact = hb.sections.artifact := by
  rcases buildable_or_refused spec with ⟨reference, hb⟩ | ⟨e, hr⟩
  · exact ⟨reference, hb, Except.ok.inj (h.symm.trans (buildManifest_of_buildable hb))⟩
  · cases h.symm.trans (buildManifest_of_refused hr)

/-- Two specs are written as the same bytes exactly when they agree, an inlined empty blob read as
an external reference without locators; and then the whole artifacts are equal. -/
theorem built_bytes_eq_iff {a b : ManifestSpec} {A B : ManifestArtifact}
    (hA : buildManifest a = .ok A) (hB : buildManifest b = .ok B) :
    (A.bytes = B.bytes ↔ a.canonical = b.canonical) ∧ (a.canonical = b.canonical → A = B) := by
  rcases exists_buildable hA with ⟨reference, ha, rfl⟩
  rcases exists_buildable hB with ⟨reference', hb, rfl⟩
  have hartifact : a.canonical = b.canonical →
      ha.sections.artifact = hb.sections.artifact := fun heq =>
    congrArg Sections.artifact ((sections_eq_iff ha hb).2 heq)
  refine ⟨⟨fun hbytes => ?_, fun heq => ?_⟩, hartifact⟩
  · exact (sections_eq_iff ha hb).1 (sections_eq_of_wire_eq ha hb hbytes)
  · exact congrArg ManifestArtifact.bytes (hartifact heq)

/-- Two specs that agree on the one root are written alike, or two of the inputs that the builder
hashed, at the same place of its computation, collide. -/
theorem built_root_binds {a b : ManifestSpec} {A B : ManifestArtifact}
    (hA : buildManifest a = .ok A) (hB : buildManifest b = .ok B)
    (hroot : A.merkleRoot = B.merkleRoot) :
    a.canonical = b.canonical ∨
      ∃ reference reference', ∃ ha : a.Buildable reference, ∃ hb : b.Buildable reference',
        ∃ p ∈ (hashInputs A.sectionHashes ha.sections.slices).zip
            (hashInputs B.sectionHashes hb.sections.slices),
          Collision Blake3.digest p.1 p.2 := by
  rcases exists_buildable hA with ⟨reference, ha, rfl⟩
  rcases exists_buildable hB with ⟨reference', hb, rfl⟩
  rcases slices_eq_of_root_eq hroot with hslices | hcol
  · have hwire : ha.sections.wire = hb.sections.wire := congrArg Slices.concat hslices
    exact Or.inl ((sections_eq_iff ha hb).1 (sections_eq_of_wire_eq ha hb hwire))
  · exact Or.inr ⟨reference, reference', ha, hb, hcol⟩

/-- The builder writes every spec in the format's range. -/
theorem ManifestSpec.InRange.exists_artifact [UnicodeData] {spec : ManifestSpec}
    (h : spec.InRange) : ∃ artifact, buildManifest spec = .ok artifact := by
  rcases h.exists_sections with ⟨_, hd, -⟩
  exact ⟨_, buildManifest_eq_ok h hd⟩

end Builder

open scoped Reference in
theorem built_bytes_eq_iff_minimal :
    ∃ A B, buildManifest minimalV01Spec = .ok A ∧ buildManifest minimalV01WithFlagsSpec = .ok B ∧
      (A.bytes = B.bytes ↔ minimalV01Spec.canonical = minimalV01WithFlagsSpec.canonical) ∧
      (minimalV01Spec.canonical = minimalV01WithFlagsSpec.canonical → A = B) := by
  rcases minimalV01Spec_inRange.exists_artifact with ⟨_, hA⟩
  rcases minimalV01WithFlagsSpec_inRange.exists_artifact with ⟨_, hB⟩
  exact ⟨_, _, hA, hB, built_bytes_eq_iff hA hB⟩

namespace Reference

/-- A spec with this reference and one history entry. -/
def oneBuild (reference : MetadataReferenceSpec) : ManifestSpec where
  metadataReference := some reference
  history := [{ op := .build }]

theorem oneBuild_buildable [Blake3] {reference : MetadataReferenceSpec}
    (hpack : reference.Packable) (hlen : reference.metadataHash.length = 32) :
    (oneBuild reference).Buildable reference where
  reference_eq := rfl
  history_ne := List.cons_ne_nil _ _
  packable := by
    have hversion : 1 < 2 ^ 16 := by decide
    have hcount : 1 < 2 ^ 32 := by decide
    refine ⟨⟨hversion, hversion, hversion⟩, Nat.two_pow_pos 32, by simp [oneBuild], ?_,
      Nat.two_pow_pos 32, by simp [oneBuild], hcount, ?_⟩
    · rintro _ ⟨⟩
      exact hpack
    · rintro _ (_ | ⟨_, ⟨⟩⟩)
      exact ⟨by decide, by decide, by decide⟩
  length_hash := hlen

end Reference

open Reference in
open scoped Reference in
/-- The two spellings of an empty blob are two specs with one root. -/
theorem built_root_binds_empty :
    oneBuild (.inlined []) ≠ oneBuild (.external (hashSection []) []) ∧
      ∃ A B, buildManifest (oneBuild (.inlined [])) = .ok A ∧
        buildManifest (oneBuild (.external (hashSection []) [])) = .ok B ∧
        A.merkleRoot = B.merkleRoot ∧
        ((oneBuild (.inlined [])).canonical = (oneBuild (.external (hashSection []) [])).canonical ∨
          ∃ reference reference', ∃ ha : (oneBuild (.inlined [])).Buildable reference,
            ∃ hb : (oneBuild (.external (hashSection []) [])).Buildable reference',
              ∃ p ∈ (hashInputs A.sectionHashes ha.sections.slices).zip
                  (hashInputs B.sectionHashes hb.sections.slices),
                Collision Blake3.digest p.1 p.2) := by
  have hinlined : (MetadataReferenceSpec.inlined []).Packable :=
    ⟨⟨by decide, by simp [toLocators, MetadataReferenceSpec.locators]⟩, by decide⟩
  have hexternal : (MetadataReferenceSpec.external (hashSection []) []).Packable :=
    ⟨⟨by decide, by simp [toLocators, MetadataReferenceSpec.locators]⟩, by decide⟩
  have ha := oneBuild_buildable hinlined (length_hashSection [])
  have hb := oneBuild_buildable hexternal (length_hashSection [])
  have hroot : ha.sections.artifact.merkleRoot = hb.sections.artifact.merkleRoot :=
    congrArg Sections.root ((sections_eq_iff ha hb).2 rfl)
  have hA := buildManifest_of_buildable ha
  have hB := buildManifest_of_buildable hb
  exact ⟨by simp [oneBuild], _, _, hA, hB, hroot, built_root_binds hA hB hroot⟩

end LimniFs
