import LimniFs.Cli

/-!
# Manifest — the manifest as one wire format

The sections in their fixed order form a format of their own, in which the flags section decides
whether the two optional sections are on the wire.  `parseSections` decodes it, and
`verifyBytes_eq_ok_iff` says with it which buffers the verifier accepts.
-/

namespace LimniFs

open Wire

/-! ## Wire format -/

namespace Sections

/-- The sections that every manifest has are in range. -/
structure RequiredInRange [UnicodeData] (sections : Sections) : Prop where
  header : sections.header.InRange
  flags : sections.flags.InRange
  metadataReference : sections.metadataReference.InRange defaultLocatorMaxUriBytes
    defaultInlineMetadataMaxBytes
  slabIndex : sections.slabIndex.InRange defaultLocatorMaxUriBytes
  history : sections.history.InRange defaultHistoryParamsMaxBytes

/-- All sections are in range, and an optional one is there when its flag is declared. -/
structure InRange [UnicodeData] (sections : Sections) : Prop
    extends RequiredInRange sections where
  ecParams_isSome : sections.ecParams.isSome = sections.flags.hasEc
  ecParams : ∀ params ∈ sections.ecParams, params.InRange
  dmsPolicy_isSome : sections.dmsPolicy.isSome = sections.flags.hasDms
  dmsPolicy : ∀ policy ∈ sections.dmsPolicy,
    policy.InRange defaultShareDataMaxBytes defaultHintMaxBytes

def slices (sections : Sections) : Slices where
  header := sections.header.wire
  flags := sections.flags.wire
  metadataReference := sections.metadataReference.wire
  slabIndex := sections.slabIndex.wire
  ecParams := optionWire EcParams.wire sections.ecParams
  dmsPolicy := optionWire DmsPolicy.wire sections.dmsPolicy
  history := sections.history.wire

end Sections

/-- The slices lie side by side, with nothing between them. -/
def Slices.concat (slices : Slices) : Bytes :=
  slices.header ++ slices.flags ++ slices.metadataReference ++ slices.slabIndex ++
    slices.ecParams ++ slices.dmsPolicy ++ slices.history

def Sections.wire (sections : Sections) : Bytes :=
  sections.slices.concat

section Decodes

variable [UnicodeData]

/-- The section parsers in sequence decode the manifest format, and each slice is the encoding of
the section that was read from it. -/
theorem parseSections_decodes :
    Decodes parseSections (fun r => r.1.InRange ∧ r.2 = r.1.slices) (fun r => r.1.wire) := by
  apply Wire.Decodes.record
  · apply Wire.Decodes.fieldSlice (fun r : Sections × Slices => r.1.header)
      (fun r => r.2.header) parseManifestHeader_decodes
    · exact fun r hr => congrArg Slices.header hr.2
    · exact fun r hr _ => hr.1.header
    intro header hheader
    apply Wire.Decodes.fieldSlice (fun r : Sections × Slices => r.1.flags) (fun r => r.2.flags)
      parseFeatureFlagsSection_decodes
    · exact fun r hr => congrArg Slices.flags hr.2
    · exact fun r hr _ => hr.1.flags
    intro flags hflags
    apply Wire.Decodes.fieldSlice (fun r : Sections × Slices => r.1.metadataReference)
      (fun r => r.2.metadataReference) (parseMetadataReferenceSection_decodes _ _)
    · exact fun r hr => congrArg Slices.metadataReference hr.2
    · exact fun r hr _ => hr.1.metadataReference
    intro reference hreference
    apply Wire.Decodes.fieldSlice (fun r : Sections × Slices => r.1.slabIndex)
      (fun r => r.2.slabIndex) (parseSlabIndexSection_decodes _)
    · exact fun r hr => congrArg Slices.slabIndex hr.2
    · exact fun r hr _ => hr.1.slabIndex
    intro slabIndex hslabIndex
    apply Wire.Decodes.fieldSlice (fun r : Sections × Slices => r.1.ecParams)
      (fun r => r.2.ecParams) (parseOptional_decodes parseEcParamsSection_decodes flags.hasEc)
    · exact fun r hr => congrArg Slices.ecParams hr.2
    -- The flags that were read are the ones the range speaks of.
    · rintro r hr ⟨⟨⟨-, rfl⟩, -⟩, -⟩
      exact ⟨hr.1.ecParams_isSome, hr.1.ecParams⟩
    rintro ecParams ⟨hecSome, hec⟩
    apply Wire.Decodes.fieldSlice (fun r : Sections × Slices => r.1.dmsPolicy)
      (fun r => r.2.dmsPolicy)
      (parseOptional_decodes (parseDmsPolicySection_decodes _ _) flags.hasDms)
    · exact fun r hr => congrArg Slices.dmsPolicy hr.2
    · rintro r hr ⟨⟨⟨⟨-, rfl⟩, -⟩, -⟩, -⟩
      exact ⟨hr.1.dmsPolicy_isSome, hr.1.dmsPolicy⟩
    rintro dmsPolicy ⟨hdmsSome, hdms⟩
    apply Wire.Decodes.fieldSlice (fun r : Sections × Slices => r.1.history)
      (fun r => r.2.history) (parseHistorySection_decodes _)
    · exact fun r hr => congrArg Slices.history hr.2
    · exact fun r hr _ => hr.1.history
    intro history hhistory
    apply Wire.Decodes.done
    · exact ⟨⟨⟨hheader, hflags, hreference, hslabIndex, hhistory⟩, hecSome, hec, hdmsSome, hdms⟩,
        rfl⟩
    · exact ⟨⟨⟨⟨⟨⟨⟨trivial, rfl⟩, rfl⟩, rfl⟩, rfl⟩, rfl⟩, rfl⟩, rfl⟩
    · rintro ⟨⟨_, _, _, _, _, _, _⟩, _⟩ ⟨-, hslices⟩
        ⟨⟨⟨⟨⟨⟨⟨-, rfl⟩, rfl⟩, rfl⟩, rfl⟩, rfl⟩, rfl⟩, rfl⟩
      exact Prod.ext rfl hslices
  · rintro ⟨sections, _⟩ -
    simp [Sections.wire, Slices.concat, Sections.slices]

theorem parseSections_ensures : Ensures (fun _ => True) parseSections := by
  apply Wire.Ensures.bind parseManifestHeader_ensures.withSlice
  rintro ⟨header, headerSlice⟩ _
  apply Wire.Ensures.bind parseFeatureFlagsSection_ensures.withSlice
  rintro ⟨flags, flagsSlice⟩ _
  apply Wire.Ensures.bind (parseMetadataReferenceSection_ensures _ _).withSlice
  rintro ⟨reference, metaRefSlice⟩ _
  apply Wire.Ensures.bind (parseSlabIndexSection_ensures _).withSlice
  rintro ⟨slabIndex, slabIndexSlice⟩ _
  apply Wire.Ensures.bind (parseOptional_ensures parseEcParamsSection_ensures _).withSlice
  rintro ⟨ecParams, ecParamsSlice⟩ _
  apply Wire.Ensures.bind (parseOptional_ensures (parseDmsPolicySection_ensures _ _) _).withSlice
  rintro ⟨dmsPolicy, dmsPolicySlice⟩ _
  apply Wire.Ensures.bind (parseHistorySection_ensures _).withSlice
  rintro ⟨history, historySlice⟩ _
  exact Wire.Ensures.pure trivial

end Decodes

/-! ## The report -/

/-- An absent section leaves an empty slice, so both branches hash the slice. -/
theorem hash_optionWire [Blake3] {α : Type} {wire : α → Bytes} {o : Option α} {present : Bool}
    (h : o.isSome = present) :
    (if present then hashSection (optionWire wire o) else hashEmptySection) =
      hashSection (optionWire wire o) := by
  subst h
  cases o <;> rfl

section Report

variable [UnicodeData]

/-- Only `ParseError` comes out of the metadata parser, so the summary never fails. -/
theorem inlineSummary_isOk (inlineMetadata : Option Bytes) :
    ∃ summary, inlineSummary inlineMetadata = .ok summary := by
  unfold inlineSummary
  cases inlineMetadata with
  | none =>
      exact ⟨none, rfl⟩
  | some blobBytes =>
      dsimp only
      split
      · exact ⟨none, rfl⟩
      · unfold metadataSummary
        cases hparse : parseMetadataBlob defaultInlineDataMaxBytes (.start blobBytes) with
        | error e =>
            -- A refused blob is a `ParseError`, which the verifier swallows.
            rcases (parseMetadataBlob_ensures _).raises hparse with ⟨pe, rfl⟩
            exact ⟨none, rfl⟩
        | ok r =>
            exact ⟨some r.1.summary, rfl⟩

/-- The summary of the inline metadata, when there is one. -/
def Sections.metadataSummary (sections : Sections) : Option MetadataSummary :=
  (inlineSummary sections.metadataReference.inlineMetadata).toOption.join

variable [Blake3]

namespace Sections

/-- The ten slots, each over the encoding of its section; an absent section has the empty one. -/
def hashes (sections : Sections) : SectionHashes where
  metadata := sections.metadataReference.metadataHash
  formatHeader := hashSection sections.slices.header
  featureFlags := hashSection sections.slices.flags
  metadataReference := hashSection sections.slices.metadataReference
  slabIndex := hashSection sections.slices.slabIndex
  cryptoParams := hashEmptySection
  ecParams := hashSection sections.slices.ecParams
  dmsPolicy := hashSection sections.slices.dmsPolicy
  deltaLinkage := hashEmptySection
  history := hashSection sections.slices.history
  length_slots := by
    simp [hashEmptySection, sections.metadataReference.length_metadataHash]

def root (sections : Sections) : ManifestRoot :=
  ⟨Blake3.digest (merkleInput sections.hashes), Blake3.length_digest _⟩

/-- The report on the sections with `extra` bytes behind them. -/
def report (sections : Sections) (extra : Nat) : Report where
  magic := "LMFS"
  dropStoreVersion := sections.header.dropStoreVersion
  metadataVersion := sections.header.metadataVersion
  manifestVersion := sections.header.manifestVersion
  featureFlags := sections.flags.entries
  metadataInlined := sections.metadataReference.isInlined
  slabIndexEntries := sections.slabIndex.entries.length
  historyEntries := sections.history.entries.length
  extraBytesAfterHistory := extra
  merkleRoot := sections.root.toText
  metadata := sections.metadataSummary

end Sections

theorem sectionHashesOf_eq_ok {sections : Sections} (h : sections.InRange) :
    sectionHashesOf sections sections.slices = .ok sections.hashes := by
  unfold sectionHashesOf
  have hec : (if sections.flags.hasEc then hashSection sections.slices.ecParams
      else hashEmptySection) = hashSection sections.slices.ecParams :=
    hash_optionWire h.ecParams_isSome
  have hdms : (if sections.flags.hasDms then hashSection sections.slices.dmsPolicy
      else hashEmptySection) = hashSection sections.slices.dmsPolicy :=
    hash_optionWire h.dmsPolicy_isSome
  rw [hec, hdms]
  exact SectionHashes.make_eq_ok sections.hashes.length_slots

theorem reportSections_eq_ok {sections : Sections} (h : sections.InRange) (extra : Nat) :
    reportSections sections sections.slices extra = .ok (sections.report extra) := by
  rcases inlineSummary_isOk sections.metadataReference.inlineMetadata with ⟨summary, hsummary⟩
  have hmetadata : sections.metadataSummary = summary := by
    simp [Sections.metadataSummary, hsummary, Except.toOption]
  unfold reportSections
  rw [sectionHashesOf_eq_ok h]
  simp only [bind, Except.bind, computeMerkleRoot_eq_ok, hsummary]
  rw [← hmetadata]
  rfl

/-! ## What the verifier accepts -/

theorem verifyBytes_append {sections : Sections} (h : sections.InRange) (tail : Bytes) :
    verifyBytes (sections.wire ++ tail) = .ok (sections.report tail.length) := by
  rcases parseSections_decodes.decode_append (a := (sections, sections.slices)) ⟨h, rfl⟩ tail with
    ⟨c, hparse, hrem⟩
  have hextra : c.remainingLen = tail.length := by
    calc
      c.remainingLen = c.remaining.length := (Wire.Cursor.length_remaining c).symm
      _ = tail.length := by rw [hrem]
  unfold verifyBytes
  rw [hparse]
  simp only [bind, Except.bind]
  rw [hextra]
  exact reportSections_eq_ok h tail.length

/-- The verifier accepts a buffer when it begins with the encoding of sections in range, and it
reports these sections and the length of what follows them. -/
theorem verifyBytes_eq_ok_iff {buf : Bytes} {report : Report} :
    verifyBytes buf = .ok report ↔
      ∃ (sections : Sections) (tail : Bytes), sections.InRange ∧ buf = sections.wire ++ tail ∧
        report = sections.report tail.length := by
  constructor
  · intro h
    rcases bind_eq_ok_iff.1 h with ⟨⟨⟨sections, slices⟩, c⟩, hparse, hreport⟩
    -- Soundness of the section parsers gives the sections; completeness gives their report.
    rcases parseSections_decodes.sound hparse with ⟨⟨hrange, hslices⟩, hc⟩
    have hbuf : buf = sections.wire ++ c.remaining := by
      simpa using hc.2
    refine ⟨sections, c.remaining, hrange, hbuf, ?_⟩
    have happ := verifyBytes_append hrange c.remaining
    rw [← hbuf, h] at happ
    exact Except.ok.inj happ
  · rintro ⟨sections, tail, hrange, rfl, rfl⟩
    exact verifyBytes_append hrange tail

/-- Whatever the verifier raises is a `ParseError`. -/
theorem verifyBytes_raises {buf : Bytes} {e : Exn} (h : verifyBytes buf = .error e) :
    e.IsParseError := by
  unfold verifyBytes at h
  cases hparse : parseSections (.start buf) with
  | error e' =>
      rw [hparse] at h
      cases h
      exact parseSections_ensures.raises hparse
  | ok r =>
      rcases r with ⟨⟨sections, slices⟩, c⟩
      rcases parseSections_decodes.sound hparse with ⟨⟨hrange, hslices⟩, -⟩
      dsimp only at hrange hslices
      -- Once the sections are parsed nothing else can fail.
      subst hslices
      rw [hparse] at h
      simp only [bind, Except.bind, reportSections_eq_ok hrange] at h
      cases h

/-- A buffer that ends inside the sections is reported as truncated. -/
theorem verifyBytes_truncated {sections : Sections} (h : sections.InRange) {k : Nat}
    (hk : k < sections.wire.length) :
    ∃ avail need, verifyBytes (sections.wire.take k) = .error (.truncated avail need) := by
  -- The cut buffer is a proper prefix of one encoding.
  have hpre : (Wire.Cursor.start (sections.wire.take k)).remaining <+: sections.wire := by
    simpa using List.take_prefix k sections.wire
  have hne : (Wire.Cursor.start (sections.wire.take k)).remaining ≠ sections.wire := by
    intro heq
    have hlen := congrArg List.length heq
    simp only [Wire.Cursor.remaining_start, List.length_take] at hlen
    omega
  rcases parseSections_decodes.truncated (a := (sections, sections.slices)) ⟨h, rfl⟩ hpre hne with
    ⟨e, ⟨avail, need, rfl⟩, herr⟩
  refine ⟨avail, need, ?_⟩
  unfold verifyBytes
  rw [herr]
  rfl

end Report

end LimniFs
