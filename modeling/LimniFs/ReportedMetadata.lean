import LimniFs.InodeLayouts
import LimniFs.Reference

/-!
# ReportedMetadata — what the report says of the inline bytes

The verifier reads the inline metadata only for its summary, and it drops a `ParseError` on the way.
So any bytes may stand there: they decide the root and the summary, and no other part of the
verdict.
-/

namespace LimniFs

open Wire

/-- The bytes begin with an encoding of the blob, whatever follows it. -/
def MetadataBlob.Heads (blob : MetadataBlob) (bytes : Bytes) : Prop :=
  ∃ bs rest, blob.EncodedBy defaultInlineDataMaxBytes bs ∧ bytes = bs ++ rest

/-- The sections with other inline bytes in their reference. -/
def Sections.withInline (sections : Sections) (bytes : Bytes) : Sections :=
  { sections with
    metadataReference := { sections.metadataReference with inlineMetadata := some bytes } }

section Summary

variable [UnicodeData]

theorem metadataSummary_eq_ok_iff {bytes : Bytes} {summary : MetadataSummary} :
    metadataSummary bytes = .ok summary ↔ ∃ blob : MetadataBlob,
      blob.Heads bytes ∧ blob.summary = summary := by
  have hlanguage := parseMetadataBlob_recognizes defaultInlineDataMaxBytes
  constructor
  · intro h
    rcases bind_eq_ok_iff.1 h with ⟨⟨blob, c⟩, hparse, hsummary⟩
    rcases hlanguage.start_iff.1 ⟨c, hparse, rfl⟩ with ⟨bs, hbs, hbytes⟩
    exact ⟨blob, ⟨bs, _, hbs, hbytes⟩, Except.ok.inj hsummary⟩
  · rintro ⟨blob, ⟨bs, rest, hbs, hbytes⟩, rfl⟩
    rcases hlanguage.start_iff.2 ⟨bs, hbs, hbytes⟩ with ⟨c, hparse, -⟩
    exact bind_eq_ok_iff.2 ⟨(blob, c), hparse, rfl⟩

/-- A summary is reported exactly of bytes that begin with a blob, and it is the blob's. -/
theorem inlineSummary_eq_some_iff {bytes : Bytes} {summary : MetadataSummary} (hne : bytes ≠ []) :
    (inlineSummary (some bytes)).toOption.join = some summary ↔ ∃ blob : MetadataBlob,
      blob.Heads bytes ∧ blob.summary = summary := by
  rw [← metadataSummary_eq_ok_iff]
  unfold inlineSummary
  dsimp only
  rw [if_neg hne]
  rcases metadataSummary bytes with e | s
  · cases e <;> simp [catchParseError, Except.toOption]
  · simp [catchParseError, Except.toOption]

theorem Sections.withInline_inRange {sections : Sections} (h : sections.InRange) {bytes : Bytes}
    (hne : bytes ≠ []) (hle : bytes.length ≤ defaultInlineMetadataMaxBytes) :
    (sections.withInline bytes).InRange := by
  have hlt : bytes.length < 2 ^ 32 := Nat.lt_of_le_of_lt hle (by decide)
  refine { h with metadataReference := { h.metadataReference with inline := ?_, reachable := ?_ } }
  · rintro _ ⟨⟩
    exact ⟨hne, hlt, hle⟩
  · simp [withInline]

variable [Blake3]

/-- Whatever bytes within the ceiling replace the inline metadata of an accepted image, with its
declared hash kept: the image is accepted, the report differs in the root and the summary at most,
and there is a summary exactly when the bytes begin with a metadata blob, which it is the summary
of. -/
theorem verify_anyInline {sections : Sections} (h : sections.InRange)
    (hinlined : sections.metadataReference.isInlined) {bytes : Bytes} (hne : bytes ≠ [])
    (hle : bytes.length ≤ defaultInlineMetadataMaxBytes) (tail : Bytes) :
    ∃ report, verifyBytes ((sections.withInline bytes).wire ++ tail) = .ok report ∧
      report = { sections.report tail.length with
        merkleRoot := report.merkleRoot, metadata := report.metadata } ∧
      ∀ summary, report.metadata = some summary ↔ ∃ blob : MetadataBlob,
        blob.Heads bytes ∧ blob.summary = summary := by
  have hnew := Sections.withInline_inRange h hne hle
  refine ⟨_, verifyBytes_append hnew tail, ?_, fun summary => inlineSummary_eq_some_iff hne⟩
  -- The reference is inlined before and after, and no other section has changed.
  have hflag : (sections.withInline bytes).metadataReference.isInlined =
      sections.metadataReference.isInlined := hinlined.symm
  unfold Sections.report
  rw [hflag]
  rfl

end Summary

open scoped Reference in
theorem verify_anyInline_small :
    ∃ report, verifyBytes ((Reference.small.withInline [0xFF]).wire ++ []) = .ok report ∧
      report = { Reference.small.report 0 with
        merkleRoot := report.merkleRoot, metadata := report.metadata } ∧
      ∀ summary, report.metadata = some summary ↔ ∃ blob : MetadataBlob,
        blob.Heads [0xFF] ∧ blob.summary = summary :=
  verify_anyInline Reference.small_inRange rfl (by decide) (by decide) []

end LimniFs
