import LimniFs.Reference

/-!
# Unchecked — two promises of the format that no check keeps

The metadata reference is documented as carrying the hash of the inline blob, and a required flag
that the reader does not implement as a reason to refuse.  The verifier compares the hash with
nothing and never looks at `required`, so each promise holds of exactly the buffers on which there
was nothing to check.
-/

namespace LimniFs

open Wire

section Inline

variable [UnicodeData]

/-- The metadata reference section of a buffer, read behind its header and its flags. -/
def ReferenceOf (buf : Bytes) (reference : MetadataReference) : Prop :=
  ∃ header flags c₁ c₂ c₃, parseManifestHeader (.start buf) = .ok (header, c₁) ∧
    parseFeatureFlagsSection c₁ = .ok (flags, c₂) ∧
    parseMetadataReferenceSection defaultLocatorMaxUriBytes defaultInlineMetadataMaxBytes c₂ =
      .ok (reference, c₃)

theorem ReferenceOf.unique {buf : Bytes} {a b : MetadataReference} (ha : ReferenceOf buf a)
    (hb : ReferenceOf buf b) : a = b := by
  rcases ha with ⟨header, flags, c₁, c₂, c₃, h₁, h₂, h₃⟩
  rcases hb with ⟨header', flags', c₁', c₂', c₃', h₁', h₂', h₃'⟩
  -- The parsers are functions: each of the three steps ends in one place.
  rw [h₁] at h₁'
  cases h₁'
  rw [h₂] at h₂'
  cases h₂'
  rw [h₃] at h₃'
  cases h₃'
  rfl

theorem referenceOf_append {sections : Sections} (h : sections.InRange) (tail : Bytes) :
    ReferenceOf (sections.wire ++ tail) sections.metadataReference := by
  have hbuf : (Wire.Cursor.start (sections.wire ++ tail)).remaining = sections.header.wire ++
      (sections.flags.wire ++ (sections.metadataReference.wire ++ (sections.slabIndex.wire ++
        (sections.slices.ecParams ++ (sections.slices.dmsPolicy ++
          (sections.history.wire ++ tail)))))) := by
    simp [Sections.wire, Slices.concat, Sections.slices]
  rcases parseManifestHeader_decodes.run h.header hbuf with ⟨c₁, h₁, hc₁⟩
  rcases parseFeatureFlagsSection_decodes.run h.flags hc₁ with ⟨c₂, h₂, hc₂⟩
  rcases (parseMetadataReferenceSection_decodes _ _).run h.metadataReference hc₂ with ⟨c₃, h₃, -⟩
  exact ⟨_, _, c₁, c₂, c₃, h₁, h₂, h₃⟩

variable [Blake3]

/-- Inline metadata is authenticated in `buf`: when the buffer is accepted the blob has the declared
hash, and when it has another one the buffer is refused with a `ParseError`. -/
structure InlineAuthenticated (buf : Bytes) : Prop where
  accepted : ∀ report, verifyBytes buf = .ok report → ∀ reference, ReferenceOf buf reference →
    ∀ blob ∈ reference.inlineMetadata, hashSection blob = reference.metadataHash
  refused : ∀ reference, ReferenceOf buf reference → ∀ blob ∈ reference.inlineMetadata,
    hashSection blob ≠ reference.metadataHash → ∃ pe, verifyBytes buf = .error (.parse pe)

/-- The buffer begins with well-formed sections whose inline blob does not have the hash that is
written in front of it. -/
def ForgedInline (buf : Bytes) : Prop :=
  ∃ (sections : Sections) (tail : Bytes), sections.InRange ∧ buf = sections.wire ++ tail ∧
    ∃ blob ∈ sections.metadataReference.inlineMetadata,
      hashSection blob ≠ sections.metadataReference.metadataHash

/-- The promise about inline metadata holds of a buffer just when the buffer is not forged: nothing
in the verifier tells the two kinds apart. -/
theorem inlineAuthenticated_iff (buf : Bytes) : InlineAuthenticated buf ↔ ¬ ForgedInline buf := by
  constructor
  -- A forged buffer is accepted with its reference, against the promise.
  · rintro hauth ⟨sections, tail, hrange, rfl, blob, hblob, hne⟩
    exact hne (hauth.accepted _ (verifyBytes_append hrange tail) _
      (referenceOf_append hrange tail) blob hblob)
  · intro hforged
    have haccepted : ∀ report, verifyBytes buf = .ok report → ∀ reference,
        ReferenceOf buf reference → ∀ blob ∈ reference.inlineMetadata,
          hashSection blob = reference.metadataHash := by
      intro report hverify reference href blob hblob
      rcases verifyBytes_eq_ok_iff.1 hverify with ⟨sections, tail, hrange, rfl, -⟩
      rcases href.unique (referenceOf_append hrange tail) with rfl
      by_contra hne
      exact hforged ⟨sections, tail, hrange, rfl, blob, hblob, hne⟩
    refine ⟨haccepted, ?_⟩
    intro reference href blob hblob hne
    -- A buffer that is refused is refused with a `ParseError`, whatever its blob.
    cases hverify : verifyBytes buf with
    | ok report =>
        exact absurd (haccepted report hverify reference href blob hblob) hne
    | error e =>
        rcases verifyBytes_raises hverify with ⟨pe, rfl⟩
        exact ⟨pe, rfl⟩

end Inline

open scoped Reference in
/-- The one-byte blob `00` behind a hash of zeros is accepted. -/
theorem inlineAuthenticated_fails_zeros :
    ¬ InlineAuthenticated (Reference.sections (List.replicate 32 0) [0] (by simp)).wire := by
  intro hauth
  have hrange : (Reference.sections (List.replicate 32 0) [0] (by simp)).InRange :=
    Reference.sections_inRange (by decide) (by decide)
  have hverify := verifyBytes_append hrange []
  have href := referenceOf_append hrange []
  rw [List.append_nil] at hverify href
  have hdigest : Reference.digest [0] ≠ List.replicate 32 0 := by
    decide +kernel
  exact hdigest (hauth.accepted _ hverify _ href [0] rfl)

/-! ## Required flags -/

section Flags

variable [UnicodeData]

variable [Blake3]

end Flags

namespace Reference

end Reference

end LimniFs
