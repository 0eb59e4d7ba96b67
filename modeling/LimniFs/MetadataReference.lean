import LimniFs.Locator

/-!
# MetadataReference — the metadata reference section

The declared BLAKE3 hash of the metadata blob, and the locators or the inline bytes to fetch it
from.  A length of 0 stands for absent inline bytes; a section without any source is corrupt.
-/

namespace LimniFs

open Wire

def metadataReferenceSectionVersion : Nat := 1
def defaultInlineMetadataMaxBytes : Nat := 1024 * 1024

structure MetadataReference where
  metadataHash : Bytes
  locators : List LocatorEntry
  inlineMetadata : Option Bytes
  length_metadataHash : metadataHash.length = 32
  deriving DecidableEq

namespace MetadataReference

def make (metadataHash : Bytes) (locators : List LocatorEntry) (inlineMetadata : Option Bytes) :
    Except Exn MetadataReference :=
  if h : metadataHash.length = 32 then
    .ok ⟨metadataHash, locators, inlineMetadata, h⟩
  else
    .error (.valueError s!"metadata_hash must be 32 bytes, got {metadataHash.length}")

def isInlined (reference : MetadataReference) : Bool :=
  reference.inlineMetadata.isSome

end MetadataReference

/-- The inline bytes of a declared length, 0 for none. -/
def parseInlineMetadata (inlineMetadataLen maxInlineMetadataBytes : Nat) :
    Parser (Option Bytes) :=
  if inlineMetadataLen = 0 then
    pure none
  else do
    raiseIf (inlineMetadataLen > maxInlineMetadataBytes)
      (.corrupt (s!"metadata_reference inline_metadata_len {inlineMetadataLen} " ++
        s!"exceeds ceiling {maxInlineMetadataBytes}"))
    let inlineMetadata ← read inlineMetadataLen
    return some inlineMetadata

def parseMetadataReferenceSection [UnicodeData] (maxLocatorUriBytes maxInlineMetadataBytes : Nat) :
    Parser MetadataReference := do
  let sectionVersion ← readU8
  raiseIf (sectionVersion ≠ metadataReferenceSectionVersion)
    (.unsupportedFeature (s!"metadata_reference section version {sectionVersion} " ++
      s!"(supported: {metadataReferenceSectionVersion})"))
  let metadataHash ← read 32
  let locatorCount ← readU32Le
  let locators ← parseLocatorEntries locatorCount maxLocatorUriBytes
  let inlineMetadataLen ← readU32Le
  let inlineMetadata ← parseInlineMetadata inlineMetadataLen maxInlineMetadataBytes
  raiseIf (locators = [] ∧ inlineMetadata = none)
    (.corrupt ("metadata_reference is unreachable: locator_count=0 and " ++
      "inline_metadata_len=0 (need at least one source)"))
  MetadataReference.make metadataHash locators inlineMetadata

/-! ## Wire format -/

namespace MetadataReference

/-- The length field of the inline bytes: 0 says that there are none. -/
def inlineLen (inlineMetadata : Option Bytes) : Nat :=
  (inlineMetadata.getD []).length

structure InRange [UnicodeData] (maxLocatorUriBytes maxInlineMetadataBytes : Nat)
    (reference : MetadataReference) : Prop where
  locators_lt : reference.locators.length < 2 ^ 32
  locators : ∀ entry ∈ reference.locators, entry.Accepted maxLocatorUriBytes
  inline : ∀ blob ∈ reference.inlineMetadata,
    blob ≠ [] ∧ blob.length < 2 ^ 32 ∧ blob.length ≤ maxInlineMetadataBytes
  reachable : ¬ (reference.locators = [] ∧ reference.inlineMetadata = none)

def wire (reference : MetadataReference) : Bytes :=
  [UInt8.ofNat metadataReferenceSectionVersion] ++ reference.metadataHash ++
    toLe 4 reference.locators.length ++ reference.locators.flatMap LocatorEntry.wire ++
    toLe 4 (inlineLen reference.inlineMetadata) ++ reference.inlineMetadata.getD []

end MetadataReference

theorem parseInlineMetadata_decodes (len maxInlineMetadataBytes : Nat) :
    Decodes (parseInlineMetadata len maxInlineMetadataBytes)
      (fun inline => MetadataReference.inlineLen inline = len ∧
        ∀ blob ∈ inline, blob ≠ [] ∧ blob.length ≤ maxInlineMetadataBytes)
      (fun inline => inline.getD []) := by
  unfold parseInlineMetadata
  -- A length of 0 is read without a further byte; any other length is the length of a blob.
  split
  · rename_i hzero
    have hnone : ∀ inline : Option Bytes, (MetadataReference.inlineLen inline = len ∧
        ∀ blob ∈ inline, blob ≠ [] ∧ blob.length ≤ maxInlineMetadataBytes) ↔ inline = none := by
      intro inline
      constructor
      · rintro ⟨hlen, hinline⟩
        cases inline with
        | none =>
            rfl
        | some blob =>
            have hblob : blob.length = 0 := hlen.trans hzero
            exact absurd (List.length_eq_zero_iff.1 hblob) (hinline blob rfl).1
      · rintro rfl
        simp [MetadataReference.inlineLen, hzero]
    refine (Wire.Decodes.pure_iff hnone).congr (fun _ => Iff.rfl) ?_
    intro inline hinline
    rw [(hnone inline).1 hinline]
    rfl
  · rename_i hne
    apply Wire.Decodes.record
    · apply Wire.Decodes.check
      · rintro inline ⟨hlen, hinline⟩ -
        cases inline with
        | none =>
            exact absurd hlen.symm hne
        | some blob =>
            have hmax := (hinline blob rfl).2
            have hblob : blob.length = len := hlen
            omega
      intro hmax
      apply Wire.Decodes.field (fun inline : Option Bytes => inline.getD []) (read_decodes len)
      · exact fun inline hinline _ => hinline.1
      intro blob hblob
      apply Wire.Decodes.done
      · refine ⟨hblob, ?_⟩
        rintro _ ⟨⟩
        refine ⟨?_, by omega⟩
        rintro rfl
        exact hne hblob.symm
      · exact ⟨trivial, rfl⟩
      · rintro inline ⟨hlen, -⟩ ⟨-, rfl⟩
        cases inline with
        | none =>
            exact absurd hlen.symm hne
        | some blob =>
            rfl
    · intro inline _
      simp

theorem parseMetadataReferenceSection_decodes [UnicodeData]
    (maxLocatorUriBytes maxInlineMetadataBytes : Nat) :
    Decodes (parseMetadataReferenceSection maxLocatorUriBytes maxInlineMetadataBytes)
      (MetadataReference.InRange maxLocatorUriBytes maxInlineMetadataBytes)
      MetadataReference.wire := by
  apply Wire.Decodes.record
  · apply Wire.Decodes.expect metadataReferenceSectionVersion readU8_decodes (by decide)
    apply Wire.Decodes.field MetadataReference.metadataHash (read_decodes 32)
    · exact fun reference _ _ => reference.length_metadataHash
    intro metadataHash hhash
    apply Wire.Decodes.field (fun reference : MetadataReference => reference.locators.length)
      readU32Le_decodes
    · exact fun reference href _ => href.locators_lt
    intro locatorCount hcount
    apply Wire.Decodes.field MetadataReference.locators
      (parseLocatorEntries_decodes locatorCount maxLocatorUriBytes)
    · exact fun reference href hk => ⟨hk.2, href.locators⟩
    rintro locators ⟨rfl, hlocators⟩
    apply Wire.Decodes.field
      (fun reference : MetadataReference =>
        MetadataReference.inlineLen reference.inlineMetadata) readU32Le_decodes
    -- The length field is 0 or the length of the blob, and both fit its width.
    · intro reference href _
      cases hinline : reference.inlineMetadata with
      | none =>
          simp [MetadataReference.inlineLen]
      | some blob =>
          exact (href.inline blob (by simp [hinline])).2.1
    intro inlineMetadataLen hlen
    apply Wire.Decodes.field MetadataReference.inlineMetadata
      (parseInlineMetadata_decodes inlineMetadataLen maxInlineMetadataBytes)
    · intro reference href hk
      exact ⟨hk.2, fun blob hblob =>
        ⟨(href.inline blob hblob).1, (href.inline blob hblob).2.2⟩⟩
    rintro inlineMetadata ⟨rfl, hinline⟩
    apply Wire.Decodes.check
    · rintro reference href ⟨⟨⟨-, rfl⟩, -⟩, rfl⟩
      exact href.reachable
    intro hreach
    -- 32 bytes were read as the hash, so the constructor's own check passes.
    apply Wire.Decodes.doneOk (dif_pos hhash)
    · refine ⟨hcount, hlocators, ?_, hreach⟩
      intro blob hblob
      rcases hinline blob hblob with ⟨hne, hmax⟩
      have hblob' : inlineMetadata = some blob := hblob
      rw [hblob'] at hlen
      exact ⟨hne, hlen, hmax⟩
    · exact ⟨⟨⟨⟨⟨trivial, rfl⟩, rfl⟩, rfl⟩, rfl⟩, rfl⟩
    · rintro ⟨_, _, _, _⟩ - ⟨⟨⟨⟨⟨-, rfl⟩, -⟩, rfl⟩, -⟩, rfl⟩
      rfl
  · intro reference _
    simp [MetadataReference.wire]

theorem parseInlineMetadata_ensures (len maxInlineMetadataBytes : Nat) :
    Ensures (fun _ => True) (parseInlineMetadata len maxInlineMetadataBytes) := by
  unfold parseInlineMetadata
  split
  · exact Wire.Ensures.pure trivial
  · apply Wire.Ensures.raiseIf (fun _ => Exn.isParseError_parse _)
    intro _
    apply Wire.Ensures.bind (read_ensures len)
    intro blob _
    exact Wire.Ensures.pure trivial

theorem parseMetadataReferenceSection_ensures [UnicodeData]
    (maxLocatorUriBytes maxInlineMetadataBytes : Nat) :
    Ensures (MetadataReference.InRange maxLocatorUriBytes maxInlineMetadataBytes)
      (parseMetadataReferenceSection maxLocatorUriBytes maxInlineMetadataBytes) := by
  refine Wire.Ensures.valid (P := fun _ => True) ?_
    (parseMetadataReferenceSection_decodes maxLocatorUriBytes maxInlineMetadataBytes)
  apply Wire.Ensures.bind readU8_ensures
  intro sectionVersion _
  apply Wire.Ensures.raiseIf (fun _ => Exn.isParseError_parse _)
  intro _
  apply Wire.Ensures.bind (read_ensures 32)
  intro metadataHash hlen
  apply Wire.Ensures.bind readU32Le_ensures
  intro locatorCount _
  apply Wire.Ensures.bind (parseLocatorEntries_ensures locatorCount maxLocatorUriBytes)
  intro locators _
  apply Wire.Ensures.bind readU32Le_ensures
  intro inlineMetadataLen _
  apply Wire.Ensures.bind (parseInlineMetadata_ensures inlineMetadataLen maxInlineMetadataBytes)
  intro inlineMetadata _
  apply Wire.Ensures.raiseIf (fun _ => Exn.isParseError_parse _)
  intro _
  rw [MetadataReference.make, dif_pos hlen]
  exact Wire.Ensures.pure trivial

end LimniFs
