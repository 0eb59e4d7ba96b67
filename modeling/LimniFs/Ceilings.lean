import LimniFs.Wire.Tightens
import LimniFs.InodeLayouts
import LimniFs.Manifest

/-!
# Ceilings — what the configurable limits decide

The ceilings on locator URIs, inline metadata, history params, share data, hints and inline file
data are arguments of their parsers.  Lowering one never makes a parser read another value or stop
elsewhere: it accepts the values within the lower ceiling and raises `CorruptError` on the others.
-/

namespace LimniFs

open Wire

/-- A locator's URI is no longer than the ceiling. -/
def LocatorEntry.Within (maxUriBytes : Nat) (entry : LocatorEntry) : Prop :=
  (encodeUtf8 entry.uri).length ≤ maxUriBytes

structure MetadataReference.Within (maxLocatorUriBytes maxInlineMetadataBytes : Nat)
    (reference : MetadataReference) : Prop where
  locators : ∀ entry ∈ reference.locators, entry.Within maxLocatorUriBytes
  inline : ∀ blob ∈ reference.inlineMetadata, blob.length ≤ maxInlineMetadataBytes

def SlabIndex.Within (maxLocatorUriBytes : Nat) (index : SlabIndex) : Prop :=
  ∀ entry ∈ index.entries, ∀ locator ∈ entry.locators, locator.Within maxLocatorUriBytes

def History.Within (maxParamsBytes : Nat) (history : History) : Prop :=
  ∀ entry ∈ history.entries, entry.params.length ≤ maxParamsBytes

structure DmsPolicy.Within (maxShareDataBytes maxHintBytes : Nat) (policy : DmsPolicy) : Prop where
  shareData : ∀ share ∈ policy.shares, share.shareData.length ≤ maxShareDataBytes
  custodianId : ∀ share ∈ policy.shares, (encodeUtf8 share.custodianId).length ≤ maxHintBytes
  hint : (hintBytes policy.reconstructionHint).length ≤ maxHintBytes

def MetadataBlob.Within (maxInlineBytes : Nat) (blob : MetadataBlob) : Prop :=
  ∀ inode ∈ blob.inodes, inode.contentHandle.inlineBytes.length ≤ maxInlineBytes

/-- The limit check of a parser with two ceilings. -/
theorem exceeds_tightens {len ceiling ceiling' : Nat} (h : ceiling ≤ ceiling')
    (reason reason' : String) :
    Tightens Exn.IsCorrupt (raiseIf (len > ceiling) (.corrupt reason) : Parser Unit)
      (raiseIf (len > ceiling') (.corrupt reason')) :=
  Wire.Tightens.raiseIf (fun hlen => Nat.lt_of_le_of_lt h hlen) (Exn.isCorrupt_corrupt reason)

/-! ## Locators -/

/-- Naming the index leaves a corrupt entry corrupt. -/
theorem annotateLocatorError_isCorrupt (index : Nat) (e : Exn) (he : e.IsCorrupt) :
    (annotateLocatorError index e).IsCorrupt := by
  rcases he with ⟨reason, rfl⟩
  exact Exn.isCorrupt_corrupt _

section Locators

variable [UnicodeData] {uri uri' : Nat}

theorem LocatorEntry.accepted_iff (h : uri ≤ uri') (entry : LocatorEntry) :
    entry.Accepted uri ↔ entry.Accepted uri' ∧ entry.Within uri := by
  constructor
  · intro hentry
    exact ⟨{ hentry with le_max := hentry.le_max.trans h }, hentry.le_max⟩
  · rintro ⟨hentry, hwithin⟩
    exact { hentry with le_max := hwithin }

theorem parseLocatorEntry_tightens (h : uri ≤ uri') :
    Tightens Exn.IsCorrupt (parseLocatorEntry uri) (parseLocatorEntry uri') := by
  apply Wire.Tightens.after
  intro rawLength
  apply Wire.Tightens.after
  intro _
  exact (exceeds_tightens h _ _).before _

theorem parseLocatorEntries_tightens (h : uri ≤ uri') (count : Nat) :
    Tightens Exn.IsCorrupt (parseLocatorEntries count uri) (parseLocatorEntries count uri') := by
  apply Wire.Tightens.after
  intro _
  exact Wire.Tightens.repeatIndexed (fun index => (parseLocatorEntry_tightens h).mapError
    (annotateLocatorError_isCorrupt index)) count 0

end Locators

/-! ## Sections of the manifest -/

theorem parseInlineMetadata_tightens {inline inline' : Nat} (h : inline ≤ inline') (len : Nat) :
    Tightens Exn.IsCorrupt (parseInlineMetadata len inline) (parseInlineMetadata len inline') := by
  apply (Wire.Tightens.refl _).ite
  exact (exceeds_tightens h _ _).before _

section Sections

variable [UnicodeData] {uri uri' inline inline' : Nat}

theorem parseMetadataReferenceSection_restricts (huri : uri ≤ uri') (hinline : inline ≤ inline') :
    Restricts Exn.IsCorrupt (MetadataReference.Within uri inline)
      (parseMetadataReferenceSection uri inline) (parseMetadataReferenceSection uri' inline') := by
  apply (parseMetadataReferenceSection_decodes uri inline).restricts
    (parseMetadataReferenceSection_decodes uri' inline')
  · apply Wire.Tightens.after
    intro sectionVersion
    apply Wire.Tightens.after
    intro _
    apply Wire.Tightens.after
    intro metadataHash
    apply Wire.Tightens.after
    intro locatorCount
    apply (parseLocatorEntries_tightens huri locatorCount).bind
    intro locators
    apply Wire.Tightens.after
    intro inlineMetadataLen
    exact (parseInlineMetadata_tightens hinline inlineMetadataLen).before _
  · intro reference
    constructor
    · rintro ⟨hlt, hlocators, hblob, hreachable⟩
      have haccepted : ∀ entry ∈ reference.locators, entry.Accepted uri' ∧ entry.Within uri :=
        fun entry he => (LocatorEntry.accepted_iff huri entry).1 (hlocators entry he)
      refine ⟨⟨hlt, fun entry he => (haccepted entry he).1, fun blob hb => ?_, hreachable⟩,
        fun entry he => (haccepted entry he).2, fun blob hb => (hblob blob hb).2.2⟩
      rcases hblob blob hb with ⟨hne, hblt, hle⟩
      exact ⟨hne, hblt, hle.trans hinline⟩
    · rintro ⟨⟨hlt, hlocators, hblob, hreachable⟩, hwithin⟩
      refine ⟨hlt, fun entry he => ?_, fun blob hb => ?_, hreachable⟩
      · exact (LocatorEntry.accepted_iff huri entry).2
          ⟨hlocators entry he, hwithin.locators entry he⟩
      · rcases hblob blob hb with ⟨hne, hblt, -⟩
        exact ⟨hne, hblt, hwithin.inline blob hb⟩

theorem parseSlabIndexSection_restricts (huri : uri ≤ uri') :
    Restricts Exn.IsCorrupt (SlabIndex.Within uri) (parseSlabIndexSection uri)
      (parseSlabIndexSection uri') := by
  apply (parseSlabIndexSection_decodes uri).restricts (parseSlabIndexSection_decodes uri')
  · apply Wire.Tightens.after
    intro sectionVersion
    apply Wire.Tightens.after
    intro _
    apply Wire.Tightens.after
    intro entryCount
    apply Wire.Tightens.after
    intro _
    apply Wire.Tightens.before
    apply Wire.Tightens.collect
    intro index seen
    apply Wire.Tightens.after
    intro ordinal
    apply Wire.Tightens.after
    intro hash
    apply Wire.Tightens.after
    intro slabId
    apply Wire.Tightens.after
    intro _
    apply Wire.Tightens.after
    intro locatorCount
    apply Wire.Tightens.after
    intro _
    exact (parseLocatorEntries_tightens huri locatorCount).before _
  · intro index
    constructor
    · rintro ⟨hlt, hentries, hnodup⟩
      refine ⟨⟨hlt, fun entry he => ?_, hnodup⟩, fun entry he locator hl => ?_⟩
      · rcases hentries entry he with ⟨hllt, hne, hlocators⟩
        exact ⟨hllt, hne, fun locator hl =>
          ((LocatorEntry.accepted_iff huri locator).1 (hlocators locator hl)).1⟩
      · exact ((hentries entry he).locators locator hl).le_max
    · rintro ⟨⟨hlt, hentries, hnodup⟩, hwithin⟩
      refine ⟨hlt, fun entry he => ?_, hnodup⟩
      rcases hentries entry he with ⟨hllt, hne, hlocators⟩
      exact ⟨hllt, hne, fun locator hl => (LocatorEntry.accepted_iff huri locator).2
        ⟨hlocators locator hl, hwithin entry he locator hl⟩⟩

end Sections

theorem parseHistorySection_restricts {params params' : Nat} (h : params ≤ params') :
    Restricts Exn.IsCorrupt (History.Within params) (parseHistorySection params)
      (parseHistorySection params') := by
  apply (parseHistorySection_decodes params).restricts (parseHistorySection_decodes params')
  · apply Wire.Tightens.after
    intro sectionVersion
    apply Wire.Tightens.after
    intro _
    apply Wire.Tightens.after
    intro entryCount
    apply Wire.Tightens.after
    intro _
    apply Wire.Tightens.after
    intro _
    apply Wire.Tightens.before
    refine Wire.Tightens.repeatIndexed (fun index => ?_) entryCount 0
    apply Wire.Tightens.after
    intro opByte
    apply Wire.Tightens.after
    intro op
    apply Wire.Tightens.after
    intro timestampNs
    apply Wire.Tightens.after
    intro inputCount
    apply Wire.Tightens.after
    intro _
    apply Wire.Tightens.after
    intro inputsBytes
    apply Wire.Tightens.after
    intro inputs
    apply Wire.Tightens.after
    intro paramsLen
    exact (exceeds_tightens h _ _).before _
  · intro history
    constructor
    · rintro ⟨hlt, hne, hentries⟩
      refine ⟨⟨hlt, hne, fun entry he => ?_⟩, fun entry he => (hentries entry he).params_le⟩
      exact { hentries entry he with params_le := (hentries entry he).params_le.trans h }
    · rintro ⟨⟨hlt, hne, hentries⟩, hwithin⟩
      exact ⟨hlt, hne, fun entry he =>
        { hentries entry he with params_le := hwithin entry he }⟩

theorem parseDmsPolicySection_restricts [UnicodeData] {share share' hint hint' : Nat}
    (hshare : share ≤ share') (hhint : hint ≤ hint') :
    Restricts Exn.IsCorrupt (DmsPolicy.Within share hint) (parseDmsPolicySection share hint)
      (parseDmsPolicySection share' hint') := by
  apply (parseDmsPolicySection_decodes share hint).restricts
    (parseDmsPolicySection_decodes share' hint')
  · apply Wire.Tightens.after
    intro sectionVersion
    apply Wire.Tightens.after
    intro _
    apply Wire.Tightens.after
    intro scheme
    apply Wire.Tightens.after
    intro _
    apply Wire.Tightens.after
    intro _
    apply Wire.Tightens.after
    intro k
    apply Wire.Tightens.after
    intro n
    apply Wire.Tightens.after
    intro _
    apply Wire.Tightens.after
    intro _
    apply Wire.Tightens.after
    intro _
    apply Wire.Tightens.after
    intro shareCount
    apply Wire.Tightens.after
    intro _
    apply Wire.Tightens.bind
    · refine Wire.Tightens.collect (fun index seen => ?_) shareCount 0 []
      apply Wire.Tightens.after
      intro cidLen
      apply (exceeds_tightens hhint _ _).bind
      intro _
      apply Wire.Tightens.after
      intro cidBytes
      apply Wire.Tightens.after
      intro cid
      apply Wire.Tightens.after
      intro _
      apply Wire.Tightens.after
      intro _
      apply Wire.Tightens.after
      intro sdLen
      apply Wire.Tightens.after
      intro _
      exact (exceeds_tightens hshare _ _).before _
    intro shares
    apply Wire.Tightens.after
    intro hintLen
    apply Wire.Tightens.before
    apply (Wire.Tightens.refl _).ite
    exact (exceeds_tightens hhint _ _).before _
  · intro policy
    constructor
    · intro hpolicy
      refine ⟨{ hpolicy with
          shares := fun r hr => ?_, hint_le := hpolicy.hint_le.trans hhint }, ?_⟩
      · exact { hpolicy.shares r hr with
          custodianId_le := (hpolicy.shares r hr).custodianId_le.trans hhint
          shareData_le := (hpolicy.shares r hr).shareData_le.trans hshare }
      · exact ⟨fun r hr => (hpolicy.shares r hr).shareData_le,
          fun r hr => (hpolicy.shares r hr).custodianId_le, hpolicy.hint_le⟩
    · rintro ⟨hpolicy, hwithin⟩
      refine { hpolicy with shares := fun r hr => ?_, hint_le := hwithin.hint }
      exact { hpolicy.shares r hr with
        custodianId_le := hwithin.custodianId r hr
        shareData_le := hwithin.shareData r hr }

/-- Lower ceilings restrict the sections of the manifest that have one: what is accepted is what
was accepted within them, read as before, and the rest is corrupt. -/
theorem sections_ceilings [UnicodeData] {uri uri' inline inline' params params' : Nat}
    {share share' hint hint' : Nat} (huri : uri ≤ uri') (hinline : inline ≤ inline')
    (hparams : params ≤ params') (hshare : share ≤ share') (hhint : hint ≤ hint') :
    Restricts Exn.IsCorrupt (MetadataReference.Within uri inline)
      (parseMetadataReferenceSection uri inline) (parseMetadataReferenceSection uri' inline') ∧
    Restricts Exn.IsCorrupt (SlabIndex.Within uri) (parseSlabIndexSection uri)
      (parseSlabIndexSection uri') ∧
    Restricts Exn.IsCorrupt (History.Within params) (parseHistorySection params)
      (parseHistorySection params') ∧
    Restricts Exn.IsCorrupt (DmsPolicy.Within share hint) (parseDmsPolicySection share hint)
      (parseDmsPolicySection share' hint') :=
  ⟨parseMetadataReferenceSection_restricts huri hinline, parseSlabIndexSection_restricts huri,
    parseHistorySection_restricts hparams, parseDmsPolicySection_restricts hshare hhint⟩

open scoped Reference in
theorem sections_ceilings_lowered :
    Restricts Exn.IsCorrupt (MetadataReference.Within 64 256) (parseMetadataReferenceSection 64 256)
      (parseMetadataReferenceSection defaultLocatorMaxUriBytes defaultInlineMetadataMaxBytes) ∧
    Restricts Exn.IsCorrupt (SlabIndex.Within 64) (parseSlabIndexSection 64)
      (parseSlabIndexSection defaultLocatorMaxUriBytes) ∧
    Restricts Exn.IsCorrupt (History.Within 0) (parseHistorySection 0)
      (parseHistorySection defaultHistoryParamsMaxBytes) ∧
    Restricts Exn.IsCorrupt (DmsPolicy.Within 33 64) (parseDmsPolicySection 33 64)
      (parseDmsPolicySection defaultShareDataMaxBytes defaultHintMaxBytes) :=
  sections_ceilings (by decide) (by decide) (by decide) (by decide) (by decide)

/-! ## Metadata blobs -/

section Blob

variable {inline inline' : Nat}

theorem ContentHandle.inRange_iff (h : inline ≤ inline') (fileType : Nat) (handle : ContentHandle) :
    handle.InRange inline fileType ↔
      handle.InRange inline' fileType ∧ handle.inlineBytes.length ≤ inline := by
  cases handle with
  | inlineData data =>
      constructor
      · rintro ⟨htype, hlt, hle⟩
        exact ⟨⟨htype, hlt, hle.trans h⟩, hle⟩
      · rintro ⟨⟨htype, hlt, -⟩, hle⟩
        exact ⟨htype, hlt, hle⟩
  | sliceMap slices =>
      exact (and_iff_left (Nat.zero_le _)).symm
  | directory hash =>
      exact (and_iff_left (Nat.zero_le _)).symm
  | symlink target =>
      exact (and_iff_left (Nat.zero_le _)).symm
  | device deviceNumber =>
      exact (and_iff_left (Nat.zero_le _)).symm
  | pipe pipeId =>
      exact (and_iff_left (Nat.zero_le _)).symm

theorem Inode.inRange_iff (h : inline ≤ inline') (inode : Inode) :
    inode.InRange inline ↔
      inode.InRange inline' ∧ inode.contentHandle.inlineBytes.length ≤ inline := by
  constructor
  · intro hinode
    rcases (ContentHandle.inRange_iff h _ _).1 hinode.contentHandle with ⟨hhandle, hle⟩
    exact ⟨{ hinode with contentHandle := hhandle }, hle⟩
  · rintro ⟨hinode, hle⟩
    exact { hinode with
      contentHandle := (ContentHandle.inRange_iff h _ _).2 ⟨hinode.contentHandle, hle⟩ }

theorem MetadataBlob.inRange_iff (h : inline ≤ inline') (blob : MetadataBlob) :
    blob.InRange inline ↔ blob.InRange inline' ∧ blob.Within inline := by
  constructor
  · rintro ⟨hlt, hinodes, hnlt, hnodes⟩
    have heach : ∀ inode ∈ blob.inodes, inode.InRange inline' ∧
        inode.contentHandle.inlineBytes.length ≤ inline :=
      fun inode hi => (Inode.inRange_iff h inode).1 (hinodes inode hi)
    exact ⟨⟨hlt, fun inode hi => (heach inode hi).1, hnlt, hnodes⟩,
      fun inode hi => (heach inode hi).2⟩
  · rintro ⟨⟨hlt, hinodes, hnlt, hnodes⟩, hwithin⟩
    exact ⟨hlt, fun inode hi => (Inode.inRange_iff h inode).2 ⟨hinodes inode hi, hwithin inode hi⟩,
      hnlt, hnodes⟩

theorem Inode.encodedBy_iff (h : inline ≤ inline') (inode : Inode) (bs : Bytes) :
    inode.EncodedBy inline bs ↔
      inode.contentHandle.inlineBytes.length ≤ inline ∧ inode.EncodedBy inline' bs := by
  unfold Inode.EncodedBy
  rw [Inode.inRange_iff h inode, and_comm (a := inode.InRange inline'), and_assoc]

theorem MetadataBlob.encodedBy_iff (h : inline ≤ inline') (blob : MetadataBlob) (bs : Bytes) :
    blob.EncodedBy inline bs ↔ blob.EncodedBy inline' bs ∧ blob.Within inline := by
  have hrecs : ∀ recs, List.Forall₂ (Inode.EncodedBy inline) blob.inodes recs ↔
      blob.Within inline ∧ List.Forall₂ (Inode.EncodedBy inline') blob.inodes recs := by
    intro recs
    have hsame : Inode.EncodedBy inline = fun inode bs =>
        inode.contentHandle.inlineBytes.length ≤ inline ∧ inode.EncodedBy inline' bs := by
      funext inode bs
      exact propext (Inode.encodedBy_iff h inode bs)
    rw [hsame, List.forall₂_and_left]
    rfl
  constructor
  · rintro ⟨hrange, recs, hall, hbytes⟩
    rcases (hrecs recs).1 hall with ⟨hwithin, hall'⟩
    exact ⟨⟨((MetadataBlob.inRange_iff h blob).1 hrange).1, recs, hall', hbytes⟩, hwithin⟩
  · rintro ⟨⟨hrange, recs, hall, hbytes⟩, hwithin⟩
    exact ⟨(MetadataBlob.inRange_iff h blob).2 ⟨hrange, hwithin⟩, recs,
      (hrecs recs).2 ⟨hwithin, hall⟩, hbytes⟩

theorem parseContentHandle_tightens (h : inline ≤ inline') (mode flags inodeNumber : Nat) :
    Tightens Exn.IsCorrupt (parseContentHandle mode flags inodeNumber inline)
      (parseContentHandle mode flags inodeNumber inline') := by
  apply Wire.Tightens.ite
  · apply Wire.Tightens.ite
    · apply Wire.Tightens.after
      intro inlineLen
      exact (exceeds_tightens h _ _).before _
    · exact Wire.Tightens.refl _
  · exact Wire.Tightens.refl _

/-- A lower ceiling on inline data restricts the metadata blobs, the ones with several encodings
too. -/
theorem parseMetadataBlob_ceiling [UnicodeData] (h : inline ≤ inline') :
    Restricts Exn.IsCorrupt (MetadataBlob.Within inline) (parseMetadataBlob inline)
      (parseMetadataBlob inline') := by
  apply (parseMetadataBlob_recognizes inline).restricts (parseMetadataBlob_recognizes inline')
  · apply Wire.Tightens.after
    intro inodeCount
    apply Wire.Tightens.before
    refine Wire.Tightens.repeatIndexed (fun _ => ?_) inodeCount 0
    apply Wire.Tightens.after
    intro number
    apply Wire.Tightens.after
    intro mode
    apply Wire.Tightens.after
    intro uid
    apply Wire.Tightens.after
    intro gid
    apply Wire.Tightens.after
    intro mtimeNs
    apply Wire.Tightens.after
    intro ctimeNs
    apply Wire.Tightens.after
    intro nlink
    apply Wire.Tightens.after
    intro flags
    apply Wire.Tightens.after
    intro _
    apply Wire.Tightens.after
    intro atimeNs
    apply Wire.Tightens.after
    intro xattrs
    exact (parseContentHandle_tightens h mode flags number).before _
  · exact MetadataBlob.encodedBy_iff h

end Blob

open scoped Reference in
theorem parseMetadataBlob_ceiling_zero :
    Restricts Exn.IsCorrupt (MetadataBlob.Within 0) (parseMetadataBlob 0)
      (parseMetadataBlob defaultInlineDataMaxBytes) :=
  parseMetadataBlob_ceiling (Nat.zero_le _)

end LimniFs
