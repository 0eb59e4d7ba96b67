import LimniFs.DmsPolicy
import LimniFs.EcParams
import LimniFs.FeatureFlags
import LimniFs.Header
import LimniFs.History
import LimniFs.Merkle
import LimniFs.Metadata
import LimniFs.MetadataReference
import LimniFs.SlabIndex

/-!
# Cli — `_verify_bytes`

The verifier runs the section parsers over one cursor, reads the optional sections when their
feature flag is declared, hashes the slice of the buffer that each section came from, and reports
the `ManifestRoot` together with a summary of the inline metadata.
-/

namespace LimniFs

open Wire

/-! ## The sections of a manifest -/

/-- The values of the sections.  The source drops the two optional ones after parsing them. -/
structure Sections where
  header : ManifestHeader
  flags : FeatureFlags
  metadataReference : MetadataReference
  slabIndex : SlabIndex
  ecParams : Option EcParams
  dmsPolicy : Option DmsPolicy
  history : History
  deriving DecidableEq

/-- The parts of the buffer that the sections were read from: `buf[start:end]`. -/
structure Slices where
  header : Bytes
  flags : Bytes
  metadataReference : Bytes
  slabIndex : Bytes
  ecParams : Bytes
  dmsPolicy : Bytes
  history : Bytes
  deriving DecidableEq

def flagEc : Nat := 0x0001
def flagDms : Nat := 0x0002

namespace FeatureFlags

/-- `flags.get(0x0001) is not None` -/
def hasEc (flags : FeatureFlags) : Bool :=
  (flags.get flagEc).isSome

/-- `flags.get(0x0002) is not None` -/
def hasDms (flags : FeatureFlags) : Bool :=
  (flags.get flagDms).isSome

end FeatureFlags

section Verify

variable [UnicodeData]

def parseSections : Parser (Sections × Slices) := do
  let (header, headerSlice) ← withSlice parseManifestHeader
  let (flags, flagsSlice) ← withSlice parseFeatureFlagsSection
  let (metadataReference, metaRefSlice) ← withSlice
    (parseMetadataReferenceSection defaultLocatorMaxUriBytes defaultInlineMetadataMaxBytes)
  let (slabIndex, slabIndexSlice) ← withSlice (parseSlabIndexSection defaultLocatorMaxUriBytes)
  -- Without its flag an optional section takes no bytes and its slice is empty.
  let (ecParams, ecParamsSlice) ← withSlice (parseOptional flags.hasEc parseEcParamsSection)
  let (dmsPolicy, dmsPolicySlice) ← withSlice (parseOptional flags.hasDms
    (parseDmsPolicySection defaultShareDataMaxBytes defaultHintMaxBytes))
  let (history, historySlice) ← withSlice (parseHistorySection defaultHistoryParamsMaxBytes)
  return ({ header, flags, metadataReference, slabIndex, ecParams, dmsPolicy, history },
    { header := headerSlice, flags := flagsSlice, metadataReference := metaRefSlice,
      slabIndex := slabIndexSlice, ecParams := ecParamsSlice, dmsPolicy := dmsPolicySlice,
      history := historySlice })

/-! ## The metadata summary -/

def contentHandleKindTag : ContentHandleKind → Nat
  | .inlineData => 1
  | .sliceMap => 2
  | .directory => 3
  | .symlink => 4
  | .device => 5
  | .pipe => 6

structure InodeSummary where
  number : Nat
  mode : Nat
  kind : Nat
  deriving DecidableEq

structure DirNodeSummary where
  entries : Nat
  first : String
  deriving DecidableEq

structure MetadataSummary where
  metadataInodeCount : Nat
  metadataDirNodeCount : Nat
  metadataRootInode : Option Nat
  metadataInodes : List InodeSummary
  metadataDirNodes : List DirNodeSummary
  deriving DecidableEq

def Inode.summary (inode : Inode) : InodeSummary where
  number := inode.number
  mode := inode.mode
  kind := contentHandleKindTag inode.contentHandle.kind

/-- `n.entries[0].name if n.entries else ""` -/
def DirectoryNode.summary (node : DirectoryNode) : DirNodeSummary where
  entries := node.entries.length
  first := (node.entries.head?.map DirEntry.name).getD ""

/-- The key order `(d["entries"], d["first"])`. -/
def DirNodeSummary.le (a b : DirNodeSummary) : Bool :=
  a.entries < b.entries ∨ a.entries = b.entries ∧ a.first ≤ b.first

def MetadataBlob.summary (blob : MetadataBlob) : MetadataSummary where
  metadataInodeCount := blob.inodes.length
  metadataDirNodeCount := blob.dirNodes.length
  metadataRootInode := blob.rootInodeNumber
  metadataInodes := (blob.inodes.map Inode.summary).mergeSort fun a b => a.number ≤ b.number
  metadataDirNodes := (blob.dirNodes.map DirectoryNode.summary).mergeSort DirNodeSummary.le

def metadataSummary (blobBytes : Bytes) : Except Exn MetadataSummary := do
  let (blob, _) ← parseMetadataBlob defaultInlineDataMaxBytes (.start blobBytes)
  return blob.summary

/-- `except ParseError: pass`: a `ParseError` leaves the report as it is, others escape. -/
def catchParseError {α : Type} : Except Exn α → Except Exn (Option α)
  | .ok a => .ok (some a)
  | .error (.parse _) => .ok none
  -- Any other exception is a defect of the metadata parser and is not caught.
  | .error e => .error e

/-- The summary of non-empty inline metadata that parses as a metadata blob. -/
def inlineSummary (inlineMetadata : Option Bytes) : Except Exn (Option MetadataSummary) :=
  match inlineMetadata with
  | none => .ok none
  | some blobBytes =>
      -- `if ref.inline_metadata:` is false for empty bytes.
      if blobBytes = [] then .ok none else catchParseError (metadataSummary blobBytes)

/-! ## The verifier -/

structure Report where
  magic : String
  dropStoreVersion : Nat
  metadataVersion : Nat
  manifestVersion : Nat
  featureFlags : List FeatureFlag
  metadataInlined : Bool
  slabIndexEntries : Nat
  historyEntries : Nat
  extraBytesAfterHistory : Nat
  merkleRoot : String
  metadata : Option MetadataSummary
  deriving DecidableEq

variable [Blake3]

/-- The ten slots of a parsed manifest. -/
def sectionHashesOf (sections : Sections) (slices : Slices) : Except Exn SectionHashes :=
  -- The metadata slot holds the hash that the reference section declares.
  SectionHashes.make sections.metadataReference.metadataHash (hashSection slices.header)
    (hashSection slices.flags) (hashSection slices.metadataReference)
    (hashSection slices.slabIndex) hashEmptySection
    (if sections.flags.hasEc then hashSection slices.ecParams else hashEmptySection)
    (if sections.flags.hasDms then hashSection slices.dmsPolicy else hashEmptySection)
    hashEmptySection (hashSection slices.history)

/-- What is reported of parsed sections with `extra` bytes behind them. -/
def reportSections (sections : Sections) (slices : Slices) (extra : Nat) : Except Exn Report := do
  let sectionHashes ← sectionHashesOf sections slices
  let merkleRoot ← computeMerkleRoot sectionHashes
  let metadata ← inlineSummary sections.metadataReference.inlineMetadata
  return {
    magic := "LMFS"
    dropStoreVersion := sections.header.dropStoreVersion
    metadataVersion := sections.header.metadataVersion
    manifestVersion := sections.header.manifestVersion
    featureFlags := sections.flags.entries
    metadataInlined := sections.metadataReference.isInlined
    slabIndexEntries := sections.slabIndex.entries.length
    historyEntries := sections.history.entries.length
    extraBytesAfterHistory := extra
    merkleRoot := merkleRoot.toText
    metadata }

/-- `_verify_bytes(buf)` -/
def verifyBytes (buf : Bytes) : Except Exn Report := do
  let ((sections, slices), cursor) ← parseSections (.start buf)
  reportSections sections slices cursor.remainingLen

end Verify

end LimniFs
