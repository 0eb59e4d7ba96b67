import LimniFs.DirectoryNode
import LimniFs.Inode

/-!
# Metadata — the metadata blob

A counted list of inodes and a counted list of directory nodes.  The order within each list is the
writer's choice.
-/

namespace LimniFs

open Wire

structure MetadataBlob where
  inodes : List Inode
  dirNodes : List DirectoryNode
  deriving DecidableEq

namespace MetadataBlob

def inodeByNumber (blob : MetadataBlob) (number : Nat) : Option Inode :=
  blob.inodes.find? fun inode => inode.number = number

/-- The numbers that some directory entry refers to. -/
def referenced (blob : MetadataBlob) : List Nat :=
  blob.dirNodes.flatMap fun node => node.entries.map DirEntry.inodeNumber

/-- The one directory inode that no directory entry refers to. -/
def rootInodeNumber (blob : MetadataBlob) : Option Nat :=
  let candidates := (blob.inodes.filter fun inode =>
    inode.isDirectory ∧ inode.number ∉ blob.referenced).map Inode.number
  match candidates with
  -- No candidate, or more than one, leaves the root open.
  | [number] => some number
  | _ => none

end MetadataBlob

def parseMetadataBlob [UnicodeData] (maxInlineBytes : Nat) : Parser MetadataBlob := do
  let inodeCount ← readU32Le
  let inodes ← repeatIndexed (fun _ => parseInode maxInlineBytes) 0 inodeCount
  let dirNodeCount ← readU32Le
  let dirNodes ← repeatIndexed (fun _ => parseDirectoryNode) 0 dirNodeCount
  return { inodes, dirNodes }

/-! ## Lookups -/

namespace MetadataBlob

/-- The directory inodes that no directory entry refers to. -/
def rootCandidates (blob : MetadataBlob) : List Inode :=
  blob.inodes.filter fun inode => inode.isDirectory ∧ inode.number ∉ blob.referenced

theorem rootInodeNumber_eq_some_iff {blob : MetadataBlob} {number : Nat} :
    blob.rootInodeNumber = some number ↔ blob.rootCandidates.map Inode.number = [number] := by
  unfold rootInodeNumber rootCandidates
  dsimp only
  split
  · rename_i heq
    rw [heq]
    simp
  -- The candidates are not exactly one, so they are not the one that is asked for.
  · rename_i hne
    constructor
    · intro h
      cases h
    · intro h
      exact absurd h (hne number)

theorem mem_referenced_iff {blob : MetadataBlob} {number : Nat} :
    number ∈ blob.referenced ↔
      ∃ node ∈ blob.dirNodes, ∃ entry ∈ node.entries, entry.inodeNumber = number := by
  simp [referenced]

end MetadataBlob

/-! ## Wire format -/

namespace MetadataBlob

structure InRange (maxInlineBytes : Nat) (blob : MetadataBlob) : Prop where
  inodes_lt : blob.inodes.length < 2 ^ 32
  inodes : ∀ inode ∈ blob.inodes, inode.InRange maxInlineBytes
  dirNodes_lt : blob.dirNodes.length < 2 ^ 32
  dirNodes : ∀ node ∈ blob.dirNodes, node.InRange

def wire (blob : MetadataBlob) : Bytes :=
  toLe 4 blob.inodes.length ++ blob.inodes.flatMap Inode.wire ++ toLe 4 blob.dirNodes.length ++
    blob.dirNodes.flatMap DirectoryNode.wire

end MetadataBlob

section Blob

variable [UnicodeData]

theorem parseMetadataBlob_reads {blob : MetadataBlob} {maxInlineBytes : Nat}
    (hblob : blob.InRange maxInlineBytes) :
    Reads (parseMetadataBlob maxInlineBytes) blob.wire blob := by
  unfold parseMetadataBlob MetadataBlob.wire
  simp only [List.append_assoc]
  apply Reads.bind (readU32Le_decodes.reads hblob.inodes_lt)
  apply Reads.bind (Reads.repeatIndexed
    (fun _ inode hinode => parseInode_reads (hblob.inodes inode hinode)) 0)
  apply Reads.bind (readU32Le_decodes.reads hblob.dirNodes_lt)
  exact (Reads.repeatIndexed
    (fun _ node hnode => parseDirectoryNode_decodes.reads (hblob.dirNodes node hnode)) 0).bind_pure

/-- What is accepted as a metadata blob is in range, and what is refused is a `ParseError`. -/
theorem parseMetadataBlob_ensures (maxInlineBytes : Nat) :
    Ensures (fun blob => (∀ inode ∈ blob.inodes, inode.InRange maxInlineBytes) ∧
      ∀ node ∈ blob.dirNodes, node.InRange) (parseMetadataBlob maxInlineBytes) := by
  -- Only the elements are judged: an inode may come from more than one encoding.
  apply Wire.Ensures.bind readU32Le_ensures
  intro inodeCount _
  apply Wire.Ensures.bind
    (Wire.Ensures.repeatIndexed (fun _ => parseInode_ensures maxInlineBytes) inodeCount 0)
  intro inodes hinodes
  apply Wire.Ensures.bind readU32Le_ensures
  intro dirNodeCount _
  apply Wire.Ensures.bind
    (Wire.Ensures.repeatIndexed (fun _ => parseDirectoryNode_ensures) dirNodeCount 0)
  intro dirNodes hdirNodes
  exact Wire.Ensures.pure ⟨hinodes, hdirNodes⟩

end Blob

end LimniFs
