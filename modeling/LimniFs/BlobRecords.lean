import LimniFs.Metadata
import LimniFs.Wire.Local

/-!
# BlobRecords — the metadata blob cut into records

The value of an inode does not determine its bytes, so what is known of an accepted blob is that it
is made of records: byte strings that the record parsers read as a whole, one for each inode and
one for each directory node.
-/

namespace LimniFs

open Wire

/-! ## The record parsers look at nothing but the record -/

theorem parseInlineData_isLocal (inodeNumber maxInlineBytes : Nat) :
    Local (parseInlineData inodeNumber maxInlineBytes) := by
  apply Local.bind readU32Le_decodes.isLocal
  intro inlineLen
  apply Local.raiseIf
  intro _
  apply Local.bind (read_decodes inlineLen).isLocal
  intro data
  exact Local.pure

theorem parseSliceMap_isLocal (inodeNumber : Nat) : Local (parseSliceMap inodeNumber) := by
  apply Local.bind readU32Le_decodes.isLocal
  intro sliceCount
  apply Local.bind
    (Local.repeatIndexed (fun _ => (parseSliceRef_decodes inodeNumber).isLocal) sliceCount 0)
  intro slices
  exact Local.pure

theorem parseSymlink_isLocal : Local parseSymlink := by
  apply Local.bind readU32Le_decodes.isLocal
  intro targetLen
  apply Local.bind (read_decodes targetLen).isLocal
  intro targetBytes
  apply Local.bind Local.lift
  intro target
  exact Local.pure

theorem parseContentHandle_isLocal (mode flags inodeNumber maxInlineBytes : Nat) :
    Local (parseContentHandle mode flags inodeNumber maxInlineBytes) := by
  dsimp only [parseContentHandle]
  split
  · split
    · exact parseInlineData_isLocal inodeNumber maxInlineBytes
    · exact parseSliceMap_isLocal inodeNumber
  split
  · exact (read_decodes 32).isLocal.bind fun _ => Local.pure
  split
  · exact parseSymlink_isLocal
  split
  · exact readU64Le_decodes.isLocal.bind fun _ => Local.pure
  split
  · exact readU64Le_decodes.isLocal.bind fun _ => Local.pure
  · exact Local.raise

theorem parseAtime_isLocal (flags : Nat) : Local (parseAtime flags) := by
  unfold parseAtime
  split
  · exact readU64Le_decodes.isLocal.bind fun _ => Local.pure
  · exact Local.pure

theorem parseXattrs_isLocal (flags : Nat) : Local (parseXattrs flags) := by
  unfold parseXattrs
  split
  · exact (counted_decodes fun _ => parseXAttr_decodes).isLocal
  · exact Local.pure

theorem parseInode_isLocal (maxInlineBytes : Nat) : Local (parseInode maxInlineBytes) := by
  apply Local.bind readU64Le_decodes.isLocal
  intro number
  apply Local.bind readU32Le_decodes.isLocal
  intro mode
  apply Local.bind readU32Le_decodes.isLocal
  intro uid
  apply Local.bind readU32Le_decodes.isLocal
  intro gid
  apply Local.bind readU64Le_decodes.isLocal
  intro mtimeNs
  apply Local.bind readU64Le_decodes.isLocal
  intro ctimeNs
  apply Local.bind readU32Le_decodes.isLocal
  intro nlink
  apply Local.bind readU8_decodes.isLocal
  intro flags
  apply Local.raiseIf
  intro _
  apply Local.bind (parseAtime_isLocal flags)
  intro atimeNs
  apply Local.bind (parseXattrs_isLocal flags)
  intro xattrs
  apply Local.bind (parseContentHandle_isLocal mode flags number maxInlineBytes)
  intro contentHandle
  exact Local.pure

/-! ## Records -/

/-- The inode records and the directory node records of a blob, in the order of the blob. -/
structure BlobRecords where
  inodes : List Bytes
  dirNodes : List Bytes

namespace BlobRecords

def wire (records : BlobRecords) : Bytes :=
  toLe 4 records.inodes.length ++ records.inodes.flatten ++ toLe 4 records.dirNodes.length ++
    records.dirNodes.flatten

variable [UnicodeData]

/-- The records are read one by one as the inodes and the directory nodes of the blob. -/
structure Spell (maxInlineBytes : Nat) (records : BlobRecords) (blob : MetadataBlob) : Prop where
  inodes_lt : records.inodes.length < 2 ^ 32
  inodes : List.Forall₂ (ReadsWhole (parseInode maxInlineBytes)) records.inodes blob.inodes
  dirNodes_lt : records.dirNodes.length < 2 ^ 32
  dirNodes : List.Forall₂ (ReadsWhole parseDirectoryNode) records.dirNodes blob.dirNodes

end BlobRecords

section Blob

variable [UnicodeData] {maxInlineBytes : Nat} {blob : MetadataBlob}

/-- A record is the encoding of the directory node that it is read as. -/
theorem readsWhole_directoryNode_iff {record : Bytes} {node : DirectoryNode} :
    ReadsWhole parseDirectoryNode record node ↔ node.InRange ∧ record = node.wire := by
  constructor
  · rintro ⟨c, hrun, hrem⟩
    rcases parseDirectoryNode_decodes.sound hrun with ⟨hnode, hc⟩
    exact ⟨hnode, by simpa [hrem] using hc.2⟩
  · rintro ⟨hnode, rfl⟩
    exact (parseDirectoryNode_decodes.reads hnode).whole

/-- The directory node records are the encodings of the directory nodes. -/
theorem forall₂_directoryNode_iff {records : List Bytes} {nodes : List DirectoryNode} :
    List.Forall₂ (ReadsWhole parseDirectoryNode) records nodes ↔
      (∀ node ∈ nodes, node.InRange) ∧ records = nodes.map DirectoryNode.wire := by
  constructor
  · intro h
    induction h with
    | nil =>
        simp
    | cons hhead _ ih =>
        rcases readsWhole_directoryNode_iff.1 hhead with ⟨hnode, rfl⟩
        exact ⟨List.forall_mem_cons.2 ⟨hnode, ih.1⟩, by rw [List.map_cons, ih.2]⟩
  · rintro ⟨hnodes, rfl⟩
    refine List.forall₂_map_left_iff.2 (List.forall₂_same.2 ?_)
    exact fun node hnode => readsWhole_directoryNode_iff.2 ⟨hnodes node hnode, rfl⟩

/-- The parser accepts a blob exactly where its records lie in a row behind their counts. -/
theorem parseMetadataBlob_eq_ok_iff {c c' : Cursor} :
    parseMetadataBlob maxInlineBytes c = .ok (blob, c') ↔
      ∃ records : BlobRecords, records.Spell maxInlineBytes blob ∧ c.Consumes records.wire c' := by
  have hlocal := parseInode_isLocal maxInlineBytes
  have hlocal' := parseDirectoryNode_decodes.isLocal
  constructor
  · intro h
    unfold parseMetadataBlob at h
    rcases Wire.Decodes.of_bind_ok h with ⟨inodeCount, c₁, h₁, h⟩
    rcases Wire.Decodes.of_bind_ok h with ⟨inodes, c₂, h₂, h⟩
    rcases Wire.Decodes.of_bind_ok h with ⟨dirNodeCount, c₃, h₃, h⟩
    rcases Wire.Decodes.of_bind_ok h with ⟨dirNodes, c₄, h₄, h⟩
    cases h
    rcases readU32Le_decodes.sound h₁ with ⟨hlt, hc₁⟩
    rcases hlocal.records h₂ with ⟨rfl, inodeRecords, hinodes, hc₂⟩
    rcases readU32Le_decodes.sound h₃ with ⟨hlt', hc₃⟩
    rcases hlocal'.records h₄ with ⟨rfl, dirNodeRecords, hdirNodes, hc₄⟩
    -- Every record stands for one value, so the counts are the numbers of records.
    rw [← hinodes.length_eq] at hlt hc₁
    rw [← hdirNodes.length_eq] at hlt' hc₃
    refine ⟨⟨inodeRecords, dirNodeRecords⟩, ⟨hlt, ?_, hlt', ?_⟩, ?_⟩
    · exact hinodes.imp fun _ _ => Reads.whole
    · exact hdirNodes.imp fun _ _ => Reads.whole
    · exact ((hc₁.trans hc₂).trans hc₃).trans hc₄
  · rintro ⟨records, ⟨hlt, hinodes, hlt', hdirNodes⟩, hc⟩
    have hreads := Reads.records (hinodes.imp fun _ _ => hlocal.reads_iff.2) 0
    have hreads' := Reads.records (hdirNodes.imp fun _ _ => hlocal'.reads_iff.2) 0
    rw [← hinodes.length_eq] at hreads
    rw [← hdirNodes.length_eq] at hreads'
    have hblob : Reads (parseMetadataBlob maxInlineBytes) records.wire blob := by
      unfold parseMetadataBlob BlobRecords.wire
      simp only [List.append_assoc]
      apply Reads.bind (readU32Le_decodes.reads hlt)
      apply Reads.bind hreads
      apply Reads.bind (readU32Le_decodes.reads hlt')
      exact hreads'.bind_pure
    exact hblob c c' hc

theorem parseMetadataBlob_isLocal (maxInlineBytes : Nat) :
    Local (parseMetadataBlob maxInlineBytes) where
  consumes h := by
    rcases parseMetadataBlob_eq_ok_iff.1 h with ⟨records, hspell, hc⟩
    exact ⟨records.wire, hc, fun _ _ hc' => parseMetadataBlob_eq_ok_iff.2 ⟨records, hspell, hc'⟩⟩

/-- From the front of a buffer a blob is read that has its records there. -/
theorem parseMetadataBlob_start_iff {buf : Bytes} :
    (∃ c, parseMetadataBlob maxInlineBytes (.start buf) = .ok (blob, c)) ↔
      ∃ (records : BlobRecords) (tail : Bytes), records.Spell maxInlineBytes blob ∧
        buf = records.wire ++ tail := by
  constructor
  · rintro ⟨c, h⟩
    rcases parseMetadataBlob_eq_ok_iff.1 h with ⟨records, hspell, hc⟩
    exact ⟨records, c.remaining, hspell, by simpa using hc.2⟩
  · rintro ⟨records, tail, hspell, rfl⟩
    rcases Wire.Cursor.Consumes.of_append (Wire.Cursor.remaining_start (records.wire ++ tail)) with
      ⟨c, hc, -⟩
    exact ⟨c, parseMetadataBlob_eq_ok_iff.2 ⟨records, hspell, hc⟩⟩

end Blob

end LimniFs
