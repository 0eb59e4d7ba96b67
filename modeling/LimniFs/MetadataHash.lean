import LimniFs.BlobRecords
import LimniFs.Builder
import LimniFs.Codec

/-!
# MetadataHash — directory nodes by the hash of their bytes

A directory inode names its node by the BLAKE3 hash of the node's bytes.  The reader keeps no bytes:
`dir_node_hash` writes the decoded entries out again, with an encoder of its own, and hashes what
it wrote.  On every node that the parser returns that encoder inverts the parser.
-/

namespace LimniFs

open Wire

/-! ## The second encoder -/

/-- `out += n.to_bytes(width, "little")` -/
def emitToBytes (width n : Nat) : Encoder Unit := do
  let raw ← toBytesLe width n
  emit raw

/-- `out.append(byte)` on a `bytearray`, which refuses what is no byte. -/
def appendByte (byte : Nat) : Encoder Unit :=
  if byte < 256 then
    emit [UInt8.ofNat byte]
  else
    throw (.valueError "byte must be in range(0, 256)")

def encodeDirEntry (entry : DirEntry) : Encoder Unit := do
  let nameBytes := encodeUtf8 entry.name
  emitToBytes 4 nameBytes.length
  emit nameBytes
  emitToBytes 8 entry.inodeNumber
  appendByte entry.entryType

def encodeDirEntries (entries : List DirEntry) : Encoder Unit := do
  -- The version is written as a literal, whatever the version of the node was.
  appendByte 1
  emitToBytes 4 entries.length
  emitEach encodeDirEntry entries

section Hash

variable [Blake3]

def dirNodeHash (entries : List DirEntry) : Except Exn Bytes := do
  let ((), out) ← encodeDirEntries entries []
  return hashSection out

/-- The loop of `dir_node_by_hash` over the nodes. -/
def findDirNode (hash : Bytes) : List DirectoryNode → Except Exn (Option DirectoryNode)
  | [] => .ok none
  | node :: nodes => do
      let nodeHash ← dirNodeHash node.entries
      if nodeHash = hash then return some node else findDirNode hash nodes

def MetadataBlob.dirNodeByHash (blob : MetadataBlob) (hash : Bytes) :
    Except Exn (Option DirectoryNode) :=
  findDirNode hash blob.dirNodes

end Hash

/-! ## It writes what was read -/

theorem emitToBytes_emits {width n : Nat} (h : n < 256 ^ width) :
    Emits (emitToBytes width n) (toLe width n) () := by
  unfold emitToBytes toBytesLe
  rw [if_pos h]
  exact Emits.emit

theorem appendByte_emits {byte : Nat} (h : byte < 256) :
    Emits (appendByte byte) [UInt8.ofNat byte] () := by
  unfold appendByte
  rw [if_pos h]
  exact Emits.emit

theorem encodeDirEntry_emits {entry : DirEntry} (h : entry.InRange) :
    Emits (encodeDirEntry entry) entry.wire () := by
  unfold encodeDirEntry DirEntry.wire
  simp only [List.append_assoc]
  apply Emits.bind (emitToBytes_emits h.name_lt)
  apply Emits.bind Emits.emit
  apply Emits.bind (emitToBytes_emits h.inodeNumber_lt)
  exact appendByte_emits (EntryType.isValid_lt h.entryType)

theorem encodeDirEntries_emits {node : DirectoryNode} (h : node.InRange) :
    Emits (encodeDirEntries node.entries) node.wire () := by
  unfold encodeDirEntries DirectoryNode.wire
  simp only [List.append_assoc]
  apply Emits.bind (appendByte_emits (by decide))
  apply Emits.bind (emitToBytes_emits h.length_lt)
  exact Emits.emitEach fun entry hentry => encodeDirEntry_emits (h.entries entry hentry)

section Hash

variable [Blake3]

/-- The hash of the decoded entries is the hash of the encoding. -/
theorem dirNodeHash_eq {node : DirectoryNode} (h : node.InRange) :
    dirNodeHash node.entries = .ok (hashSection node.wire) := by
  unfold dirNodeHash
  rw [encodeDirEntries_emits h []]
  rfl

/-- The lookup never raises on nodes in range, and it finds the first one with the hash. -/
theorem dirNodeByHash_eq {blob : MetadataBlob} (h : ∀ node ∈ blob.dirNodes, node.InRange)
    (hash : Bytes) : blob.dirNodeByHash hash =
      .ok (blob.dirNodes.find? fun node => hashSection node.wire = hash) := by
  unfold MetadataBlob.dirNodeByHash
  generalize blob.dirNodes = nodes at h
  induction nodes with
  | nil =>
      rfl
  | cons node nodes ih =>
      rcases List.forall_mem_cons.1 h with ⟨hnode, hnodes⟩
      simp only [findDirNode, dirNodeHash_eq hnode, bind, Except.bind, List.find?_cons]
      by_cases heq : hashSection node.wire = hash
      · simp [heq, pure, Except.pure]
      · simp [heq, ih hnodes]

end Hash

/-! ## Directories are reachable by the hash of their bytes -/

section Agreement

variable [UnicodeData] [Blake3]

/-- What `dir_node_by_hash` answers for a blob with the directory node records `records`. -/
structure FindsFirst (blob : MetadataBlob) (records : List Bytes) (hash : Bytes) : Prop where
  isSome_iff : (∃ node, blob.dirNodeByHash hash = .ok (some node)) ↔
    ∃ record ∈ records, hashSection record = hash
  isNone_iff : blob.dirNodeByHash hash = .ok none ↔
    ∀ record ∈ records, hashSection record ≠ hash
  first : ∀ node, blob.dirNodeByHash hash = .ok (some node) → ∃ before record after,
    records = before ++ record :: after ∧ (∀ earlier ∈ before, hashSection earlier ≠ hash) ∧
      hashSection record = hash ∧ ReadsWhole parseDirectoryNode record node

theorem findsFirst_map_wire {blob : MetadataBlob} (h : ∀ node ∈ blob.dirNodes, node.InRange)
    (hash : Bytes) : FindsFirst blob (blob.dirNodes.map DirectoryNode.wire) hash where
  isSome_iff := by
    simp only [dirNodeByHash_eq h, Except.ok.injEq, ← Option.isSome_iff_exists, List.find?_isSome]
    simp
  isNone_iff := by
    simp [dirNodeByHash_eq h]
  first := by
    intro node hfind
    rw [dirNodeByHash_eq h, Except.ok.injEq, List.find?_eq_some_iff_append] at hfind
    rcases hfind with ⟨hnode, before, after, heq, hbefore⟩
    refine ⟨before.map DirectoryNode.wire, node.wire, after.map DirectoryNode.wire, by simp [heq],
      ?_, by simpa using hnode, ?_⟩
    · simpa [List.forall_mem_map] using hbefore
    · exact readsWhole_directoryNode_iff.2 ⟨h node (by simp [heq]), rfl⟩

/-- The hash that the reader computes of a directory node is the hash of the bytes it was parsed
from, and so every directory node record of an accepted blob can be found under its hash. -/
theorem dirNodeHash_agrees :
    (∀ c node c', parseDirectoryNode c = .ok (node, c') →
      ∃ consumed, c.Consumes consumed c' ∧
        dirNodeHash node.entries = .ok (hashSection consumed)) ∧
    ∀ maxInlineBytes c blob c', parseMetadataBlob maxInlineBytes c = .ok (blob, c') →
      (∃ records : BlobRecords, records.Spell maxInlineBytes blob ∧
        c.Consumes records.wire c') ∧
      ∀ records : BlobRecords, records.Spell maxInlineBytes blob →
        ∀ hash, FindsFirst blob records.dirNodes hash := by
  constructor
  · intro c node c' h
    rcases parseDirectoryNode_decodes.sound h with ⟨hnode, hc⟩
    exact ⟨node.wire, hc, dirNodeHash_eq hnode⟩
  · intro maxInlineBytes c blob c' h
    refine ⟨parseMetadataBlob_eq_ok_iff.1 h, ?_⟩
    intro records hspell hash
    rcases forall₂_directoryNode_iff.1 hspell.dirNodes with ⟨hnodes, hrecords⟩
    rw [hrecords]
    exact findsFirst_map_wire hnodes hash

end Agreement

end LimniFs
