import LimniFs.FormatTypes

/-!
# Inode — inode records of the metadata blob

POSIX attributes, an optional access time, an optional block of extended attributes and a content
handle whose layout is chosen by the file type bits of `mode`.  The flags byte is not kept in the
parsed record, so one inode can have several encodings: the round trip is stated for the encoding
that sets exactly the flags of the fields that are present.
-/

namespace LimniFs

open Wire

def inodeFlagAtime : Nat := 0x01
def inodeFlagHasXattrs : Nat := 0x02
def inodeFlagInlineData : Nat := 0x04
def inodeFlagReservedMask : Nat := 0xF8

def sIfmt : Nat := 0xF000
def sIfreg : Nat := 0x8000
def sIfdir : Nat := 0x4000
def sIflnk : Nat := 0xA000
def sIfblk : Nat := 0x6000
def sIfchr : Nat := 0x2000
def sIfifo : Nat := 0x1000
def sIfsock : Nat := 0xC000

def defaultInlineDataMaxBytes : Nat := 4 * 1024

structure XAttr where
  namespaceId : Nat
  key : String
  value : Bytes
  deriving DecidableEq

/-- One entry of a slice map: a range of the file and where it lies in a drop's plaintext. -/
structure SliceRef where
  fileByteStart : Nat
  fileByteEnd : Nat
  dropId : DropId
  dropByteStart : Nat
  dropByteLen : Nat
  deriving DecidableEq

inductive ContentHandleKind
  | inlineData
  | sliceMap
  | directory
  | symlink
  | device
  | pipe
  deriving DecidableEq, Repr

/-- The content handle, with the fields that its kind uses; the others keep their defaults. -/
inductive ContentHandle
  | inlineData (data : Bytes)
  | sliceMap (slices : List SliceRef)
  | directory (hash : Bytes)
  | symlink (target : String)
  | device (deviceNumber : Nat)
  | pipe (pipeId : Nat)
  deriving DecidableEq

def ContentHandle.kind : ContentHandle → ContentHandleKind
  | .inlineData _ => .inlineData
  | .sliceMap _ => .sliceMap
  | .directory _ => .directory
  | .symlink _ => .symlink
  | .device _ => .device
  | .pipe _ => .pipe

/-- `content_handle.directory_hash`, which is empty for the other kinds. -/
def ContentHandle.directoryHash : ContentHandle → Bytes
  | .directory hash => hash
  | _ => []

structure Inode where
  number : Nat
  mode : Nat
  uid : Nat
  gid : Nat
  mtimeNs : Nat
  ctimeNs : Nat
  nlink : Nat
  contentHandle : ContentHandle
  atimeNs : Option Nat
  xattrs : List XAttr
  deriving DecidableEq

namespace Inode

def fileType (inode : Inode) : Nat :=
  inode.mode &&& sIfmt

def isDirectory (inode : Inode) : Bool :=
  inode.fileType = sIfdir

end Inode

/-! ## Parsers -/

def parseXAttr : Parser XAttr := do
  let namespaceId ← readU8
  raiseIf (namespaceId > 0x03)
    (.corrupt s!"xattr namespace 0x{formatHex 2 namespaceId} out of range (0x00..0x03)")
  let keyLen ← readU32Le
  let keyBytes ← read keyLen
  let key ← decodeText keyBytes "xattr key is not valid UTF-8"
  -- A NUL is looked for in the decoded text, after the UTF-8 check.
  raiseIf (Char.ofNat 0 ∈ key.toList) (.corrupt "xattr key contains NUL byte")
  let valueLen ← readU32Le
  let value ← read valueLen
  return { namespaceId, key, value }

def parseXattrBlock : Parser (List XAttr) := do
  let count ← readU32Le
  repeatIndexed (fun _ => parseXAttr) 0 count

def parseSliceRef (inodeNumber : Nat) : Parser SliceRef := do
  let fileByteStart ← readU64Le
  let fileByteEnd ← readU64Le
  raiseIf (fileByteStart ≥ fileByteEnd)
    (.corrupt (s!"inode {inodeNumber}: slice has file_byte_start " ++
      s!"({fileByteStart}) >= file_byte_end ({fileByteEnd})"))
  -- 32 bytes always make a `DropId`.
  let dropIdBytes ← read 32
  let dropId ← DropId.fromBytes dropIdBytes
  let dropByteStart ← readU32Le
  let dropByteLen ← readU32Le
  return { fileByteStart, fileByteEnd, dropId, dropByteStart, dropByteLen }

def parseInlineData (inodeNumber maxInlineBytes : Nat) : Parser ContentHandle := do
  let inlineLen ← readU32Le
  raiseIf (inlineLen > maxInlineBytes)
    (.corrupt (s!"inode {inodeNumber}: inline_data_len {inlineLen} " ++
      s!"exceeds ceiling {maxInlineBytes}"))
  let data ← read inlineLen
  return .inlineData data

def parseSliceMap (inodeNumber : Nat) : Parser ContentHandle := do
  let sliceCount ← readU32Le
  let slices ← repeatIndexed (fun _ => parseSliceRef inodeNumber) 0 sliceCount
  return .sliceMap slices

def parseSymlink : Parser ContentHandle := do
  let targetLen ← readU32Le
  let targetBytes ← read targetLen
  let target ← decodeText targetBytes "symlink target is not valid UTF-8"
  return .symlink target

def parseContentHandle (mode flags inodeNumber maxInlineBytes : Nat) : Parser ContentHandle :=
  let fileType := mode &&& sIfmt
  if fileType = sIfreg then
    -- A regular file is the only type whose layout depends on the flags.
    if flags &&& inodeFlagInlineData ≠ 0 then
      parseInlineData inodeNumber maxInlineBytes
    else
      parseSliceMap inodeNumber
  else if fileType = sIfdir then do
    let hash ← read 32
    return .directory hash
  else if fileType = sIflnk then
    parseSymlink
  else if fileType = sIfblk ∨ fileType = sIfchr then do
    let dev ← readU64Le
    return .device dev
  else if fileType = sIfifo ∨ fileType = sIfsock then do
    let pipeId ← readU64Le
    return .pipe pipeId
  else
    -- No file type bits, or bits that POSIX does not name.
    throw (.corrupt s!"inode {inodeNumber}: unknown file type 0x{formatHex 4 fileType}")

def parseAtime (flags : Nat) : Parser (Option Nat) :=
  -- The optional fields stand between the flags byte and the content handle.
  if flags &&& inodeFlagAtime ≠ 0 then do
    let atimeNs ← readU64Le
    return some atimeNs
  else
    pure none

def parseXattrs (flags : Nat) : Parser (List XAttr) :=
  if flags &&& inodeFlagHasXattrs ≠ 0 then
    parseXattrBlock
  else
    pure []

def parseInode (maxInlineBytes : Nat) : Parser Inode := do
  let number ← readU64Le
  let mode ← readU32Le
  let uid ← readU32Le
  let gid ← readU32Le
  let mtimeNs ← readU64Le
  let ctimeNs ← readU64Le
  let nlink ← readU32Le
  let flags ← readU8
  raiseIf (flags &&& inodeFlagReservedMask ≠ 0)
    (.corrupt s!"inode {number}: reserved flag bits set (0x{formatHex 2 flags})")
  let atimeNs ← parseAtime flags
  let xattrs ← parseXattrs flags
  let contentHandle ← parseContentHandle mode flags number maxInlineBytes
  return { number, mode, uid, gid, mtimeNs, ctimeNs, nlink, contentHandle, atimeNs, xattrs }

/-! ## Wire format -/

namespace XAttr

structure InRange (attr : XAttr) : Prop where
  namespaceId_le : attr.namespaceId ≤ 3
  key_lt : (encodeUtf8 attr.key).length < 2 ^ 32
  key_nul : Char.ofNat 0 ∉ attr.key.toList
  value_lt : attr.value.length < 2 ^ 32

def wire (attr : XAttr) : Bytes :=
  [UInt8.ofNat attr.namespaceId] ++ toLe 4 (encodeUtf8 attr.key).length ++ encodeUtf8 attr.key ++
    toLe 4 attr.value.length ++ attr.value

end XAttr

namespace SliceRef

structure InRange (ref : SliceRef) : Prop where
  fileByteStart_lt : ref.fileByteStart < ref.fileByteEnd
  fileByteEnd_lt : ref.fileByteEnd < 2 ^ 64
  dropByteStart_lt : ref.dropByteStart < 2 ^ 32
  dropByteLen_lt : ref.dropByteLen < 2 ^ 32

def wire (ref : SliceRef) : Bytes :=
  toLe 8 ref.fileByteStart ++ toLe 8 ref.fileByteEnd ++ ref.dropId.bytes ++
    toLe 4 ref.dropByteStart ++ toLe 4 ref.dropByteLen

end SliceRef

namespace ContentHandle

/-- The handle is one that the file type admits, with its own fields in range. -/
def InRange (maxInlineBytes fileType : Nat) : ContentHandle → Prop
  -- Both layouts of a regular file are admitted; the flags byte tells them apart.
  | .inlineData data =>
      fileType = sIfreg ∧ data.length < 2 ^ 32 ∧ data.length ≤ maxInlineBytes
  | .sliceMap slices =>
      fileType = sIfreg ∧ slices.length < 2 ^ 32 ∧ ∀ ref ∈ slices, ref.InRange
  | .directory hash => fileType = sIfdir ∧ hash.length = 32
  | .symlink target => fileType = sIflnk ∧ (encodeUtf8 target).length < 2 ^ 32
  | .device deviceNumber => (fileType = sIfblk ∨ fileType = sIfchr) ∧ deviceNumber < 2 ^ 64
  | .pipe pipeId => (fileType = sIfifo ∨ fileType = sIfsock) ∧ pipeId < 2 ^ 64

def isInlineData : ContentHandle → Bool
  | .inlineData _ => true
  | _ => false

def wire : ContentHandle → Bytes
  | .inlineData data => toLe 4 data.length ++ data
  | .sliceMap slices => toLe 4 slices.length ++ slices.flatMap SliceRef.wire
  | .directory hash => hash
  | .symlink target => toLe 4 (encodeUtf8 target).length ++ encodeUtf8 target
  | .device deviceNumber => toLe 8 deviceNumber
  | .pipe pipeId => toLe 8 pipeId

end ContentHandle

/-- The flags byte with the three defined bits. -/
def inodeFlags (atime xattrs inline : Bool) : Nat :=
  (if atime then inodeFlagAtime else 0) ||| (if xattrs then inodeFlagHasXattrs else 0) |||
    (if inline then inodeFlagInlineData else 0)

namespace Inode

structure InRange (maxInlineBytes : Nat) (inode : Inode) : Prop where
  number_lt : inode.number < 2 ^ 64
  mode_lt : inode.mode < 2 ^ 32
  uid_lt : inode.uid < 2 ^ 32
  gid_lt : inode.gid < 2 ^ 32
  mtimeNs_lt : inode.mtimeNs < 2 ^ 64
  ctimeNs_lt : inode.ctimeNs < 2 ^ 64
  nlink_lt : inode.nlink < 2 ^ 32
  atimeNs_lt : ∀ atimeNs ∈ inode.atimeNs, atimeNs < 2 ^ 64
  xattrs_lt : inode.xattrs.length < 2 ^ 32
  xattrs : ∀ attr ∈ inode.xattrs, attr.InRange
  contentHandle : inode.contentHandle.InRange maxInlineBytes inode.fileType

/-- ATIME, XATTRS and INLINE_DATA, each set when the inode has the field. -/
def flags (inode : Inode) : Nat :=
  inodeFlags inode.atimeNs.isSome (!inode.xattrs.isEmpty) inode.contentHandle.isInlineData

/-- The access time, when present. -/
def atimeWire : Option Nat → Bytes
  | some atimeNs => toLe 8 atimeNs
  | none => []

/-- The xattr block, when not empty. -/
def xattrsWire (xattrs : List XAttr) : Bytes :=
  if xattrs.isEmpty then [] else toLe 4 xattrs.length ++ xattrs.flatMap XAttr.wire

def wire (inode : Inode) : Bytes :=
  toLe 8 inode.number ++ toLe 4 inode.mode ++ toLe 4 inode.uid ++ toLe 4 inode.gid ++
    toLe 8 inode.mtimeNs ++ toLe 8 inode.ctimeNs ++ toLe 4 inode.nlink ++
    [UInt8.ofNat inode.flags] ++ atimeWire inode.atimeNs ++ xattrsWire inode.xattrs ++
    inode.contentHandle.wire

end Inode

/-! ## The flags byte -/

theorem inodeFlags_lt (atime xattrs inline : Bool) : inodeFlags atime xattrs inline < 2 ^ 8 := by
  cases atime <;> cases xattrs <;> cases inline <;> decide

theorem inodeFlags_reserved (atime xattrs inline : Bool) :
    inodeFlags atime xattrs inline &&& inodeFlagReservedMask = 0 := by
  -- The byte has eight values, and the three bits do not overlap.
  cases atime <;> cases xattrs <;> cases inline <;> decide

theorem inodeFlags_atime (atime xattrs inline : Bool) :
    inodeFlags atime xattrs inline &&& inodeFlagAtime ≠ 0 ↔ atime := by
  cases atime <;> cases xattrs <;> cases inline <;> decide

theorem inodeFlags_xattrs (atime xattrs inline : Bool) :
    inodeFlags atime xattrs inline &&& inodeFlagHasXattrs ≠ 0 ↔ xattrs := by
  cases atime <;> cases xattrs <;> cases inline <;> decide

theorem inodeFlags_inline (atime xattrs inline : Bool) :
    inodeFlags atime xattrs inline &&& inodeFlagInlineData ≠ 0 ↔ inline := by
  cases atime <;> cases xattrs <;> cases inline <;> decide

/-! ## What the parsers decode -/

theorem parseXAttr_decodes : Decodes parseXAttr XAttr.InRange XAttr.wire := by
  apply Wire.Decodes.record
  · apply Wire.Decodes.field XAttr.namespaceId readU8_decodes
    · exact fun attr hattr _ => Nat.lt_of_le_of_lt hattr.namespaceId_le (by decide)
    intro namespaceId _
    apply Wire.Decodes.check
    · rintro attr hattr ⟨-, rfl⟩
      exact Nat.not_lt.2 hattr.namespaceId_le
    intro hnamespace
    apply Wire.Decodes.field (fun attr : XAttr => (encodeUtf8 attr.key).length) readU32Le_decodes
    · exact fun attr hattr _ => hattr.key_lt
    intro keyLen hkeyLen
    apply Wire.Decodes.field (fun attr : XAttr => encodeUtf8 attr.key) (read_decodes keyLen)
    · exact fun attr _ hk => hk.2
    rintro keyBytes rfl
    apply Wire.Decodes.field XAttr.key Wire.Decodes.lift
    · exact fun attr _ hk => decodeText_eq_ok_iff.2 hk.2.symm
    intro key hkey
    -- The key is known as text now, and its bytes with it.
    rcases decodeText_eq_ok_iff.1 hkey with rfl
    apply Wire.Decodes.check
    · rintro attr hattr ⟨-, rfl⟩
      exact hattr.key_nul
    intro hnul
    apply Wire.Decodes.field (fun attr : XAttr => attr.value.length) readU32Le_decodes
    · exact fun attr hattr _ => hattr.value_lt
    intro valueLen hvalueLen
    apply Wire.Decodes.field XAttr.value (read_decodes valueLen)
    · exact fun attr _ hk => hk.2
    rintro value rfl
    apply Wire.Decodes.done ⟨Nat.not_lt.1 hnamespace, hkeyLen, hnul, hvalueLen⟩
    · exact ⟨⟨⟨⟨⟨⟨trivial, rfl⟩, rfl⟩, rfl⟩, rfl⟩, rfl⟩, rfl⟩
    · rintro ⟨_, _, _⟩ - ⟨⟨⟨⟨⟨⟨-, rfl⟩, -⟩, -⟩, rfl⟩, -⟩, rfl⟩
      rfl
  · intro attr _
    simp [XAttr.wire]

theorem parseSliceRef_decodes (inodeNumber : Nat) :
    Decodes (parseSliceRef inodeNumber) SliceRef.InRange SliceRef.wire := by
  apply Wire.Decodes.record
  · apply Wire.Decodes.field SliceRef.fileByteStart readU64Le_decodes
    · exact fun ref href _ => Nat.lt_trans href.fileByteStart_lt href.fileByteEnd_lt
    intro fileByteStart _
    apply Wire.Decodes.field SliceRef.fileByteEnd readU64Le_decodes
    · exact fun ref href _ => href.fileByteEnd_lt
    intro fileByteEnd hend
    apply Wire.Decodes.check
    · rintro ref href ⟨⟨-, rfl⟩, rfl⟩
      exact Nat.not_le.2 href.fileByteStart_lt
    intro hstart
    apply Wire.Decodes.field (fun ref : SliceRef => ref.dropId.bytes) (read_decodes 32)
    · exact fun ref _ _ => ref.dropId.length_bytes
    intro dropIdBytes _
    apply Wire.Decodes.field SliceRef.dropId Wire.Decodes.lift
    · exact fun ref _ hk => DropId.make_eq_ok_iff.2 hk.2.symm
    intro dropId hdropId
    -- The identifier is its bytes, so both reads name one field.
    rcases DropId.make_eq_ok_iff.1 hdropId with rfl
    apply Wire.Decodes.field SliceRef.dropByteStart readU32Le_decodes
    · exact fun ref href _ => href.dropByteStart_lt
    intro dropByteStart hdropStart
    apply Wire.Decodes.field SliceRef.dropByteLen readU32Le_decodes
    · exact fun ref href _ => href.dropByteLen_lt
    intro dropByteLen hdropLen
    apply Wire.Decodes.done ⟨Nat.not_le.1 hstart, hend, hdropStart, hdropLen⟩
    · exact ⟨⟨⟨⟨⟨⟨trivial, rfl⟩, rfl⟩, rfl⟩, rfl⟩, rfl⟩, rfl⟩
    · rintro ⟨_, _, _, _, _⟩ - ⟨⟨⟨⟨⟨⟨-, rfl⟩, rfl⟩, -⟩, rfl⟩, rfl⟩, rfl⟩
      rfl
  · intro ref _
    simp [SliceRef.wire]

/-! ## The round trip -/

theorem parseAtime_reads {atimeNs : Option Nat} {flags : Nat}
    (hflag : flags &&& inodeFlagAtime ≠ 0 ↔ atimeNs.isSome)
    (hlt : ∀ ns ∈ atimeNs, ns < 2 ^ 64) :
    Reads (parseAtime flags) (Inode.atimeWire atimeNs) atimeNs := by
  unfold parseAtime
  cases atimeNs with
  | none =>
      rw [if_neg (by simp [hflag])]
      exact Reads.pure
  | some ns =>
      rw [if_pos (by simp [hflag])]
      exact (readU64Le_decodes.reads (hlt ns rfl)).bind_pure

theorem parseXattrs_reads {xattrs : List XAttr} {flags : Nat}
    (hflag : flags &&& inodeFlagHasXattrs ≠ 0 ↔ !xattrs.isEmpty)
    (hlt : xattrs.length < 2 ^ 32) (hattrs : ∀ attr ∈ xattrs, attr.InRange) :
    Reads (parseXattrs flags) (Inode.xattrsWire xattrs) xattrs := by
  unfold parseXattrs Inode.xattrsWire
  -- Without the flag there is no count either, so an empty block is written as nothing.
  cases hempty : xattrs.isEmpty with
  | true =>
      rw [if_neg (by simp [hflag, hempty]), List.isEmpty_iff.1 hempty]
      exact Reads.pure
  | false =>
      rw [if_pos (by simp [hflag, hempty])]
      exact (counted_decodes fun _ => parseXAttr_decodes).reads ⟨hlt, hattrs⟩

theorem parseContentHandle_reads {handle : ContentHandle} {mode flags maxInlineBytes : Nat}
    (inodeNumber : Nat) (hflag : flags &&& inodeFlagInlineData ≠ 0 ↔ handle.isInlineData)
    (hhandle : handle.InRange maxInlineBytes (mode &&& sIfmt)) :
    Reads (parseContentHandle mode flags inodeNumber maxInlineBytes) handle.wire handle := by
  unfold parseContentHandle
  -- The kind of the handle fixes the file type, which in turn selects the branch of the parser.
  cases handle with
  | inlineData data =>
      rcases hhandle with ⟨htype, hlt, hmax⟩
      rw [if_pos htype, if_pos (hflag.2 rfl)]
      apply Reads.bind (readU32Le_decodes.reads hlt)
      apply Reads.raiseIf (Nat.not_lt.2 hmax)
      exact ((read_decodes data.length).reads rfl).bind_pure
  | sliceMap slices =>
      rcases hhandle with ⟨htype, hlt, hslices⟩
      rw [if_pos htype, if_neg (by simp [hflag, ContentHandle.isInlineData])]
      apply Reads.bind (readU32Le_decodes.reads hlt)
      exact (Reads.repeatIndexed
        (fun _ ref href => (parseSliceRef_decodes inodeNumber).reads (hslices ref href))
        0).bind_pure
  | directory hash =>
      rcases hhandle with ⟨htype, hlen⟩
      simp only [htype, sIfreg, sIfdir]
      exact ((read_decodes 32).reads hlen).bind_pure
  | symlink target =>
      rcases hhandle with ⟨htype, hlt⟩
      simp only [htype, sIfreg, sIfdir, sIflnk]
      apply Reads.bind (readU32Le_decodes.reads hlt)
      apply Reads.bind_nil ((read_decodes (encodeUtf8 target).length).reads rfl)
      exact Reads.lift (decodeText_eq_ok_iff.2 rfl) Reads.pure
  | device deviceNumber =>
      rcases hhandle with ⟨htype, hlt⟩
      have hread := (readU64Le_decodes.reads hlt).bind_pure (g := ContentHandle.device)
      rcases htype with htype | htype
      -- Block and character devices share a branch and keep only the device number.
      · simp only [htype, sIfreg, sIfdir, sIflnk, sIfblk]
        exact hread
      · simp only [htype, sIfreg, sIfdir, sIflnk, sIfblk, sIfchr]
        exact hread
  | pipe pipeId =>
      rcases hhandle with ⟨htype, hlt⟩
      have hread := (readU64Le_decodes.reads hlt).bind_pure (g := ContentHandle.pipe)
      rcases htype with htype | htype
      · simp only [htype, sIfreg, sIfdir, sIflnk, sIfblk, sIfchr, sIfifo]
        exact hread
      · simp only [htype, sIfreg, sIfdir, sIflnk, sIfblk, sIfchr, sIfifo, sIfsock]
        exact hread

theorem parseInode_reads {inode : Inode} {maxInlineBytes : Nat}
    (hinode : inode.InRange maxInlineBytes) :
    Reads (parseInode maxInlineBytes) inode.wire inode := by
  unfold parseInode Inode.wire
  simp only [List.append_assoc]
  apply Reads.bind (readU64Le_decodes.reads hinode.number_lt)
  apply Reads.bind (readU32Le_decodes.reads hinode.mode_lt)
  apply Reads.bind (readU32Le_decodes.reads hinode.uid_lt)
  apply Reads.bind (readU32Le_decodes.reads hinode.gid_lt)
  apply Reads.bind (readU64Le_decodes.reads hinode.mtimeNs_lt)
  apply Reads.bind (readU64Le_decodes.reads hinode.ctimeNs_lt)
  apply Reads.bind (readU32Le_decodes.reads hinode.nlink_lt)
  apply Reads.bind (readU8_decodes.reads (inodeFlags_lt _ _ _))
  -- The flags byte of the encoding has no reserved bit, and each bit says what follows.
  apply Reads.raiseIf (not_not.2 (inodeFlags_reserved _ _ _))
  apply Reads.bind (parseAtime_reads (inodeFlags_atime _ _ _) hinode.atimeNs_lt)
  apply Reads.bind (parseXattrs_reads (inodeFlags_xattrs _ _ _) hinode.xattrs_lt hinode.xattrs)
  exact (parseContentHandle_reads inode.number (inodeFlags_inline _ _ _)
    hinode.contentHandle).bind_pure

/-! ## What the parsers raise -/

theorem parseXAttr_ensures : Ensures XAttr.InRange parseXAttr := by
  refine Wire.Ensures.valid (P := fun _ => True) ?_ parseXAttr_decodes
  apply Wire.Ensures.bind readU8_ensures
  intro namespaceId _
  apply Wire.Ensures.raiseIf (fun _ => Exn.isParseError_parse _)
  intro _
  apply Wire.Ensures.bind readU32Le_ensures
  intro keyLen _
  apply Wire.Ensures.bind (read_ensures keyLen)
  intro keyBytes _
  apply Wire.Ensures.bind (decodeText_ensures keyBytes _)
  intro key _
  apply Wire.Ensures.raiseIf (fun _ => Exn.isParseError_parse _)
  intro _
  apply Wire.Ensures.bind readU32Le_ensures
  intro valueLen _
  apply Wire.Ensures.bind (read_ensures valueLen)
  intro value _
  exact Wire.Ensures.pure trivial

theorem parseSliceRef_ensures (inodeNumber : Nat) :
    Ensures SliceRef.InRange (parseSliceRef inodeNumber) := by
  refine Wire.Ensures.valid (P := fun _ => True) ?_ (parseSliceRef_decodes inodeNumber)
  apply Wire.Ensures.bind readU64Le_ensures
  intro fileByteStart _
  apply Wire.Ensures.bind readU64Le_ensures
  intro fileByteEnd _
  apply Wire.Ensures.raiseIf (fun _ => Exn.isParseError_parse _)
  intro _
  apply Wire.Ensures.bind (read_ensures 32)
  intro dropIdBytes hlen
  apply Wire.Ensures.bind (DropId.fromBytes_ensures hlen)
  intro dropId _
  apply Wire.Ensures.bind readU32Le_ensures
  intro dropByteStart _
  apply Wire.Ensures.bind readU32Le_ensures
  intro dropByteLen _
  exact Wire.Ensures.pure trivial

theorem parseInlineData_ensures (inodeNumber maxInlineBytes : Nat) :
    Ensures (ContentHandle.InRange maxInlineBytes sIfreg)
      (parseInlineData inodeNumber maxInlineBytes) := by
  apply Wire.Ensures.bind readU32Le_ensures
  intro inlineLen hlt
  apply Wire.Ensures.raiseIf (fun _ => Exn.isParseError_parse _)
  intro hmax
  apply Wire.Ensures.bind (read_ensures inlineLen)
  rintro data rfl
  exact Wire.Ensures.pure ⟨rfl, hlt, Nat.not_lt.1 hmax⟩

theorem parseSliceMap_ensures (inodeNumber maxInlineBytes : Nat) :
    Ensures (ContentHandle.InRange maxInlineBytes sIfreg) (parseSliceMap inodeNumber) := by
  apply Wire.Ensures.bind readU32Le_ensures
  intro sliceCount hlt
  apply Wire.Ensures.bind (P := fun slices : List SliceRef =>
    slices.length = sliceCount ∧ ∀ ref ∈ slices, ref.InRange)
  -- Errors are judged entry by entry; the number of entries comes from the format.
  · exact (Wire.Ensures.repeatIndexed (fun _ => parseSliceRef_ensures inodeNumber) _ _).valid
      (Wire.Decodes.repeatIndexed (fun _ => parseSliceRef_decodes inodeNumber) _ _)
  rintro slices ⟨rfl, hslices⟩
  exact Wire.Ensures.pure ⟨rfl, hlt, hslices⟩

theorem parseSymlink_ensures (maxInlineBytes : Nat) :
    Ensures (ContentHandle.InRange maxInlineBytes sIflnk) parseSymlink := by
  apply Wire.Ensures.bind readU32Le_ensures
  intro targetLen hlt
  apply Wire.Ensures.bind (read_ensures targetLen)
  rintro targetBytes rfl
  apply Wire.Ensures.bind (decodeText_ensures targetBytes _)
  rintro target rfl
  exact Wire.Ensures.pure ⟨rfl, hlt⟩

theorem parseContentHandle_ensures (mode flags inodeNumber maxInlineBytes : Nat) :
    Ensures (ContentHandle.InRange maxInlineBytes (mode &&& sIfmt))
      (parseContentHandle mode flags inodeNumber maxInlineBytes) := by
  -- One case for each branch of the parser, with the file type that selected it.
  dsimp only [parseContentHandle]
  split
  · rename_i htype
    rw [htype]
    split
    · exact parseInlineData_ensures inodeNumber maxInlineBytes
    · exact parseSliceMap_ensures inodeNumber maxInlineBytes
  split
  · rename_i htype
    apply Wire.Ensures.bind (read_ensures 32)
    intro hash hlen
    exact Wire.Ensures.pure ⟨htype, hlen⟩
  split
  · rename_i htype
    rw [htype]
    exact parseSymlink_ensures maxInlineBytes
  split
  · rename_i htype
    apply Wire.Ensures.bind readU64Le_ensures
    intro dev hlt
    exact Wire.Ensures.pure ⟨htype, hlt⟩
  split
  · rename_i htype
    apply Wire.Ensures.bind readU64Le_ensures
    intro pipeId hlt
    exact Wire.Ensures.pure ⟨htype, hlt⟩
  · exact Wire.Ensures.raise (Exn.isParseError_parse _)

theorem parseAtime_ensures (flags : Nat) :
    Ensures (fun atimeNs => ∀ ns ∈ atimeNs, ns < 2 ^ 64) (parseAtime flags) := by
  unfold parseAtime
  split
  · apply Wire.Ensures.bind readU64Le_ensures
    intro atimeNs hlt
    exact Wire.Ensures.pure (by simpa using hlt)
  · exact Wire.Ensures.pure (by simp)

theorem parseXattrs_ensures (flags : Nat) :
    Ensures (fun xattrs => xattrs.length < 2 ^ 32 ∧ ∀ attr ∈ xattrs, attr.InRange)
      (parseXattrs flags) := by
  unfold parseXattrs
  split
  · refine Wire.Ensures.valid (P := fun _ => True) ?_
      (counted_decodes fun _ => parseXAttr_decodes)
    apply Wire.Ensures.bind readU32Le_ensures
    intro count _
    exact (Wire.Ensures.repeatIndexed (fun _ => parseXAttr_ensures) _ _).weaken fun _ _ => trivial
  · exact Wire.Ensures.pure (by simp)

/-- An accepted inode is in range, whatever flags it was written with. -/
theorem parseInode_ensures (maxInlineBytes : Nat) :
    Ensures (Inode.InRange maxInlineBytes) (parseInode maxInlineBytes) := by
  -- The bytes do not determine the flags, so the fields are followed one by one instead.
  apply Wire.Ensures.bind readU64Le_ensures
  intro number hnumber
  apply Wire.Ensures.bind readU32Le_ensures
  intro mode hmode
  apply Wire.Ensures.bind readU32Le_ensures
  intro uid huid
  apply Wire.Ensures.bind readU32Le_ensures
  intro gid hgid
  apply Wire.Ensures.bind readU64Le_ensures
  intro mtimeNs hmtime
  apply Wire.Ensures.bind readU64Le_ensures
  intro ctimeNs hctime
  apply Wire.Ensures.bind readU32Le_ensures
  intro nlink hnlink
  apply Wire.Ensures.bind readU8_ensures
  intro flags _
  apply Wire.Ensures.raiseIf (fun _ => Exn.isParseError_parse _)
  intro _
  apply Wire.Ensures.bind (parseAtime_ensures flags)
  intro atimeNs hatime
  apply Wire.Ensures.bind (parseXattrs_ensures flags)
  rintro xattrs ⟨hxlen, hxattrs⟩
  apply Wire.Ensures.bind (parseContentHandle_ensures mode flags number maxInlineBytes)
  intro contentHandle hcontent
  exact Wire.Ensures.pure ⟨hnumber, hmode, huid, hgid, hmtime, hctime, hnlink, hatime, hxlen,
    hxattrs, hcontent⟩

end LimniFs
