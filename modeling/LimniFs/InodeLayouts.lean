import LimniFs.Metadata
import LimniFs.Reference
import LimniFs.Wire.Recognizes

/-!
# InodeLayouts — all the encodings of an inode and of a metadata blob

`parse_inode` drops the flags byte.  Two of its bits say what the fields say already; a third
stands for nothing in an inode that is not a regular file, and an empty block of extended
attributes may be written out.  Here the format is given with both choices: the parser accepts
these encodings of an inode and no others, and so does `parse_metadata_blob`.
-/

namespace LimniFs

open Wire

/-- What an encoding of an inode is free to do: write an empty block of extended attributes, and
set INLINE_DATA where nothing looks at it. -/
structure InodeLayout where
  emptyXattrBlock : Bool
  strayInlineBit : Bool
  deriving DecidableEq

namespace Inode

/-- The choices that are open for the inode. -/
structure Admits (inode : Inode) (layout : InodeLayout) : Prop where
  emptyXattrBlock : layout.emptyXattrBlock → inode.xattrs = []
  strayInlineBit : layout.strayInlineBit → inode.fileType ≠ sIfreg

def layoutFlags (inode : Inode) (layout : InodeLayout) : Nat :=
  inodeFlags inode.atimeNs.isSome (!inode.xattrs.isEmpty || layout.emptyXattrBlock)
    (inode.contentHandle.isInlineData || layout.strayInlineBit)

def wireWith (inode : Inode) (layout : InodeLayout) : Bytes :=
  toLe 8 inode.number ++ toLe 4 inode.mode ++ toLe 4 inode.uid ++ toLe 4 inode.gid ++
    toLe 8 inode.mtimeNs ++ toLe 8 inode.ctimeNs ++ toLe 4 inode.nlink ++
    [UInt8.ofNat (inode.layoutFlags layout)] ++ atimeWire inode.atimeNs ++
    (if layout.emptyXattrBlock then toLe 4 0 else xattrsWire inode.xattrs) ++
    inode.contentHandle.wire

/-- Without the two choices this is the encoding that the fields determine. -/
theorem wireWith_none (inode : Inode) : inode.wireWith ⟨false, false⟩ = inode.wire := by
  simp [wireWith, wire, layoutFlags, flags]

end Inode

/-! ## The parts that the flags byte controls -/

/-- Without a reserved bit the flags byte is made of its three bits. -/
theorem eq_inodeFlags {flags : Nat} (hlt : flags < 2 ^ 8)
    (hreserved : flags &&& inodeFlagReservedMask = 0) :
    flags = inodeFlags (flags &&& inodeFlagAtime ≠ 0) (flags &&& inodeFlagHasXattrs ≠ 0)
      (flags &&& inodeFlagInlineData ≠ 0) := by
  have hall : ∀ flags < 2 ^ 8, flags &&& inodeFlagReservedMask = 0 →
      flags = inodeFlags (flags &&& inodeFlagAtime ≠ 0) (flags &&& inodeFlagHasXattrs ≠ 0)
        (flags &&& inodeFlagInlineData ≠ 0) := by
    decide +kernel
  exact hall flags hlt hreserved

theorem parseAtime_decodes (flags : Nat) :
    Decodes (parseAtime flags)
      (fun atimeNs => (flags &&& inodeFlagAtime ≠ 0 ↔ atimeNs.isSome) ∧
        ∀ ns ∈ atimeNs, ns < 2 ^ 64) Inode.atimeWire := by
  have heq : parseAtime flags = parseOptional (flags &&& inodeFlagAtime ≠ 0) readU64Le := by
    simp only [parseAtime, parseOptional, map_eq_pure_bind, decide_eq_true_eq]
  rw [heq]
  refine (parseOptional_decodes readU64Le_decodes _).congr ?_ ?_
  · intro atimeNs
    cases atimeNs <;> simp
  · intro atimeNs _
    cases atimeNs <;> rfl

/-- The block of extended attributes, when the flags announce one. -/
def Inode.xattrsWireAs (flags : Nat) (xattrs : List XAttr) : Bytes :=
  if flags &&& inodeFlagHasXattrs ≠ 0 then
    toLe 4 xattrs.length ++ xattrs.flatMap XAttr.wire
  else
    []

theorem parseXattrs_decodes (flags : Nat) :
    Decodes (parseXattrs flags)
      (fun xattrs => (xattrs ≠ [] → flags &&& inodeFlagHasXattrs ≠ 0) ∧ xattrs.length < 2 ^ 32 ∧
        ∀ attr ∈ xattrs, attr.InRange)
      (Inode.xattrsWireAs flags) := by
  unfold parseXattrs Inode.xattrsWireAs
  split
  · rename_i hflag
    exact (counted_decodes fun _ => parseXAttr_decodes).congr (by simp [hflag]) (by simp [hflag])
  · rename_i hflag
    refine (Wire.Decodes.pure_iff (a := []) fun xattrs => Iff.rfl).congr ?_ ?_
    · intro xattrs
      cases xattrs <;> simp [hflag]
    · simp [hflag]

/-! ## Content handles -/

namespace ContentHandle

/-- `content_handle.inline_data`, which is empty for the other kinds. -/
def inlineBytes : ContentHandle → Bytes
  | inlineData data => data
  | _ => []

/-- `content_handle.symlink_target`, which is empty for the other kinds. -/
def symlinkTarget : ContentHandle → String
  | symlink target => target
  | _ => ""

end ContentHandle

/-- A field that is read and wrapped. -/
theorem wrapped_decodes {α : Type} {p : Parser α} {V : α → Prop} {enc : α → Bytes}
    {wrap : α → ContentHandle} {Valid : ContentHandle → Prop} (hp : Decodes p V enc)
    (hwrap : Function.Injective wrap) (hV : ∀ handle, Valid handle ↔ ∃ a, V a ∧ wrap a = handle)
    (hw : ∀ a, V a → (wrap a).wire = enc a) :
    Decodes (p >>= fun a => return wrap a) Valid ContentHandle.wire := by
  have hmap : (p >>= fun a => return wrap a) = wrap <$> p := (map_eq_pure_bind wrap p).symm
  rw [hmap]
  exact hp.map hwrap hV hw

theorem parseInlineData_decodes (maxInlineBytes inodeNumber : Nat) :
    Decodes (parseInlineData inodeNumber maxInlineBytes)
      (fun handle => handle.InRange maxInlineBytes sIfreg ∧ handle.isInlineData)
      ContentHandle.wire := by
  have hrange : ∀ handle : ContentHandle,
      handle.InRange maxInlineBytes sIfreg ∧ handle.isInlineData ↔
        handle = .inlineData handle.inlineBytes ∧ handle.inlineBytes.length < 2 ^ 32 ∧
          handle.inlineBytes.length ≤ maxInlineBytes := by
    intro handle
    cases handle <;>
      simp [ContentHandle.InRange, ContentHandle.isInlineData, ContentHandle.inlineBytes]
  have hfields : Decodes (parseInlineData inodeNumber maxInlineBytes)
      (fun handle => handle = .inlineData handle.inlineBytes ∧
        handle.inlineBytes.length < 2 ^ 32 ∧ handle.inlineBytes.length ≤ maxInlineBytes)
      (fun handle => toLe 4 handle.inlineBytes.length ++ handle.inlineBytes) := by
    apply Wire.Decodes.record
    · apply Wire.Decodes.field (fun handle : ContentHandle => handle.inlineBytes.length)
        readU32Le_decodes
      · exact fun handle hh _ => hh.2.1
      intro inlineLen hlt
      apply Wire.Decodes.check
      · rintro handle hh ⟨-, rfl⟩
        exact Nat.not_lt.2 hh.2.2
      intro hmax
      apply Wire.Decodes.field ContentHandle.inlineBytes (read_decodes inlineLen)
      · exact fun handle _ hk => hk.2
      rintro data rfl
      apply Wire.Decodes.done ⟨rfl, hlt, Nat.not_lt.1 hmax⟩ ⟨⟨trivial, rfl⟩, rfl⟩
      rintro handle hh ⟨-, rfl⟩
      exact hh.1
    · intro handle _
      simp
  refine hfields.congr hrange ?_
  intro handle hh
  rw [((hrange handle).1 hh).1]
  rfl

theorem parseSliceMap_decodes (maxInlineBytes inodeNumber : Nat) :
    Decodes (parseSliceMap inodeNumber)
      (fun handle => handle.InRange maxInlineBytes sIfreg ∧ ¬ handle.isInlineData)
      ContentHandle.wire := by
  have heq : parseSliceMap inodeNumber =
      (readU32Le >>= fun count => repeatIndexed (fun _ => parseSliceRef inodeNumber) 0 count) >>=
        fun slices => return .sliceMap slices := by
    rw [bind_assoc]
    rfl
  rw [heq]
  apply wrapped_decodes (counted_decodes fun _ => parseSliceRef_decodes inodeNumber)
    (fun _ _ h => ContentHandle.sliceMap.inj h)
  · intro handle
    cases handle <;> simp [ContentHandle.InRange, ContentHandle.isInlineData, sIfreg, sIfdir,
      sIflnk, sIfblk, sIfchr, sIfifo, sIfsock]
  · exact fun _ _ => rfl

theorem parseSymlink_decodes (maxInlineBytes : Nat) :
    Decodes parseSymlink (fun handle => handle.InRange maxInlineBytes sIflnk)
      ContentHandle.wire := by
  have hrange : ∀ handle : ContentHandle, handle.InRange maxInlineBytes sIflnk ↔
      handle = .symlink handle.symlinkTarget ∧
        (encodeUtf8 handle.symlinkTarget).length < 2 ^ 32 := by
    intro handle
    cases handle <;>
      simp [ContentHandle.InRange, ContentHandle.symlinkTarget, sIflnk, sIfreg, sIfdir, sIfblk,
        sIfchr, sIfifo, sIfsock]
  have hfields : Decodes parseSymlink
      (fun handle => handle = .symlink handle.symlinkTarget ∧
        (encodeUtf8 handle.symlinkTarget).length < 2 ^ 32)
      (fun handle => toLe 4 (encodeUtf8 handle.symlinkTarget).length ++
        encodeUtf8 handle.symlinkTarget) := by
    apply Wire.Decodes.record
    · apply Wire.Decodes.field
        (fun handle : ContentHandle => (encodeUtf8 handle.symlinkTarget).length) readU32Le_decodes
      · exact fun handle hh _ => hh.2
      intro targetLen hlt
      apply Wire.Decodes.field (fun handle : ContentHandle => encodeUtf8 handle.symlinkTarget)
        (read_decodes targetLen)
      · exact fun handle _ hk => hk.2
      rintro targetBytes rfl
      apply Wire.Decodes.field ContentHandle.symlinkTarget Wire.Decodes.lift
      · exact fun handle _ hk => decodeText_eq_ok_iff.2 hk.2.symm
      intro target htarget
      rcases decodeText_eq_ok_iff.1 htarget with rfl
      apply Wire.Decodes.done ⟨rfl, hlt⟩ ⟨⟨⟨trivial, rfl⟩, rfl⟩, rfl⟩
      rintro handle hh ⟨-, rfl⟩
      exact hh.1
    · intro handle _
      simp
  refine hfields.congr hrange ?_
  intro handle hh
  rw [((hrange handle).1 hh).1]
  rfl

/-- The file type and, for a regular file, the flags choose the layout of the handle. -/
theorem parseContentHandle_decodes (mode flags inodeNumber maxInlineBytes : Nat) :
    Decodes (parseContentHandle mode flags inodeNumber maxInlineBytes)
      (fun handle => handle.InRange maxInlineBytes (mode &&& sIfmt) ∧
        (mode &&& sIfmt = sIfreg → (flags &&& inodeFlagInlineData ≠ 0 ↔ handle.isInlineData)))
      ContentHandle.wire := by
  unfold parseContentHandle
  dsimp only
  generalize mode &&& sIfmt = fileType
  -- One case for each branch of the parser, with the file type that selected it.
  split
  · rename_i htype
    subst htype
    split
    · rename_i hflag
      refine (parseInlineData_decodes maxInlineBytes inodeNumber).congr ?_ (fun _ _ => rfl)
      intro handle
      simp [hflag]
    · rename_i hflag
      refine (parseSliceMap_decodes maxInlineBytes inodeNumber).congr ?_ (fun _ _ => rfl)
      intro handle
      simp [hflag]
  rename_i hreg
  simp only [hreg, false_implies, and_true]
  split
  · rename_i htype
    subst htype
    apply wrapped_decodes (read_decodes 32) (fun _ _ h => ContentHandle.directory.inj h)
    · intro handle
      cases handle <;> simp [ContentHandle.InRange, sIfreg, sIfdir, sIflnk, sIfblk, sIfchr,
        sIfifo, sIfsock]
    · exact fun _ _ => rfl
  split
  · rename_i htype
    subst htype
    exact parseSymlink_decodes maxInlineBytes
  split
  · rename_i htype
    apply wrapped_decodes readU64Le_decodes (fun _ _ h => ContentHandle.device.inj h)
    · intro handle
      rcases htype with rfl | rfl <;> cases handle <;> simp [ContentHandle.InRange, sIfreg, sIfdir,
        sIflnk, sIfblk, sIfchr, sIfifo, sIfsock]
    · exact fun _ _ => rfl
  split
  · rename_i htype
    apply wrapped_decodes readU64Le_decodes (fun _ _ h => ContentHandle.pipe.inj h)
    · intro handle
      rcases htype with rfl | rfl <;> cases handle <;> simp [ContentHandle.InRange, sIfreg, sIfdir,
        sIflnk, sIfblk, sIfchr, sIfifo, sIfsock]
    · exact fun _ _ => rfl
  · rename_i hdir hlnk hdev hpipe
    refine (Wire.Decodes.lift (x := Except.error (Exn.corrupt
      s!"inode {inodeNumber}: unknown file type 0x{formatHex 4 fileType}"))).congr ?_ ?_
    · intro handle
      cases handle <;> simp_all [ContentHandle.InRange]
    · intro handle hh
      cases handle <;> simp_all [ContentHandle.InRange]

/-! ## Inodes -/

/-- `parse_inode` with the flags byte beside the inode. -/
def parseInodeFlags (maxInlineBytes : Nat) : Parser (Inode × Nat) := do
  let number ← readU64Le
  let mode ← readU32Le
  let uid ← readU32Le
  let gid ← readU32Le
  let mtimeNs ← readU64Le
  let ctimeNs ← readU64Le
  let nlink ← readU32Le
  let flags ← readU8
  raiseIf (flags &&& inodeFlagReservedMask ≠ 0)
    (.corrupt s!"inode {number}: reserved flag bits set (0x{formatHex 2 flags})")
  let atimeNs ← parseAtime flags
  let xattrs ← parseXattrs flags
  let contentHandle ← parseContentHandle mode flags number maxInlineBytes
  return ({ number, mode, uid, gid, mtimeNs, ctimeNs, nlink, contentHandle, atimeNs, xattrs },
    flags)

theorem parseInode_eq (maxInlineBytes : Nat) :
    parseInode maxInlineBytes = Prod.fst <$> parseInodeFlags maxInlineBytes := by
  simp only [parseInode, parseInodeFlags, map_bind, map_pure]

namespace Inode

/-- The flags say what the inode has, and set no reserved bit. -/
structure FlagsAgree (inode : Inode) (flags : Nat) : Prop where
  lt : flags < 2 ^ 8
  reserved : flags &&& inodeFlagReservedMask = 0
  atime : flags &&& inodeFlagAtime ≠ 0 ↔ inode.atimeNs.isSome
  xattrs : inode.xattrs ≠ [] → flags &&& inodeFlagHasXattrs ≠ 0
  inline : inode.fileType = sIfreg →
    (flags &&& inodeFlagInlineData ≠ 0 ↔ inode.contentHandle.isInlineData)

def flagsWire (inode : Inode) (flags : Nat) : Bytes :=
  toLe 8 inode.number ++ toLe 4 inode.mode ++ toLe 4 inode.uid ++ toLe 4 inode.gid ++
    toLe 8 inode.mtimeNs ++ toLe 8 inode.ctimeNs ++ toLe 4 inode.nlink ++ [UInt8.ofNat flags] ++
    atimeWire inode.atimeNs ++ xattrsWireAs flags inode.xattrs ++ inode.contentHandle.wire

end Inode

theorem parseInodeFlags_decodes (maxInlineBytes : Nat) :
    Decodes (parseInodeFlags maxInlineBytes)
      (fun r => r.1.InRange maxInlineBytes ∧ r.1.FlagsAgree r.2) (fun r => r.1.flagsWire r.2) := by
  apply Wire.Decodes.record
  · apply Wire.Decodes.field (fun r : Inode × Nat => r.1.number) readU64Le_decodes
    · exact fun r hr _ => hr.1.number_lt
    intro number hnumber
    apply Wire.Decodes.field (fun r : Inode × Nat => r.1.mode) readU32Le_decodes
    · exact fun r hr _ => hr.1.mode_lt
    intro mode hmode
    apply Wire.Decodes.field (fun r : Inode × Nat => r.1.uid) readU32Le_decodes
    · exact fun r hr _ => hr.1.uid_lt
    intro uid huid
    apply Wire.Decodes.field (fun r : Inode × Nat => r.1.gid) readU32Le_decodes
    · exact fun r hr _ => hr.1.gid_lt
    intro gid hgid
    apply Wire.Decodes.field (fun r : Inode × Nat => r.1.mtimeNs) readU64Le_decodes
    · exact fun r hr _ => hr.1.mtimeNs_lt
    intro mtimeNs hmtime
    apply Wire.Decodes.field (fun r : Inode × Nat => r.1.ctimeNs) readU64Le_decodes
    · exact fun r hr _ => hr.1.ctimeNs_lt
    intro ctimeNs hctime
    apply Wire.Decodes.field (fun r : Inode × Nat => r.1.nlink) readU32Le_decodes
    · exact fun r hr _ => hr.1.nlink_lt
    intro nlink hnlink
    apply Wire.Decodes.field (fun r : Inode × Nat => r.2) readU8_decodes
    · exact fun r hr _ => hr.2.lt
    intro flags hflags
    apply Wire.Decodes.check
    · rintro r hr ⟨-, rfl⟩
      exact not_not.2 hr.2.reserved
    intro hreserved
    apply Wire.Decodes.field (fun r : Inode × Nat => r.1.atimeNs) (parseAtime_decodes flags)
    · rintro r hr ⟨-, rfl⟩
      exact ⟨hr.2.atime, hr.1.atimeNs_lt⟩
    intro atimeNs hatime
    -- The known flags select the layout of the attributes.
    apply Wire.Decodes.fieldAs (fun r : Inode × Nat => r.1.xattrs) (fun r : Inode × Nat => r.2)
      (parseXattrs_decodes flags)
    · exact fun r _ hk => hk.1.2
    · rintro r hr ⟨⟨-, rfl⟩, -⟩
      exact ⟨hr.2.xattrs, hr.1.xattrs_lt, hr.1.xattrs⟩
    intro xattrs hxattrs
    apply Wire.Decodes.field (fun r : Inode × Nat => r.1.contentHandle)
      (parseContentHandle_decodes mode flags number maxInlineBytes)
    · rintro r hr ⟨⟨⟨⟨⟨⟨⟨⟨⟨⟨-, rfl⟩, rfl⟩, -⟩, -⟩, -⟩, -⟩, -⟩, rfl⟩, -⟩, -⟩
      exact ⟨hr.1.contentHandle, hr.2.inline⟩
    intro contentHandle hcontent
    apply Wire.Decodes.done
    · exact ⟨⟨hnumber, hmode, huid, hgid, hmtime, hctime, hnlink, hatime.2, hxattrs.2.1,
        hxattrs.2.2, hcontent.1⟩, hflags, not_not.1 hreserved, hatime.1, hxattrs.1, hcontent.2⟩
    · exact ⟨⟨⟨⟨⟨⟨⟨⟨⟨⟨⟨trivial, rfl⟩, rfl⟩, rfl⟩, rfl⟩, rfl⟩, rfl⟩, rfl⟩, rfl⟩, rfl⟩, rfl⟩, rfl⟩
    · rintro ⟨⟨_, _, _, _, _, _, _, _, _, _⟩, _⟩ -
        ⟨⟨⟨⟨⟨⟨⟨⟨⟨⟨⟨-, rfl⟩, rfl⟩, rfl⟩, rfl⟩, rfl⟩, rfl⟩, rfl⟩, rfl⟩, rfl⟩, rfl⟩, rfl⟩
      rfl
  · intro r _
    simp [Inode.flagsWire]

/-! ## Flags and layouts -/

namespace Inode

variable {inode : Inode} {maxInlineBytes flags : Nat} {layout : InodeLayout}

theorem InRange.not_isInlineData (h : inode.InRange maxInlineBytes)
    (htype : inode.fileType ≠ sIfreg) : inode.contentHandle.isInlineData = false := by
  have hhandle := h.contentHandle
  cases hcontent : inode.contentHandle with
  | inlineData data =>
      rw [hcontent] at hhandle
      exact absurd hhandle.1 htype
  | _ =>
      rfl

/-- The flags that agree with the inode are those of its layouts. -/
theorem InRange.flagsAgree_iff (h : inode.InRange maxInlineBytes) :
    inode.FlagsAgree flags ↔ ∃ layout, inode.Admits layout ∧ inode.layoutFlags layout = flags := by
  constructor
  · intro hflags
    -- A bit that the fields do not account for is a choice of the layout.
    refine ⟨⟨inode.xattrs.isEmpty && decide (flags &&& inodeFlagHasXattrs ≠ 0),
      decide (inode.fileType ≠ sIfreg) && decide (flags &&& inodeFlagInlineData ≠ 0)⟩,
      ⟨by simp +contextual, by simp +contextual⟩, ?_⟩
    have hatime : inode.atimeNs.isSome = decide (flags &&& inodeFlagAtime ≠ 0) := by
      rw [Bool.eq_iff_iff, decide_eq_true_iff, hflags.atime]
    have hxattrs : (!inode.xattrs.isEmpty ||
        inode.xattrs.isEmpty && decide (flags &&& inodeFlagHasXattrs ≠ 0)) =
          decide (flags &&& inodeFlagHasXattrs ≠ 0) := by
      cases hempty : inode.xattrs.isEmpty with
      | true =>
          simp
      | false =>
          simpa using hflags.xattrs (by simpa using hempty)
    have hinline : (inode.contentHandle.isInlineData ||
        decide (inode.fileType ≠ sIfreg) && decide (flags &&& inodeFlagInlineData ≠ 0)) =
          decide (flags &&& inodeFlagInlineData ≠ 0) := by
      by_cases htype : inode.fileType = sIfreg
      · have hbit : inode.contentHandle.isInlineData =
            decide (flags &&& inodeFlagInlineData ≠ 0) := by
          rw [Bool.eq_iff_iff, decide_eq_true_iff, hflags.inline htype]
        rw [hbit, Bool.or_eq_left_iff_imp]
        simp [htype]
      · simp [h.not_isInlineData htype, htype]
    rw [layoutFlags, hatime, hxattrs, hinline]
    exact (eq_inodeFlags hflags.lt hflags.reserved).symm
  · rintro ⟨layout, hadmits, rfl⟩
    refine ⟨inodeFlags_lt _ _ _, inodeFlags_reserved _ _ _, inodeFlags_atime _ _ _, ?_, ?_⟩
    · intro hne
      exact (inodeFlags_xattrs _ _ _).2 (by simp [hne])
    · intro htype
      have hstray : layout.strayInlineBit = false := by
        simpa [htype] using hadmits.strayInlineBit
      rw [layoutFlags, hstray, Bool.or_false]
      exact inodeFlags_inline _ _ _

theorem flagsWire_layoutFlags (hadmits : inode.Admits layout) :
    inode.flagsWire (inode.layoutFlags layout) = inode.wireWith layout := by
  have hxattrs : xattrsWireAs (inode.layoutFlags layout) inode.xattrs =
      if layout.emptyXattrBlock then toLe 4 0 else xattrsWire inode.xattrs := by
    have hflag := inodeFlags_xattrs inode.atimeNs.isSome
      (!inode.xattrs.isEmpty || layout.emptyXattrBlock)
      (inode.contentHandle.isInlineData || layout.strayInlineBit)
    unfold xattrsWireAs layoutFlags xattrsWire
    rw [if_congr hflag rfl rfl]
    cases hblock : layout.emptyXattrBlock with
    | true =>
        simp [hadmits.emptyXattrBlock hblock]
    | false =>
        cases inode.xattrs <;> simp
  rw [flagsWire, wireWith, hxattrs]

end Inode

/-! ## What the parsers recognize -/

/-- The bytes are the inode in one of its layouts. -/
def Inode.EncodedBy (maxInlineBytes : Nat) (inode : Inode) (bs : Bytes) : Prop :=
  inode.InRange maxInlineBytes ∧ ∃ layout, inode.Admits layout ∧ inode.wireWith layout = bs

/-- An inode is accepted in each of its layouts, and nothing else is accepted as it. -/
theorem parseInode_recognizes (maxInlineBytes : Nat) :
    Recognizes Exn.IsTruncated (parseInode maxInlineBytes) (Inode.EncodedBy maxInlineBytes) := by
  rw [parseInode_eq]
  apply ((parseInodeFlags_decodes maxInlineBytes).image Prod.fst).congr
  intro inode bs
  constructor
  · rintro ⟨hrange, layout, hadmits, rfl⟩
    exact ⟨(inode, inode.layoutFlags layout),
      ⟨hrange, hrange.flagsAgree_iff.2 ⟨layout, hadmits, rfl⟩⟩, rfl,
      Inode.flagsWire_layoutFlags hadmits⟩
  · rintro ⟨r, ⟨hrange, hflags⟩, rfl, rfl⟩
    rcases hrange.flagsAgree_iff.1 hflags with ⟨layout, hadmits, heq⟩
    refine ⟨hrange, layout, hadmits, ?_⟩
    rw [← heq, Inode.flagsWire_layoutFlags hadmits]

namespace MetadataBlob

/-- The two counted lists, with these bytes for the inodes. -/
def wireOf (blob : MetadataBlob) (recs : List Bytes) : Bytes :=
  toLe 4 blob.inodes.length ++ recs.flatten ++ toLe 4 blob.dirNodes.length ++
    blob.dirNodes.flatMap DirectoryNode.wire

/-- The bytes are the blob with each inode in one of its layouts. -/
def EncodedBy (maxInlineBytes : Nat) (blob : MetadataBlob) (bs : Bytes) : Prop :=
  blob.InRange maxInlineBytes ∧ ∃ recs,
    List.Forall₂ (Inode.EncodedBy maxInlineBytes) blob.inodes recs ∧ blob.wireOf recs = bs

end MetadataBlob

theorem counted_recognizes {α : Type} {p : Parser α} {E : α → Bytes → Prop}
    (hp : Recognizes Exn.IsTruncated p E) :
    Recognizes Exn.IsTruncated (readU32Le >>= fun count => repeatIndexed (fun _ => p) 0 count)
      (fun as bs => as.length < 2 ^ 32 ∧ ∃ recs, List.Forall₂ E as recs ∧
        toLe 4 as.length ++ recs.flatten = bs) := by
  apply ((Recognizes.of_decodes readU32Le_decodes).bind fun count => hp.repeatIndexed count 0).congr
  intro as bs
  constructor
  · rintro ⟨hlt, recs, hall, rfl⟩
    exact ⟨as.length, _, _, ⟨hlt, rfl⟩, ⟨rfl, recs, hall, rfl⟩, rfl⟩
  · rintro ⟨_, _, _, ⟨hlt, rfl⟩, ⟨rfl, recs, hall, rfl⟩, rfl⟩
    exact ⟨hlt, recs, hall, rfl⟩

/-- A metadata blob is accepted with every inode in any of its layouts, nothing else is accepted as
it, and every part of what is accepted is reported as truncated. -/
theorem parseMetadataBlob_recognizes [UnicodeData] (maxInlineBytes : Nat) :
    Recognizes Exn.IsTruncated (parseMetadataBlob maxInlineBytes)
      (MetadataBlob.EncodedBy maxInlineBytes) := by
  have heq : parseMetadataBlob maxInlineBytes =
      (readU32Le >>= fun count => repeatIndexed (fun _ => parseInode maxInlineBytes) 0 count) >>=
        fun inodes => (readU32Le >>= fun count =>
          repeatIndexed (fun _ => parseDirectoryNode) 0 count) >>=
            fun dirNodes => return { inodes, dirNodes } := by
    simp only [parseMetadataBlob, bind_assoc]
  rw [heq]
  apply ((counted_recognizes (parseInode_recognizes maxInlineBytes)).bind fun inodes =>
    (Recognizes.of_decodes (counted_decodes fun _ => parseDirectoryNode_decodes)).bind
      fun dirNodes => Recognizes.pure).congr
  intro blob bs
  constructor
  · rintro ⟨hrange, recs, hall, rfl⟩
    exact ⟨blob.inodes, _, _, ⟨hrange.inodes_lt, recs, hall, rfl⟩,
      ⟨blob.dirNodes, _, [], ⟨⟨hrange.dirNodes_lt, hrange.dirNodes⟩, rfl⟩, ⟨rfl, rfl⟩, rfl⟩,
      by simp [MetadataBlob.wireOf]⟩
  · rintro ⟨inodes, _, _, ⟨hlt, recs, hall, rfl⟩,
      ⟨dirNodes, _, _, ⟨⟨hdirLt, hdirNodes⟩, rfl⟩, ⟨rfl, rfl⟩, rfl⟩, rfl⟩
    have hboth : List.Forall₂ (fun inode bs => inode.InRange maxInlineBytes ∧
        ∃ layout, inode.Admits layout ∧ inode.wireWith layout = bs) inodes recs := hall
    have hinodes := ((List.forall₂_and_left inodes recs).1 hboth).1
    exact ⟨⟨hlt, hinodes, hdirLt, hdirNodes⟩, recs, hall, by simp [MetadataBlob.wireOf]⟩

/-- The language of metadata blobs: a buffer is read as a blob exactly when it begins with one of
the blob's encodings, what follows is left unread, and a part of an encoding is truncated input. -/
theorem parseMetadataBlob_language [UnicodeData] (maxInlineBytes : Nat) (blob : MetadataBlob) :
    (∀ buf tail, (∃ c, parseMetadataBlob maxInlineBytes (.start buf) = .ok (blob, c) ∧
        c.remaining = tail) ↔ ∃ bs, blob.EncodedBy maxInlineBytes bs ∧ buf = bs ++ tail) ∧
    ∀ bs k, blob.EncodedBy maxInlineBytes bs → k < bs.length →
      ∃ avail need,
        parseMetadataBlob maxInlineBytes (.start (bs.take k)) = .error (.truncated avail need) := by
  refine ⟨fun buf tail => (parseMetadataBlob_recognizes maxInlineBytes).start_iff, ?_⟩
  intro bs k hbs hk
  rcases (parseMetadataBlob_recognizes maxInlineBytes).take_raises hbs hk with
    ⟨_, ⟨avail, need, rfl⟩, hraise⟩
  exact ⟨avail, need, hraise⟩

/-! ## Inodes and blobs with one encoding -/

theorem inodeFlags_inj {atime xattrs xattrs' inline inline' : Bool}
    (h : inodeFlags atime xattrs inline = inodeFlags atime xattrs' inline') :
    xattrs = xattrs' ∧ inline = inline' := by
  revert h
  cases atime <;> cases xattrs <;> cases xattrs' <;> cases inline <;> cases inline' <;> decide

namespace Inode

variable {inode : Inode} {maxInlineBytes : Nat} {layout layout' : InodeLayout}

theorem admits_none (inode : Inode) : inode.Admits ⟨false, false⟩ :=
  ⟨by simp, by simp⟩

theorem Admits.layoutFlags_inj (hrange : inode.InRange maxInlineBytes) (h : inode.Admits layout)
    (h' : inode.Admits layout') (heq : inode.layoutFlags layout = inode.layoutFlags layout') :
    layout = layout' := by
  rcases inodeFlags_inj heq with ⟨hxattrs, hinline⟩
  rcases layout with ⟨block, stray⟩
  rcases layout' with ⟨block', stray'⟩
  dsimp only at hxattrs hinline
  have hblock : block = block' := by
    cases hempty : inode.xattrs.isEmpty with
    | true =>
        simpa [hempty] using hxattrs
    -- Attributes leave no choice of the block.
    | false =>
        have hne : inode.xattrs ≠ [] := by
          simpa using hempty
        have hfalse : block = false := by
          simpa [hne] using h.emptyXattrBlock
        have hfalse' : block' = false := by
          simpa [hne] using h'.emptyXattrBlock
        rw [hfalse, hfalse']
  have hstray : stray = stray' := by
    by_cases htype : inode.fileType = sIfreg
    · have hfalse : stray = false := by
        simpa [htype] using h.strayInlineBit
      have hfalse' : stray' = false := by
        simpa [htype] using h'.strayInlineBit
      rw [hfalse, hfalse']
    · simpa [hrange.not_isInlineData htype] using hinline
  rw [hblock, hstray]

/-- The flags byte tells the layouts of an inode apart. -/
theorem Admits.wireWith_inj (hrange : inode.InRange maxInlineBytes) (h : inode.Admits layout)
    (h' : inode.Admits layout') (heq : inode.wireWith layout = inode.wireWith layout') :
    layout = layout' := by
  rw [← flagsWire_layoutFlags h, ← flagsWire_layoutFlags h'] at heq
  have hpair := (parseInodeFlags_decodes maxInlineBytes).wire_inj
    (a := (inode, inode.layoutFlags layout)) (b := (inode, inode.layoutFlags layout'))
    ⟨hrange, hrange.flagsAgree_iff.2 ⟨layout, h, rfl⟩⟩
    ⟨hrange, hrange.flagsAgree_iff.2 ⟨layout', h', rfl⟩⟩ heq
  exact h.layoutFlags_inj hrange h' (congrArg Prod.snd hpair)

/-- A regular file with extended attributes has one encoding, and any other inode has several. -/
theorem encodedBy_unique_iff (hrange : inode.InRange maxInlineBytes) :
    (∀ bs, inode.EncodedBy maxInlineBytes bs → bs = inode.wire) ↔
      inode.xattrs ≠ [] ∧ inode.fileType = sIfreg := by
  constructor
  · intro h
    refine ⟨?_, ?_⟩
    · intro hempty
      have hadmits : inode.Admits ⟨true, false⟩ := ⟨fun _ => hempty, by simp⟩
      have heq := h _ ⟨hrange, _, hadmits, rfl⟩
      rw [← wireWith_none] at heq
      cases hadmits.wireWith_inj hrange inode.admits_none heq
    · by_contra htype
      have hadmits : inode.Admits ⟨false, true⟩ := ⟨by simp, fun _ => htype⟩
      have heq := h _ ⟨hrange, _, hadmits, rfl⟩
      rw [← wireWith_none] at heq
      cases hadmits.wireWith_inj hrange inode.admits_none heq
  · rintro ⟨hne, htype⟩ _ ⟨-, ⟨block, stray⟩, hadmits, rfl⟩
    have hblock : block = false := by
      simpa [hne] using hadmits.emptyXattrBlock
    have hstray : stray = false := by
      simpa [htype] using hadmits.strayInlineBit
    rw [hblock, hstray, wireWith_none]

end Inode

namespace MetadataBlob

variable {blob : MetadataBlob} {inodes : List Inode} {maxInlineBytes : Nat}

/-- Of two encodings that differ in one inode at most, equality is that of the inode. -/
theorem wireOf_inj {before after : List Bytes} {bs bs' : Bytes}
    (h : blob.wireOf (before ++ bs :: after) = blob.wireOf (before ++ bs' :: after)) :
    bs = bs' := by
  simpa [wireOf] using h

theorem InRange.encodedBy_map (h : ∀ inode ∈ inodes, inode.InRange maxInlineBytes) :
    List.Forall₂ (Inode.EncodedBy maxInlineBytes) inodes (inodes.map Inode.wire) := by
  rw [List.forall₂_map_right_iff, List.forall₂_same]
  exact fun inode hmem => ⟨h inode hmem, _, inode.admits_none, inode.wireWith_none⟩

/-- Inodes with one encoding each have one encoding together. -/
theorem eq_map_wire {recs : List Bytes}
    (hunique : ∀ inode ∈ inodes, inode.xattrs ≠ [] ∧ inode.fileType = sIfreg)
    (h : List.Forall₂ (Inode.EncodedBy maxInlineBytes) inodes recs) :
    inodes.map Inode.wire = recs := by
  have hboth := (List.forall₂_and_left inodes recs).2 ⟨hunique, h⟩
  have heach : List.Forall₂ (fun inode bs => inode.wire = bs) inodes recs :=
    hboth.imp fun inode bs hbs => ((Inode.encodedBy_unique_iff hbs.2.1).2 hbs.1 bs hbs.2).symm
  rwa [← List.forall₂_map_left_iff (f := Inode.wire), List.forall₂_eq_eq_eq] at heach

/-- A metadata blob has no second encoding exactly when all its inodes are regular files with
extended attributes. -/
theorem encoding_unique_iff [UnicodeData] {data : Bytes}
    (h : ReadsWhole (parseMetadataBlob maxInlineBytes) data blob) :
    (∀ data', ReadsWhole (parseMetadataBlob maxInlineBytes) data' blob → data' = data) ↔
      ∀ inode ∈ blob.inodes, inode.xattrs ≠ [] ∧ inode.fileType = sIfreg := by
  have hrecognizes := parseMetadataBlob_recognizes maxInlineBytes
  rcases hrecognizes.readsWhole_iff.1 h with ⟨hrange, recs, hall, hdata⟩
  constructor
  · intro hunique inode hmem
    rw [← Inode.encodedBy_unique_iff (hrange.inodes inode hmem)]
    intro bs hbs
    rcases List.append_of_mem hmem with ⟨before, after, hinodes⟩
    -- Write the other inodes as their fields determine, and this one in both ways.
    have hread : ∀ bs, inode.EncodedBy maxInlineBytes bs →
        blob.wireOf (before.map Inode.wire ++ bs :: after.map Inode.wire) = data := by
      intro bs hbs
      apply hunique
      apply hrecognizes.readsWhole_iff.2
      refine ⟨hrange, _, ?_, rfl⟩
      rw [hinodes]
      have hsides : ∀ other ∈ before ++ inode :: after, other.InRange maxInlineBytes :=
        hinodes ▸ hrange.inodes
      apply List.rel_append
      · exact InRange.encodedBy_map fun other hother =>
          hsides other (List.mem_append_left _ hother)
      · exact List.Forall₂.cons hbs (InRange.encodedBy_map fun other hother =>
          hsides other (List.mem_append_right _ (List.mem_cons_of_mem _ hother)))
    have hwire : inode.EncodedBy maxInlineBytes inode.wire :=
      ⟨hrange.inodes inode hmem, _, inode.admits_none, inode.wireWith_none⟩
    exact wireOf_inj ((hread bs hbs).trans (hread inode.wire hwire).symm)
  · intro hunique data' h'
    rcases hrecognizes.readsWhole_iff.1 h' with ⟨-, recs', hall', hdata'⟩
    rw [← hdata, ← hdata', ← eq_map_wire hunique hall, ← eq_map_wire hunique hall']

end MetadataBlob

namespace Reference

/-- A named pipe, which is no regular file and has no attributes. -/
def fifo : Inode :=
  ⟨1, sIfifo, 0, 0, 0, 0, 1, .pipe 7, none, []⟩

theorem fifo_inRange : MetadataBlob.InRange defaultInlineDataMaxBytes ⟨[fifo], []⟩ where
  inodes_lt := by decide
  inodes := by
    intro inode hmem
    rcases List.mem_singleton.1 hmem with rfl
    exact ⟨by decide, by decide, by decide, by decide, by decide, by decide, by decide,
      by simp [fifo], by decide, by simp [fifo], by decide, by decide⟩
  dirNodes_lt := by decide
  dirNodes := by simp

end Reference

open Reference in
open scoped Reference in
theorem encoding_unique_iff_fifo :
    ∃ data, ReadsWhole (parseMetadataBlob defaultInlineDataMaxBytes) data ⟨[fifo], []⟩ ∧
      ¬ ∀ data', ReadsWhole (parseMetadataBlob defaultInlineDataMaxBytes) data' ⟨[fifo], []⟩ →
        data' = data := by
  have hread := (parseMetadataBlob_reads fifo_inRange).whole
  refine ⟨_, hread, fun h => ?_⟩
  have hattributes := (MetadataBlob.encoding_unique_iff hread).1 h fifo List.mem_cons_self
  exact absurd rfl hattributes.1

end LimniFs
