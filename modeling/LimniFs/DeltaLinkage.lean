import LimniFs.FormatTypes

/-!
# DeltaLinkage — the delta linkage section

The root of the parent image and the tree operations that turn the parent's tree into this one.
An operation names a path, and the inode that is put there unless the path is removed.
-/

namespace LimniFs

open Wire

def deltaLinkageSectionVersion : Nat := 1
def minTreeOpLen : Nat := 6

inductive TreeOpKind
  | add
  | remove
  | replace
  deriving DecidableEq, Repr

namespace TreeOpKind

def value : TreeOpKind → Nat
  | .add => 0x01
  | .remove => 0x02
  | .replace => 0x03

def fromByte (byte : Nat) : Option TreeOpKind :=
  [add, remove, replace].find? fun kind => kind.value = byte

/-- `self != TreeOpKind.REMOVE` -/
def hasInodeNumber (kind : TreeOpKind) : Bool :=
  kind ≠ .remove

theorem fromByte_eq_some_iff {byte : Nat} {kind : TreeOpKind} :
    fromByte byte = some kind ↔ kind.value = byte := by
  constructor
  · intro h
    simpa using List.find?_some h
  · rintro rfl
    cases kind <;> decide

theorem value_ne_extended (kind : TreeOpKind) : kind.value ≠ 0xFF := by
  cases kind <;> decide

theorem value_lt (kind : TreeOpKind) : kind.value < 2 ^ 8 := by
  cases kind <;> decide

end TreeOpKind

structure TreeOp where
  kind : TreeOpKind
  path : String
  inodeNumber : Option Nat
  deriving DecidableEq

structure DeltaLinkage where
  baseRoot : ManifestRoot
  treeOps : List TreeOp
  deriving DecidableEq

/-! ## Parsers -/

/-- The kind of an operation, or the feature the reader does not implement. -/
def parseTreeOpKind (index opByte : Nat) : Except Exn TreeOpKind :=
  if opByte = 0xFF then
    .error (.unsupportedFeature
      s!"delta_linkage tree_op {index}: op_type 0xFF (extended, post-v1)")
  else
    match TreeOpKind.fromByte opByte with
    | some kind => .ok kind
    | none => .error (.unsupportedFeature
        s!"delta_linkage tree_op {index}: op_type 0x{formatHex 2 opByte} reserved")

/-- `"//" in path` -/
def HasDoubleSlash (path : String) : Prop :=
  ['/', '/'] <:+: path.toList

instance (path : String) : Decidable (HasDoubleSlash path) :=
  inferInstanceAs (Decidable (['/', '/'] <:+: path.toList))

def parseTreeOp (index : Nat) : Parser TreeOp := do
  let opByte ← readU8
  let kind ← parseTreeOpKind index opByte
  let pathLen ← readU32Le
  raiseIf (pathLen = 0) (.corrupt s!"delta_linkage tree_op {index}: empty path")
  let pathBytes ← read pathLen
  let path ← decodeText pathBytes s!"delta_linkage tree_op {index}: path not UTF-8"
  raiseIf (Char.ofNat 0 ∈ path.toList)
    (.corrupt s!"delta_linkage tree_op {index}: path contains NUL")
  raiseIf (HasDoubleSlash path)
    (.corrupt s!"delta_linkage tree_op {index}: path has empty component (double-slash)")
  -- A removed path has no inode, and no bytes for one either.
  let inodeNumber ← parseOptional kind.hasInodeNumber readU64Le
  return { kind, path, inodeNumber }

def parseDeltaLinkageSection : Parser DeltaLinkage := do
  let sectionVersion ← readU8
  raiseIf (sectionVersion ≠ deltaLinkageSectionVersion)
    (.unsupportedFeature (s!"delta_linkage section version {sectionVersion} " ++
      s!"(supported: {deltaLinkageSectionVersion})"))
  let baseRootBytes ← read 32
  let baseRoot ← ManifestRoot.make baseRootBytes
  let opCount ← readU32Le
  requireRemaining (opCount * minTreeOpLen)
  let treeOps ← repeatIndexed parseTreeOp 0 opCount
  return { baseRoot, treeOps }

/-! ## Wire format -/

namespace TreeOp

structure InRange (op : TreeOp) : Prop where
  path_lt : (encodeUtf8 op.path).length < 2 ^ 32
  path_ne : op.path ≠ ""
  path_nul : Char.ofNat 0 ∉ op.path.toList
  path_slashes : ¬ HasDoubleSlash op.path
  inodeNumber_isSome : op.inodeNumber.isSome = op.kind.hasInodeNumber
  inodeNumber_lt : ∀ number ∈ op.inodeNumber, number < 2 ^ 64

def wire (op : TreeOp) : Bytes :=
  [UInt8.ofNat op.kind.value] ++ toLe 4 (encodeUtf8 op.path).length ++ encodeUtf8 op.path ++
    optionWire (toLe 8) op.inodeNumber

/-- The shortest operation removes a path of one byte. -/
theorem InRange.length_wire_ge {op : TreeOp} (h : op.InRange) : minTreeOpLen ≤ op.wire.length := by
  have hpath : (encodeUtf8 op.path).length ≠ 0 := by
    intro hzero
    exact h.path_ne (encodeUtf8_eq_nil.1 (List.length_eq_zero_iff.1 hzero))
  simp only [wire, minTreeOpLen, List.length_append, List.length_singleton, length_toLe]
  omega

end TreeOp

namespace DeltaLinkage

structure InRange (delta : DeltaLinkage) : Prop where
  length_lt : delta.treeOps.length < 2 ^ 32
  treeOps : ∀ op ∈ delta.treeOps, op.InRange

def wire (delta : DeltaLinkage) : Bytes :=
  [UInt8.ofNat deltaLinkageSectionVersion] ++ delta.baseRoot.bytes ++
    toLe 4 delta.treeOps.length ++ delta.treeOps.flatMap TreeOp.wire

end DeltaLinkage

theorem parseTreeOpKind_eq_ok_iff {index opByte : Nat} {kind : TreeOpKind} :
    parseTreeOpKind index opByte = .ok kind ↔ kind.value = opByte := by
  unfold parseTreeOpKind
  split
  -- The extended type is no kind.
  · rename_i h
    constructor
    · intro hkind
      cases hkind
    · intro hkind
      exact absurd (hkind.trans h) kind.value_ne_extended
  · rw [← TreeOpKind.fromByte_eq_some_iff]
    cases TreeOpKind.fromByte opByte <;> simp

theorem parseTreeOp_decodes (index : Nat) :
    Decodes (parseTreeOp index) TreeOp.InRange TreeOp.wire := by
  apply Wire.Decodes.record
  · apply Wire.Decodes.field (fun op : TreeOp => op.kind.value) readU8_decodes
    · exact fun op _ _ => op.kind.value_lt
    intro opByte _
    apply Wire.Decodes.field TreeOp.kind Wire.Decodes.lift
    · exact fun op _ hk => parseTreeOpKind_eq_ok_iff.2 hk.2
    intro kind hkind
    rcases parseTreeOpKind_eq_ok_iff.1 hkind with rfl
    apply Wire.Decodes.field (fun op : TreeOp => (encodeUtf8 op.path).length) readU32Le_decodes
    · exact fun op hop _ => hop.path_lt
    intro pathLen hlen
    apply Wire.Decodes.check
    · rintro op hop ⟨-, rfl⟩ hzero
      exact hop.path_ne (encodeUtf8_eq_nil.1 (List.length_eq_zero_iff.1 hzero))
    intro hne
    apply Wire.Decodes.field (fun op : TreeOp => encodeUtf8 op.path) (read_decodes pathLen)
    · exact fun op _ hk => hk.2
    rintro pathBytes rfl
    apply Wire.Decodes.field TreeOp.path Wire.Decodes.lift
    · exact fun op _ hk => decodeText_eq_ok_iff.2 hk.2.symm
    intro path hpath
    -- The path is known as text now, and its bytes with it.
    rcases decodeText_eq_ok_iff.1 hpath with rfl
    apply Wire.Decodes.check
    · rintro op hop ⟨-, rfl⟩
      exact hop.path_nul
    intro hnul
    apply Wire.Decodes.check
    · rintro op hop ⟨-, rfl⟩
      exact hop.path_slashes
    intro hslashes
    apply Wire.Decodes.field TreeOp.inodeNumber
      (parseOptional_decodes readU64Le_decodes kind.hasInodeNumber)
    -- Whether the number is on the wire is decided by the kind that was read first.
    · rintro op hop ⟨⟨⟨⟨-, hkind⟩, -⟩, -⟩, -⟩
      exact ⟨hkind ▸ hop.inodeNumber_isSome, hop.inodeNumber_lt⟩
    rintro inodeNumber ⟨hsome, hnumber⟩
    apply Wire.Decodes.done
    · refine ⟨hlen, ?_, hnul, hslashes, hsome, hnumber⟩
      rintro rfl
      exact hne rfl
    · exact ⟨⟨⟨⟨⟨⟨trivial, rfl⟩, rfl⟩, rfl⟩, rfl⟩, rfl⟩, rfl⟩
    · rintro ⟨_, _, _⟩ - ⟨⟨⟨⟨⟨-, rfl⟩, -⟩, -⟩, rfl⟩, rfl⟩
      rfl
  · intro op _
    simp [TreeOp.wire]

theorem parseDeltaLinkageSection_decodes :
    Decodes parseDeltaLinkageSection DeltaLinkage.InRange DeltaLinkage.wire := by
  apply Wire.Decodes.record
  · apply Wire.Decodes.expect deltaLinkageSectionVersion readU8_decodes (by decide)
    apply Wire.Decodes.field (fun delta : DeltaLinkage => delta.baseRoot.bytes) (read_decodes 32)
    · exact fun delta _ _ => delta.baseRoot.length_bytes
    intro baseRootBytes _
    apply Wire.Decodes.field DeltaLinkage.baseRoot Wire.Decodes.lift
    · exact fun delta _ hk => ManifestRoot.make_eq_ok_iff.2 hk.2.symm
    intro baseRoot hroot
    rcases ManifestRoot.make_eq_ok_iff.1 hroot with rfl
    apply Wire.Decodes.field (fun delta : DeltaLinkage => delta.treeOps.length) readU32Le_decodes
    · exact fun delta hdelta _ => hdelta.length_lt
    intro opCount hcount
    apply Wire.Decodes.guard (Exn.isTruncated_truncated · _)
    · apply Wire.Decodes.field DeltaLinkage.treeOps
        (Wire.Decodes.repeatIndexed parseTreeOp_decodes opCount 0)
      · exact fun delta hdelta hk => ⟨hk.2, hdelta.treeOps⟩
      rintro treeOps ⟨rfl, hops⟩
      apply Wire.Decodes.done ⟨hcount, hops⟩
      · exact ⟨⟨⟨⟨trivial, rfl⟩, rfl⟩, rfl⟩, rfl⟩
      · rintro ⟨_, _⟩ - ⟨⟨⟨-, rfl⟩, -⟩, rfl⟩
        rfl
    -- No operation is shorter than the width that the size check counts with.
    · rintro delta ⟨hdelta, -, rfl⟩
      rw [List.append_nil]
      exact Wire.Decodes.length_flatMap_ge fun op hop => (hdelta.treeOps op hop).length_wire_ge
  · intro delta _
    simp [DeltaLinkage.wire]

/-! ## What the parsers raise -/

theorem parseTreeOpKind_ensures (index opByte : Nat) :
    Ensures (fun _ => True) (liftM (parseTreeOpKind index opByte) : Parser TreeOpKind) := by
  apply Wire.Ensures.lift
  · exact fun _ _ => trivial
  · intro e h
    unfold parseTreeOpKind at h
    split at h
    · cases h
      exact Exn.isParseError_parse _
    · split at h
      · cases h
      · cases h
        exact Exn.isParseError_parse _

theorem parseTreeOp_ensures (index : Nat) : Ensures TreeOp.InRange (parseTreeOp index) := by
  refine Wire.Ensures.valid (P := fun _ => True) ?_ (parseTreeOp_decodes index)
  apply Wire.Ensures.bind readU8_ensures
  intro opByte _
  apply Wire.Ensures.bind (parseTreeOpKind_ensures index opByte)
  intro kind _
  apply Wire.Ensures.bind readU32Le_ensures
  intro pathLen _
  apply Wire.Ensures.raiseIf (fun _ => Exn.isParseError_parse _)
  intro _
  apply Wire.Ensures.bind (read_ensures pathLen)
  intro pathBytes _
  apply Wire.Ensures.bind (decodeText_ensures pathBytes _)
  intro path _
  apply Wire.Ensures.raiseIf (fun _ => Exn.isParseError_parse _)
  intro _
  apply Wire.Ensures.raiseIf (fun _ => Exn.isParseError_parse _)
  intro _
  apply Wire.Ensures.bind (parseOptional_ensures readU64Le_ensures kind.hasInodeNumber)
  intro inodeNumber _
  exact Wire.Ensures.pure trivial

theorem parseDeltaLinkageSection_ensures :
    Ensures DeltaLinkage.InRange parseDeltaLinkageSection := by
  refine Wire.Ensures.valid (P := fun _ => True) ?_ parseDeltaLinkageSection_decodes
  apply Wire.Ensures.bind readU8_ensures
  intro sectionVersion _
  apply Wire.Ensures.raiseIf (fun _ => Exn.isParseError_parse _)
  intro _
  apply Wire.Ensures.bind (read_ensures 32)
  intro baseRootBytes hlen
  apply Wire.Ensures.bind (ManifestRoot.make_ensures hlen)
  intro baseRoot _
  apply Wire.Ensures.bind readU32Le_ensures
  intro opCount _
  apply Wire.Ensures.guard (fun _ => Exn.isParseError_parse _)
  apply Wire.Ensures.bind (Wire.Ensures.repeatIndexed parseTreeOp_ensures opCount 0)
  intro treeOps _
  exact Wire.Ensures.pure trivial

end LimniFs
