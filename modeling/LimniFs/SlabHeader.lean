import LimniFs.FormatTypes

/-!
# SlabHeader — the 56-byte prefix of a slab

Magic `LIM1`, the layout version, the slab id, the total length of the slab and the two
descriptors, whose value 0xFF is kept for an extension.
-/

namespace LimniFs

open Wire

def defaultSlabMaxBytes : Nat := 64 * 1024 * 1024
def slabFormatVersion : Nat := 1
def slabHeaderLen : Nat := 56
def ecDescriptorExtended : Nat := 0xFF
def cryptoHintExtended : Nat := 0xFF

structure SlabHeader where
  formatVersion : Nat
  slabId : SlabId
  totalLength : Nat
  ecDescriptor : Nat
  cryptoHint : Nat
  deriving DecidableEq

def parseSlabHeader (maxTotalLength : Nat) : Parser SlabHeader := do
  let magic ← readMagic
  raiseIf (magic ≠ slabMagic) (.badMagic magic slabMagic)
  let formatVersion ← readU16Le
  raiseIf (formatVersion ≠ slabFormatVersion)
    (.unsupportedFeature (s!"slab format_version {formatVersion} " ++
      s!"(supported: {slabFormatVersion})"))
  let slabIdBytes ← read 40
  let slabId ← SlabId.fromBytes slabIdBytes
  let totalLength ← readU64Le
  -- Both bounds on the length are checked before anything is read with it.
  raiseIf (totalLength < slabHeaderLen)
    (.corrupt (s!"slab total_length {totalLength} is less than " ++
      s!"header width {slabHeaderLen}"))
  raiseIf (totalLength > maxTotalLength)
    (.corrupt (s!"slab total_length {totalLength} exceeds " ++
      s!"configured ceiling {maxTotalLength}"))
  let ecDescriptor ← readU8
  raiseIf (ecDescriptor = ecDescriptorExtended)
    (.unsupportedFeature "slab ec_descriptor 0xFF (extended descriptor, post-v1)")
  let cryptoHint ← readU8
  raiseIf (cryptoHint = cryptoHintExtended)
    (.unsupportedFeature "slab crypto_hint 0xFF (extended hint, post-v1)")
  return { formatVersion, slabId, totalLength, ecDescriptor, cryptoHint }

/-! ## Wire format -/

namespace SlabHeader

structure InRange (maxTotalLength : Nat) (header : SlabHeader) : Prop where
  formatVersion : header.formatVersion = slabFormatVersion
  totalLength_lt : header.totalLength < 2 ^ 64
  totalLength_ge : slabHeaderLen ≤ header.totalLength
  totalLength_le : header.totalLength ≤ maxTotalLength
  ecDescriptor_lt : header.ecDescriptor < 2 ^ 8
  ecDescriptor_ne : header.ecDescriptor ≠ ecDescriptorExtended
  cryptoHint_lt : header.cryptoHint < 2 ^ 8
  cryptoHint_ne : header.cryptoHint ≠ cryptoHintExtended

def wire (header : SlabHeader) : Bytes :=
  slabMagic ++ toLe 2 header.formatVersion ++ header.slabId.toBytes ++
    toLe 8 header.totalLength ++ [UInt8.ofNat header.ecDescriptor] ++
    [UInt8.ofNat header.cryptoHint]

@[simp]
theorem length_wire (header : SlabHeader) : header.wire.length = slabHeaderLen := by
  simp [wire, slabMagic, slabHeaderLen]

end SlabHeader

theorem parseSlabHeader_decodes (maxTotalLength : Nat) :
    Decodes (parseSlabHeader maxTotalLength) (SlabHeader.InRange maxTotalLength)
      SlabHeader.wire := by
  apply Wire.Decodes.record
  · apply Wire.Decodes.expect slabMagic (read_decodes 4) rfl
    apply Wire.Decodes.field SlabHeader.formatVersion readU16Le_decodes
    · intro header hh _
      rw [hh.formatVersion]
      decide
    intro formatVersion _
    apply Wire.Decodes.check
    · rintro header hh ⟨-, rfl⟩
      simpa using hh.formatVersion
    intro hversion
    apply Wire.Decodes.field (fun header : SlabHeader => header.slabId.toBytes) (read_decodes 40)
    · exact fun header _ _ => header.slabId.length_toBytes
    intro slabIdBytes _
    apply Wire.Decodes.field SlabHeader.slabId Wire.Decodes.lift
    · rintro header - ⟨-, hbytes⟩
      exact SlabId.fromBytes_eq_ok_iff.2 hbytes.symm
    intro slabId hslab
    -- 40 bytes are always a slab id, so this step reads a field and refuses nothing.
    rcases SlabId.fromBytes_eq_ok_iff.1 hslab with rfl
    apply Wire.Decodes.field SlabHeader.totalLength readU64Le_decodes
    · exact fun header hh _ => hh.totalLength_lt
    intro totalLength htotal
    apply Wire.Decodes.check
    · rintro header hh ⟨-, rfl⟩
      exact Nat.not_lt.2 hh.totalLength_ge
    intro hge
    apply Wire.Decodes.check
    · rintro header hh ⟨-, rfl⟩
      exact Nat.not_lt.2 hh.totalLength_le
    intro hle
    apply Wire.Decodes.field SlabHeader.ecDescriptor readU8_decodes
    · exact fun header hh _ => hh.ecDescriptor_lt
    intro ecDescriptor hec
    apply Wire.Decodes.check
    · rintro header hh ⟨-, rfl⟩
      exact hh.ecDescriptor_ne
    intro hecNe
    apply Wire.Decodes.field SlabHeader.cryptoHint readU8_decodes
    · exact fun header hh _ => hh.cryptoHint_lt
    intro cryptoHint hcrypto
    apply Wire.Decodes.check
    · rintro header hh ⟨-, rfl⟩
      exact hh.cryptoHint_ne
    intro hcryptoNe
    apply Wire.Decodes.done
    · exact ⟨not_not.1 hversion, htotal, Nat.not_lt.1 hge, Nat.not_lt.1 hle, hec, hecNe, hcrypto,
        hcryptoNe⟩
    · exact ⟨⟨⟨⟨⟨⟨trivial, rfl⟩, rfl⟩, rfl⟩, rfl⟩, rfl⟩, rfl⟩
    · rintro ⟨_, _, _, _, _⟩ - ⟨⟨⟨⟨⟨⟨-, rfl⟩, -⟩, rfl⟩, rfl⟩, rfl⟩, rfl⟩
      rfl
  · intro header _
    simp [SlabHeader.wire]

theorem parseSlabHeader_ensures (maxTotalLength : Nat) :
    Ensures (SlabHeader.InRange maxTotalLength) (parseSlabHeader maxTotalLength) := by
  refine Wire.Ensures.valid (P := fun _ => True) ?_ (parseSlabHeader_decodes maxTotalLength)
  apply Wire.Ensures.bind (read_ensures 4)
  intro magic _
  apply Wire.Ensures.raiseIf (fun _ => Exn.isParseError_parse _)
  intro _
  apply Wire.Ensures.bind readU16Le_ensures
  intro formatVersion _
  apply Wire.Ensures.raiseIf (fun _ => Exn.isParseError_parse _)
  intro _
  apply Wire.Ensures.bind (read_ensures 40)
  intro slabIdBytes hslab
  apply Wire.Ensures.bind (SlabId.fromBytes_ensures hslab)
  intro slabId _
  apply Wire.Ensures.bind readU64Le_ensures
  intro totalLength _
  apply Wire.Ensures.raiseIf (fun _ => Exn.isParseError_parse _)
  intro _
  apply Wire.Ensures.raiseIf (fun _ => Exn.isParseError_parse _)
  intro _
  apply Wire.Ensures.bind readU8_ensures
  intro ecDescriptor _
  apply Wire.Ensures.raiseIf (fun _ => Exn.isParseError_parse _)
  intro _
  apply Wire.Ensures.bind readU8_ensures
  intro cryptoHint _
  apply Wire.Ensures.raiseIf (fun _ => Exn.isParseError_parse _)
  intro _
  exact Wire.Ensures.pure trivial

end LimniFs
