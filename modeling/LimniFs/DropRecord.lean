import LimniFs.SlabHeader

/-!
# DropRecord — one 48-byte descriptor of a drop

The record names the drop, its plaintext length and representation, and locates its bytes inside
a solid window of the slab.
-/

namespace LimniFs

open Wire

def dropRecordLen : Nat := 48
def defaultDropMaxPlaintextBytes : Nat := 64 * 1024 * 1024

structure DropRecord where
  dropId : DropId
  plaintextLen : Nat
  representation : Representation
  solidWindowIndex : Nat
  offsetInWindow : Nat
  lenInWindow : Nat
  deriving DecidableEq

def parseDropRecord (slab : SlabHeader) (maxPlaintext : Nat) : Parser DropRecord := do
  let dropIdBytes ← read 32
  let dropId ← DropId.fromBytes dropIdBytes
  let plaintextLen ← readU32Le
  raiseIf (plaintextLen > maxPlaintext)
    (.corrupt s!"drop plaintext_len {plaintextLen} exceeds ceiling {maxPlaintext}")
  let repBytes ← read 3
  let representation ← Representation.fromBytes repBytes
  -- A plaintext slab holds no sealed drop, and a slab without erasure coding no coded one.
  raiseIf (slab.cryptoHint = 0 ∧ representation.aead ≠ 0)
    (.corrupt (s!"drop aead 0x{formatHex 2 representation.aead} in plaintext slab " ++
      "(crypto_hint=0)"))
  raiseIf (slab.ecDescriptor = 0 ∧ representation.ec ≠ 0)
    (.corrupt (s!"drop ec 0x{formatHex 2 representation.ec} in no-EC slab " ++
      "(ec_descriptor=0)"))
  let solidWindowIndex ← readU8
  let offsetInWindow ← readU32Le
  let lenInWindow ← readU32Le
  -- The numbers are unbounded, so this check never raises.
  raiseIf (offsetInWindow + lenInWindow < offsetInWindow)
    (.corrupt (s!"drop offset_in_window ({offsetInWindow}) + " ++
      s!"len_in_window ({lenInWindow}) overflow"))
  return { dropId, plaintextLen, representation, solidWindowIndex, offsetInWindow, lenInWindow }

/-! ## Wire format -/

namespace DropRecord

/-- What a record has to satisfy in a slab with the given header. -/
structure InRange (slab : SlabHeader) (maxPlaintext : Nat) (record : DropRecord) : Prop where
  plaintextLen_lt : record.plaintextLen < 2 ^ 32
  plaintextLen_le : record.plaintextLen ≤ maxPlaintext
  aead : slab.cryptoHint = 0 → record.representation.aead = 0
  ec : slab.ecDescriptor = 0 → record.representation.ec = 0
  solidWindowIndex_lt : record.solidWindowIndex < 2 ^ 8
  offsetInWindow_lt : record.offsetInWindow < 2 ^ 32
  lenInWindow_lt : record.lenInWindow < 2 ^ 32

def wire (record : DropRecord) : Bytes :=
  record.dropId.bytes ++ toLe 4 record.plaintextLen ++ record.representation.toBytes ++
    [UInt8.ofNat record.solidWindowIndex] ++ toLe 4 record.offsetInWindow ++
    toLe 4 record.lenInWindow

@[simp]
theorem length_wire (record : DropRecord) : record.wire.length = dropRecordLen := by
  have hid : record.dropId.bytes.length = 32 := record.dropId.length_bytes
  simp [wire, hid, Representation.toBytes, dropRecordLen]

@[simp]
theorem length_flatMap_wire (records : List DropRecord) :
    (records.flatMap wire).length = dropRecordLen * records.length := by
  simp [List.length_flatMap, Nat.mul_comm]

end DropRecord

theorem parseDropRecord_decodes (slab : SlabHeader) (maxPlaintext : Nat) :
    Decodes (parseDropRecord slab maxPlaintext) (DropRecord.InRange slab maxPlaintext)
      DropRecord.wire := by
  apply Wire.Decodes.record
  · apply Wire.Decodes.field (fun record : DropRecord => record.dropId.bytes) (read_decodes 32)
    · exact fun record _ _ => record.dropId.length_bytes
    intro dropIdBytes _
    apply Wire.Decodes.field DropRecord.dropId Wire.Decodes.lift
    · rintro record - ⟨-, hbytes⟩
      exact DropId.make_eq_ok_iff.2 hbytes.symm
    intro dropId hdrop
    rcases DropId.make_eq_ok_iff.1 hdrop with rfl
    apply Wire.Decodes.field DropRecord.plaintextLen readU32Le_decodes
    · exact fun record hr _ => hr.plaintextLen_lt
    intro plaintextLen hplain
    apply Wire.Decodes.check
    · rintro record hr ⟨-, rfl⟩
      exact Nat.not_lt.2 hr.plaintextLen_le
    intro hle
    apply Wire.Decodes.field (fun record : DropRecord => record.representation.toBytes)
      (read_decodes 3)
    · exact fun _ _ _ => rfl
    intro repBytes _
    apply Wire.Decodes.field DropRecord.representation Wire.Decodes.lift
    · rintro record - ⟨-, hbytes⟩
      exact Representation.fromBytes_eq_ok_iff.2 hbytes.symm
    intro representation hrep
    -- Three bytes are always a representation, so both identifier reads refuse nothing.
    rcases Representation.fromBytes_eq_ok_iff.1 hrep with rfl
    apply Wire.Decodes.check
    · rintro record hr ⟨-, rfl⟩ ⟨hcrypto, haead⟩
      exact haead (hr.aead hcrypto)
    intro haead
    apply Wire.Decodes.check
    · rintro record hr ⟨-, rfl⟩ ⟨hecDescriptor, hec⟩
      exact hec (hr.ec hecDescriptor)
    intro hec
    apply Wire.Decodes.field DropRecord.solidWindowIndex readU8_decodes
    · exact fun record hr _ => hr.solidWindowIndex_lt
    intro solidWindowIndex hindex
    apply Wire.Decodes.field DropRecord.offsetInWindow readU32Le_decodes
    · exact fun record hr _ => hr.offsetInWindow_lt
    intro offsetInWindow hoffset
    apply Wire.Decodes.field DropRecord.lenInWindow readU32Le_decodes
    · exact fun record hr _ => hr.lenInWindow_lt
    intro lenInWindow hlen
    apply Wire.Decodes.check
    -- The overflow check is vacuous, for valid records and for all others.
    · exact fun record _ _ => Nat.not_lt.2 (Nat.le_add_right _ _)
    intro _
    apply Wire.Decodes.done
    · exact ⟨hplain, Nat.not_lt.1 hle, fun hcrypto => by_contra fun h => haead ⟨hcrypto, h⟩,
        fun hecDescriptor => by_contra fun h => hec ⟨hecDescriptor, h⟩, hindex, hoffset, hlen⟩
    · exact ⟨⟨⟨⟨⟨⟨⟨⟨trivial, rfl⟩, rfl⟩, rfl⟩, rfl⟩, rfl⟩, rfl⟩, rfl⟩, rfl⟩
    · rintro ⟨_, _, _, _, _, _⟩ - ⟨⟨⟨⟨⟨⟨⟨-, rfl⟩, rfl⟩, -⟩, rfl⟩, rfl⟩, rfl⟩, rfl⟩
      rfl
  · intro record _
    simp [DropRecord.wire]

/-- Input is missing or a check fails: a record raises `TruncatedError` and `CorruptError`, so it
raises nothing outside a class that has both. -/
theorem parseDropRecord_ensures {E : Exn → Prop} (htrunc : ∀ avail need, E (.truncated avail need))
    (hcorrupt : ∀ reason, E (.corrupt reason)) (slab : SlabHeader) (maxPlaintext : Nat) :
    Wire.Ensures E (DropRecord.InRange slab maxPlaintext) (parseDropRecord slab maxPlaintext) := by
  refine Wire.Ensures.valid (P := fun _ => True) ?_ (parseDropRecord_decodes slab maxPlaintext)
  apply Wire.Ensures.bind (read_ensures_of htrunc 32)
  intro dropIdBytes hdrop
  apply Wire.Ensures.bind (DropId.fromBytes_ensures hdrop)
  intro dropId _
  apply Wire.Ensures.bind (readU32Le_ensures_of htrunc)
  intro plaintextLen _
  apply Wire.Ensures.raiseIf (fun _ => hcorrupt _)
  intro _
  apply Wire.Ensures.bind (read_ensures_of htrunc 3)
  intro repBytes hrep
  apply Wire.Ensures.bind (Representation.fromBytes_ensures hrep)
  intro representation _
  apply Wire.Ensures.raiseIf (fun _ => hcorrupt _)
  intro _
  apply Wire.Ensures.raiseIf (fun _ => hcorrupt _)
  intro _
  apply Wire.Ensures.bind (readU8_ensures_of htrunc)
  intro solidWindowIndex _
  apply Wire.Ensures.bind (readU32Le_ensures_of htrunc)
  intro offsetInWindow _
  apply Wire.Ensures.bind (readU32Le_ensures_of htrunc)
  intro lenInWindow _
  apply Wire.Ensures.raiseIf (fun _ => hcorrupt _)
  intro _
  exact Wire.Ensures.pure trivial

/-- A record is never short of input where its 48 bytes are left. -/
theorem parseDropRecord_fits (slab : SlabHeader) (maxPlaintext : Nat) :
    Fits dropRecordLen (parseDropRecord slab maxPlaintext) := by
  -- 32 + 4 + 3 + 1 + 4 + 4 bytes; the checks between them report no missing input.
  apply Wire.Fits.bind (read_fits 32)
  intro dropIdBytes
  apply Wire.Fits.lift (fun _ => DropId.not_isTruncated_fromBytes)
  intro dropId
  apply Wire.Fits.bind readU32Le_fits
  intro plaintextLen
  apply Wire.Fits.raiseIf (Exn.not_isTruncated_corrupt _)
  apply Wire.Fits.bind (read_fits 3)
  intro repBytes
  apply Wire.Fits.lift (fun _ => Representation.not_isTruncated_fromBytes)
  intro representation
  apply Wire.Fits.raiseIf (Exn.not_isTruncated_corrupt _)
  apply Wire.Fits.raiseIf (Exn.not_isTruncated_corrupt _)
  apply Wire.Fits.bind readU8_fits
  intro solidWindowIndex
  apply Wire.Fits.bind readU32Le_fits
  intro offsetInWindow
  apply Wire.Fits.bind readU32Le_fits
  intro lenInWindow
  apply Wire.Fits.raiseIf (Exn.not_isTruncated_corrupt _)
  exact Wire.Fits.pure

end LimniFs
