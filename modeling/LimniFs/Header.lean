import LimniFs.FormatTypes

/-!
# Header — the 16-byte manifest header

Magic `LMFS`, three u16 version fields and six reserved bytes that must be zero.
-/

namespace LimniFs

open Wire

structure ManifestHeader where
  dropStoreVersion : Nat
  metadataVersion : Nat
  manifestVersion : Nat
  deriving DecidableEq

def parseManifestHeader : Parser ManifestHeader := do
  let magic ← readMagic
  raiseIf (magic ≠ manifestMagic) (.badMagic magic manifestMagic)
  let dropStoreVersion ← readU16Le
  let metadataVersion ← readU16Le
  let manifestVersion ← readU16Le
  let reserved ← read 6
  raiseIf (reserved.any (· ≠ 0))
    (.corrupt s!"reserved bytes 10..16 must be zero, found {bytesHex reserved}")
  return { dropStoreVersion, metadataVersion, manifestVersion }

/-! ## Wire format -/

namespace ManifestHeader

structure InRange (h : ManifestHeader) : Prop where
  dropStoreVersion : h.dropStoreVersion < 2 ^ 16
  metadataVersion : h.metadataVersion < 2 ^ 16
  manifestVersion : h.manifestVersion < 2 ^ 16

def wire (h : ManifestHeader) : Bytes :=
  manifestMagic ++ toLe 2 h.dropStoreVersion ++ toLe 2 h.metadataVersion ++
    toLe 2 h.manifestVersion ++ List.replicate 6 0

end ManifestHeader

theorem parseManifestHeader_decodes :
    Decodes parseManifestHeader ManifestHeader.InRange ManifestHeader.wire := by
  apply Wire.Decodes.record
  · apply Wire.Decodes.expect manifestMagic (read_decodes 4) rfl
    apply Wire.Decodes.field ManifestHeader.dropStoreVersion readU16Le_decodes
    · exact fun h hh _ => hh.dropStoreVersion
    intro dropStoreVersion hd
    apply Wire.Decodes.field ManifestHeader.metadataVersion readU16Le_decodes
    · exact fun h hh _ => hh.metadataVersion
    intro metadataVersion hm
    apply Wire.Decodes.field ManifestHeader.manifestVersion readU16Le_decodes
    · exact fun h hh _ => hh.manifestVersion
    intro manifestVersion hv
    -- The reserved bytes are no field: they are read as a constant of the format.
    apply Wire.Decodes.field (fun _ => List.replicate 6 0) (read_decodes 6)
    · simp
    intro reserved hr
    apply Wire.Decodes.check
    · rintro h - ⟨-, rfl⟩
      simp
    intro hzero
    have hreserved : reserved = List.replicate 6 0 := by
      rw [List.eq_replicate_iff]
      exact ⟨hr, by simpa using hzero⟩
    apply Wire.Decodes.done ⟨hd, hm, hv⟩
    · simp [hreserved]
    -- Every field has been read, so the record is the one assembled from them.
    · rintro ⟨_, _, _⟩ - ⟨⟨⟨⟨-, rfl⟩, rfl⟩, rfl⟩, -⟩
      rfl
  · intro h _
    simp [ManifestHeader.wire]

theorem parseManifestHeader_ensures : Ensures ManifestHeader.InRange parseManifestHeader := by
  refine Wire.Ensures.valid (P := fun _ => True) ?_ parseManifestHeader_decodes
  apply Wire.Ensures.bind (read_ensures 4)
  intro magic _
  apply Wire.Ensures.raiseIf (fun _ => Exn.isParseError_parse _)
  intro _
  apply Wire.Ensures.bind readU16Le_ensures
  intro dropStoreVersion _
  apply Wire.Ensures.bind readU16Le_ensures
  intro metadataVersion _
  apply Wire.Ensures.bind readU16Le_ensures
  intro manifestVersion _
  apply Wire.Ensures.bind (read_ensures 6)
  intro reserved _
  apply Wire.Ensures.raiseIf (fun _ => Exn.isParseError_parse _)
  intro _
  exact Wire.Ensures.pure trivial

end LimniFs
