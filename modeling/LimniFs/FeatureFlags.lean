import LimniFs.FormatTypes

/-!
# FeatureFlags — the feature flags section

A version byte, a u32 count and `(flag_id, required)` entries.  The parser refuses the reserved id
`0x0000`, a `required` byte other than 0 and 1, and a repeated id.
-/

namespace LimniFs

open Wire

def featureFlagsSectionVersion : Nat := 1
def featureFlagsEntryLen : Nat := 3

structure FeatureFlag where
  flagId : Nat
  required : Bool
  deriving DecidableEq

structure FeatureFlags where
  entries : List FeatureFlag
  deriving DecidableEq

namespace FeatureFlags

/-- The first entry with the id. -/
def get (flags : FeatureFlags) (flagId : Nat) : Option FeatureFlag :=
  flags.entries.find? fun entry => entry.flagId = flagId

def isRequired (flags : FeatureFlags) (flagId : Nat) : Bool :=
  match flags.get flagId with
  | some entry => entry.required
  -- A flag that is absent is not required.
  | none => false

end FeatureFlags

/-- `0x00` is `False`, `0x01` is `True`, anything else is corrupt. -/
def parseRequired (index requiredByte : Nat) : Except Exn Bool :=
  if requiredByte = 0x00 then .ok false
  else if requiredByte = 0x01 then .ok true
  else .error (.corrupt (s!"feature_flags entry {index}: required byte must be " ++
    s!"0x00 or 0x01, got 0x{formatHex 2 requiredByte}"))

/-- One round of the entry loop; `seen` holds the ids of the earlier entries. -/
def parseFeatureFlag (index : Nat) (seen : List Nat) : Parser (FeatureFlag × List Nat) := do
  let flagId ← readU16Le
  raiseIf (flagId = 0) (.corrupt s!"feature_flags entry {index}: flag_id 0x0000 is reserved")
  let requiredByte ← readU8
  let required ← parseRequired index requiredByte
  -- The duplicate check comes last, and only accepted entries are remembered.
  raiseIf (flagId ∈ seen)
    (.corrupt s!"feature_flags entry {index}: duplicate flag_id 0x{formatHex 4 flagId}")
  return ({ flagId, required }, flagId :: seen)

def parseFeatureFlagsSection : Parser FeatureFlags := do
  let sectionVersion ← readU8
  raiseIf (sectionVersion ≠ featureFlagsSectionVersion)
    (.unsupportedFeature (s!"feature_flags section version {sectionVersion} " ++
      s!"(supported: {featureFlagsSectionVersion})"))
  let entryCount ← readU32Le
  -- Each entry needs at least `ENTRY_LEN` bytes.
  requireRemaining (entryCount * featureFlagsEntryLen)
  let entries ← collect parseFeatureFlag 0 entryCount []
  return { entries }

/-! ## Wire format -/

namespace FeatureFlag

structure InRange (flag : FeatureFlag) : Prop where
  flagId_lt : flag.flagId < 2 ^ 16
  flagId_ne_zero : flag.flagId ≠ 0

def wire (flag : FeatureFlag) : Bytes :=
  toLe 2 flag.flagId ++ [if flag.required then 1 else 0]

@[simp]
theorem length_wire (flag : FeatureFlag) : flag.wire.length = featureFlagsEntryLen := by
  simp [wire, featureFlagsEntryLen]

end FeatureFlag

namespace FeatureFlags

structure InRange (flags : FeatureFlags) : Prop where
  length_lt : flags.entries.length < 2 ^ 32
  entries : ∀ flag ∈ flags.entries, flag.InRange
  nodup : (flags.entries.map FeatureFlag.flagId).Nodup

def wire (flags : FeatureFlags) : Bytes :=
  [UInt8.ofNat featureFlagsSectionVersion] ++ toLe 4 flags.entries.length ++
    flags.entries.flatMap FeatureFlag.wire

end FeatureFlags

/-- The byte that `parseRequired` reads as `required`. -/
def requiredByte (required : Bool) : Nat :=
  if required then 1 else 0

theorem parseRequired_eq_ok_iff {index byte : Nat} {required : Bool} :
    parseRequired index byte = .ok required ↔ requiredByte required = byte := by
  unfold parseRequired requiredByte
  by_cases h₀ : byte = 0
  · cases required <;> simp [h₀]
  · by_cases h₁ : byte = 1
    · cases required <;> simp [h₁]
    · cases required <;> simp [h₀, h₁, eq_comm]

theorem parseFeatureFlag_decodes (index : Nat) (seen : List Nat) :
    Decodes (parseFeatureFlag index seen)
      (fun r => (r.1.InRange ∧ r.1.flagId ∉ seen) ∧ r.2 = r.1.flagId :: seen)
      (fun r => r.1.wire) := by
  apply Wire.Decodes.record
  · apply Wire.Decodes.field (fun r : FeatureFlag × List Nat => r.1.flagId) readU16Le_decodes
    · exact fun r hr _ => hr.1.1.flagId_lt
    intro flagId hid
    apply Wire.Decodes.check
    · rintro r hr ⟨-, rfl⟩
      exact hr.1.1.flagId_ne_zero
    intro hzero
    apply Wire.Decodes.field (fun r : FeatureFlag × List Nat => requiredByte r.1.required)
      readU8_decodes
    · rintro ⟨⟨_, required⟩, _⟩ - -
      cases required <;> simp [requiredByte]
    intro byte _
    -- `required` is computed from the byte that was read, without reading further.
    apply Wire.Decodes.field (fun r : FeatureFlag × List Nat => r.1.required) Wire.Decodes.lift
    · rintro r - ⟨-, hbyte⟩
      exact parseRequired_eq_ok_iff.2 hbyte
    intro required hrequired
    apply Wire.Decodes.check
    · rintro r hr ⟨⟨⟨-, rfl⟩, -⟩, -⟩
      exact hr.1.2
    intro hfresh
    apply Wire.Decodes.done ⟨⟨⟨hid, hzero⟩, hfresh⟩, rfl⟩
    · exact ⟨⟨⟨trivial, rfl⟩, parseRequired_eq_ok_iff.1 hrequired⟩, rfl⟩
    · rintro ⟨⟨_, _⟩, _⟩ ⟨-, hseen⟩ ⟨⟨⟨-, rfl⟩, -⟩, rfl⟩
      exact Prod.ext rfl hseen
  · rintro ⟨⟨_, required⟩, _⟩ -
    cases required <;> simp [FeatureFlag.wire, requiredByte]

theorem parseFeatureFlagsSection_decodes :
    Decodes parseFeatureFlagsSection FeatureFlags.InRange FeatureFlags.wire := by
  apply Wire.Decodes.record
  · apply Wire.Decodes.expect featureFlagsSectionVersion readU8_decodes (by decide)
    apply Wire.Decodes.field (fun flags : FeatureFlags => flags.entries.length) readU32Le_decodes
    · exact fun flags hflags _ => hflags.length_lt
    intro entryCount hcount
    apply Wire.Decodes.guard (Exn.isTruncated_truncated · _)
    · apply Wire.Decodes.field FeatureFlags.entries (Wire.Decodes.collectFresh FeatureFlag.InRange
        FeatureFlag.flagId FeatureFlag.wire parseFeatureFlag_decodes entryCount)
      · rintro flags hflags ⟨-, hlen⟩
        exact ⟨hlen, hflags.entries, hflags.nodup⟩
      rintro entries ⟨hlen, hentries, hnodup⟩
      apply Wire.Decodes.done ⟨hlen ▸ hcount, hentries, hnodup⟩
      · exact ⟨⟨trivial, hlen⟩, rfl⟩
      · rintro ⟨_⟩ - ⟨-, rfl⟩
        rfl
    -- The entries have one width, so the size check asks for exactly their bytes.
    · rintro flags ⟨-, -, hlen⟩
      simp [hlen]
  · intro flags _
    simp [FeatureFlags.wire]

theorem parseFeatureFlag_ensures (index : Nat) (seen : List Nat) :
    Ensures (fun _ => True) (parseFeatureFlag index seen) := by
  apply Wire.Ensures.bind readU16Le_ensures
  intro flagId _
  apply Wire.Ensures.raiseIf (fun _ => Exn.isParseError_parse _)
  intro _
  apply Wire.Ensures.bind readU8_ensures
  intro byte _
  apply Wire.Ensures.bind (P := fun _ => True)
  · apply Wire.Ensures.lift
    · exact fun _ _ => trivial
    · intro e h
      unfold parseRequired at h
      split_ifs at h
      cases h
      exact Exn.isParseError_parse _
  intro required _
  apply Wire.Ensures.raiseIf (fun _ => Exn.isParseError_parse _)
  intro _
  exact Wire.Ensures.pure trivial

theorem parseFeatureFlagsSection_ensures :
    Ensures FeatureFlags.InRange parseFeatureFlagsSection := by
  refine Wire.Ensures.valid (P := fun _ => True) ?_ parseFeatureFlagsSection_decodes
  apply Wire.Ensures.bind readU8_ensures
  intro sectionVersion _
  apply Wire.Ensures.raiseIf (fun _ => Exn.isParseError_parse _)
  intro _
  apply Wire.Ensures.bind readU32Le_ensures
  intro entryCount _
  apply Wire.Ensures.guard (fun _ => Exn.isParseError_parse _)
  apply Wire.Ensures.bind (Wire.Ensures.collect (P := fun _ => True)
    parseFeatureFlag_ensures entryCount 0 [])
  intro entries _
  exact Wire.Ensures.pure trivial

end LimniFs
