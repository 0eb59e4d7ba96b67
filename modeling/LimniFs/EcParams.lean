import LimniFs.FormatTypes

/-!
# EcParams — the erasure coding section

Default Reed-Solomon parameters and per-slab overrides.  The section is on the wire when the
feature flag `0x0001` is declared.
-/

namespace LimniFs

open Wire

def ecParamsSectionVersion : Nat := 1
def defaultEcPolynomial : Nat := 0x011D
def maxShards : Nat := 255
def overrideEntryLen : Nat := 42

structure EcOverride where
  slabId : SlabId
  k : Nat
  m : Nat
  deriving DecidableEq

structure EcParams where
  k : Nat
  m : Nat
  polynomial : Nat
  overrides : List EcOverride
  deriving DecidableEq

def EcOverride.key (entry : EcOverride) : SlabKey :=
  (entry.slabId.ordinal, entry.slabId.hash)

/-- `_validate(k, m, label)` -/
def validateShards (k m : Nat) (label : String) : Except Exn Unit :=
  if k < 1 then
    .error (.corrupt s!"ec_params {label}: k must be >= 1, got {k}")
  else if m < 1 then
    .error (.corrupt s!"ec_params {label}: m must be >= 1, got {m}")
  else if k + m > maxShards then
    .error (.corrupt (s!"ec_params {label}: k + m = {k + m} exceeds " ++
      s!"GF(2^8) limit ({maxShards})"))
  else
    .ok ()

/-- One round of the override loop; `seen` holds the keys of the earlier overrides. -/
def parseEcOverride (index : Nat) (seen : List SlabKey) :
    Parser (EcOverride × List SlabKey) := do
  let ordinal ← readU64Le
  let hash ← read 32
  let slabId ← SlabId.make ordinal hash
  let k ← readU8
  let m ← readU8
  -- The shard counts are checked before the slab id is looked up among the earlier ones.
  validateShards k m s!"override {index} for slab ordinal {ordinal}"
  raiseIf ((slabId.ordinal, slabId.hash) ∈ seen)
    (.corrupt s!"ec_params override {index}: duplicate slab_id (ordinal {ordinal})")
  return ({ slabId, k, m }, (slabId.ordinal, slabId.hash) :: seen)

def parseEcParamsSection : Parser EcParams := do
  let sectionVersion ← readU8
  raiseIf (sectionVersion ≠ ecParamsSectionVersion)
    (.unsupportedFeature (s!"ec_params section version {sectionVersion} " ++
      s!"(supported: {ecParamsSectionVersion})"))
  let k ← readU8
  let m ← readU8
  validateShards k m "default"
  let polynomial ← readU16Le
  -- Only one field polynomial is supported; the field is on the wire nevertheless.
  raiseIf (polynomial ≠ defaultEcPolynomial)
    (.unsupportedFeature (s!"ec_params polynomial 0x{formatHex 4 polynomial} " ++
      s!"(supported: 0x{formatHex 4 defaultEcPolynomial})"))
  let overrideCount ← readU32Le
  requireRemaining (overrideCount * overrideEntryLen)
  let overrides ← collect parseEcOverride 0 overrideCount []
  return { k, m, polynomial, overrides }

/-! ## Wire format -/

/-- Shard counts within the GF(2^8) limit. -/
structure ShardsInRange (k m : Nat) : Prop where
  k_pos : 1 ≤ k
  m_pos : 1 ≤ m
  le_max : k + m ≤ maxShards

namespace EcOverride

def InRange (entry : EcOverride) : Prop :=
  ShardsInRange entry.k entry.m

def wire (entry : EcOverride) : Bytes :=
  entry.slabId.toBytes ++ [UInt8.ofNat entry.k] ++ [UInt8.ofNat entry.m]

@[simp]
theorem length_wire (entry : EcOverride) : entry.wire.length = overrideEntryLen := by
  simp [wire, overrideEntryLen]

end EcOverride

namespace EcParams

structure InRange (params : EcParams) : Prop where
  shards : ShardsInRange params.k params.m
  polynomial : params.polynomial = defaultEcPolynomial
  length_lt : params.overrides.length < 2 ^ 32
  overrides : ∀ entry ∈ params.overrides, entry.InRange
  nodup : (params.overrides.map EcOverride.key).Nodup

def wire (params : EcParams) : Bytes :=
  [UInt8.ofNat ecParamsSectionVersion] ++ [UInt8.ofNat params.k] ++ [UInt8.ofNat params.m] ++
    toLe 2 params.polynomial ++ toLe 4 params.overrides.length ++
    params.overrides.flatMap EcOverride.wire

end EcParams

theorem validateShards_eq_ok_iff {k m : Nat} {label : String} {u : Unit} :
    validateShards k m label = .ok u ↔ ShardsInRange k m := by
  constructor
  -- Every early return is an error, so the last branch is the only one that succeeds.
  · intro h
    unfold validateShards at h
    split at h
    · cases h
    · split at h
      · cases h
      · split at h
        · cases h
        · exact ⟨by omega, by omega, by omega⟩
  · rintro ⟨hk, hm, hle⟩
    unfold validateShards
    rw [if_neg (by omega), if_neg (by omega), if_neg (by omega)]

theorem ShardsInRange.k_lt {k m : Nat} (h : ShardsInRange k m) : k < 2 ^ 8 := by
  have hm := h.m_pos
  have hle := h.le_max
  simp only [maxShards] at hle
  omega

theorem ShardsInRange.m_lt {k m : Nat} (h : ShardsInRange k m) : m < 2 ^ 8 := by
  have hk := h.k_pos
  have hle := h.le_max
  simp only [maxShards] at hle
  omega

theorem parseEcOverride_decodes (index : Nat) (seen : List SlabKey) :
    Decodes (parseEcOverride index seen)
      (fun r => (r.1.InRange ∧ r.1.key ∉ seen) ∧ r.2 = r.1.key :: seen) (fun r => r.1.wire) := by
  apply Wire.Decodes.record
  · apply Wire.Decodes.field
      (fun r : EcOverride × List SlabKey => r.1.slabId.ordinal) readU64Le_decodes
    · exact fun r _ _ => r.1.slabId.ordinal_lt
    intro ordinal hordinal
    apply Wire.Decodes.field
      (fun r : EcOverride × List SlabKey => r.1.slabId.hash) (read_decodes 32)
    · exact fun r _ _ => r.1.slabId.length_hash
    intro hash hhash
    apply Wire.Decodes.field
      (fun r : EcOverride × List SlabKey => r.1.slabId) Wire.Decodes.lift
    · rintro r - ⟨⟨-, hord⟩, hh⟩
      exact SlabId.make_eq_ok_iff.2 ⟨hord.symm, hh.symm⟩
    intro slabId hslab
    rcases SlabId.make_eq_ok_iff.1 hslab with ⟨rfl, rfl⟩
    apply Wire.Decodes.field
      (fun r : EcOverride × List SlabKey => r.1.k) readU8_decodes
    · exact fun r hr _ => hr.1.1.k_lt
    intro k _
    apply Wire.Decodes.field
      (fun r : EcOverride × List SlabKey => r.1.m) readU8_decodes
    · exact fun r hr _ => hr.1.1.m_lt
    intro m _
    -- `_validate` returns nothing: what it adds is that the counts just read are in range.
    apply Wire.Decodes.field (fun _ => ()) Wire.Decodes.lift
    · rintro r hr ⟨⟨-, rfl⟩, rfl⟩
      exact validateShards_eq_ok_iff.2 hr.1.1
    intro u hshards
    apply Wire.Decodes.check
    · rintro r hr ⟨⟨⟨⟨-, rfl⟩, -⟩, -⟩, -⟩
      exact hr.1.2
    intro hfresh
    apply Wire.Decodes.done ⟨⟨validateShards_eq_ok_iff.1 hshards, hfresh⟩, rfl⟩
    · exact ⟨⟨⟨⟨⟨⟨trivial, rfl⟩, rfl⟩, rfl⟩, rfl⟩, rfl⟩, rfl⟩
    · rintro ⟨⟨_, _, _⟩, _⟩ ⟨-, hseen⟩ ⟨⟨⟨⟨-, rfl⟩, rfl⟩, rfl⟩, -⟩
      exact Prod.ext rfl hseen
  · intro r _
    simp [EcOverride.wire, SlabId.toBytes]

theorem parseEcParamsSection_decodes :
    Decodes parseEcParamsSection EcParams.InRange EcParams.wire := by
  apply Wire.Decodes.record
  · apply Wire.Decodes.expect ecParamsSectionVersion readU8_decodes (by decide)
    apply Wire.Decodes.field EcParams.k readU8_decodes
    · exact fun params hparams _ => hparams.shards.k_lt
    intro k _
    apply Wire.Decodes.field EcParams.m readU8_decodes
    · exact fun params hparams _ => hparams.shards.m_lt
    intro m _
    apply Wire.Decodes.field (fun _ => ()) Wire.Decodes.lift
    · rintro params hparams ⟨⟨-, rfl⟩, rfl⟩
      exact validateShards_eq_ok_iff.2 hparams.shards
    intro u hshards
    apply Wire.Decodes.field EcParams.polynomial readU16Le_decodes
    -- The polynomial of a valid section is the default one, which fits in a u16.
    · intro params hparams _
      rw [hparams.polynomial]
      decide
    intro polynomial _
    apply Wire.Decodes.check
    · rintro params hparams ⟨-, rfl⟩
      exact not_not.2 hparams.polynomial
    intro hpoly
    apply Wire.Decodes.field (fun params : EcParams => params.overrides.length)
      readU32Le_decodes
    · exact fun params hparams _ => hparams.length_lt
    intro overrideCount hcount
    apply Wire.Decodes.guard (Exn.isTruncated_truncated · _)
    · apply Wire.Decodes.field EcParams.overrides (Wire.Decodes.collectFresh EcOverride.InRange
        EcOverride.key EcOverride.wire parseEcOverride_decodes overrideCount)
      · rintro params hparams ⟨-, hlen⟩
        exact ⟨hlen, hparams.overrides, hparams.nodup⟩
      rintro overrides ⟨rfl, hoverrides, hnodup⟩
      apply Wire.Decodes.done
        ⟨validateShards_eq_ok_iff.1 hshards, not_not.1 hpoly, hcount, hoverrides, hnodup⟩
      · exact ⟨⟨⟨⟨⟨⟨trivial, rfl⟩, rfl⟩, rfl⟩, rfl⟩, rfl⟩, rfl⟩
      · rintro ⟨_, _, _, _⟩ - ⟨⟨⟨⟨⟨⟨-, rfl⟩, rfl⟩, -⟩, rfl⟩, -⟩, rfl⟩
        rfl
    · rintro params ⟨-, -, rfl⟩
      simp
  · intro params _
    simp [EcParams.wire]

/-! ## What the parsers raise -/

theorem validateShards_ensures (k m : Nat) (label : String) :
    Ensures (fun _ => True) (liftM (validateShards k m label) : Parser Unit) := by
  apply Wire.Ensures.lift
  · exact fun _ _ => trivial
  · intro e h
    unfold validateShards at h
    split_ifs at h
    all_goals
      cases h
      exact Exn.isParseError_parse _

theorem parseEcOverride_ensures (index : Nat) (seen : List SlabKey) :
    Ensures (fun _ => True) (parseEcOverride index seen) := by
  apply Wire.Ensures.bind readU64Le_ensures
  intro ordinal hordinal
  apply Wire.Ensures.bind (read_ensures 32)
  intro hash hhash
  apply Wire.Ensures.bind (SlabId.make_ensures hordinal hhash)
  intro slabId _
  apply Wire.Ensures.bind readU8_ensures
  intro k _
  apply Wire.Ensures.bind readU8_ensures
  intro m _
  apply Wire.Ensures.bind (validateShards_ensures k m _)
  intro _ _
  apply Wire.Ensures.raiseIf (fun _ => Exn.isParseError_parse _)
  intro _
  exact Wire.Ensures.pure trivial

theorem parseEcParamsSection_ensures : Ensures EcParams.InRange parseEcParamsSection := by
  refine Wire.Ensures.valid (P := fun _ => True) ?_ parseEcParamsSection_decodes
  apply Wire.Ensures.bind readU8_ensures
  intro sectionVersion _
  apply Wire.Ensures.raiseIf (fun _ => Exn.isParseError_parse _)
  intro _
  apply Wire.Ensures.bind readU8_ensures
  intro k _
  apply Wire.Ensures.bind readU8_ensures
  intro m _
  apply Wire.Ensures.bind (validateShards_ensures k m _)
  intro _ _
  apply Wire.Ensures.bind readU16Le_ensures
  intro polynomial _
  apply Wire.Ensures.raiseIf (fun _ => Exn.isParseError_parse _)
  intro _
  apply Wire.Ensures.bind readU32Le_ensures
  intro overrideCount _
  apply Wire.Ensures.guard (fun _ => Exn.isParseError_parse _)
  apply Wire.Ensures.bind (Wire.Ensures.collect (P := fun _ => True)
    parseEcOverride_ensures overrideCount 0 [])
  intro overrides _
  exact Wire.Ensures.pure trivial

end LimniFs
