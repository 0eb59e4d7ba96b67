import LimniFs.FormatTypes

/-!
# DmsPolicy — the dead man's switch section

A Shamir `k`-of-`n` policy with one share per custodian and an optional hint.  The section is on
the wire when the feature flag `0x0002` is declared.
-/

namespace LimniFs

open Wire

def dmsPolicySectionVersion : Nat := 1
def dmsSchemeShamir : Nat := 0x00
def dmsSchemeExtended : Nat := 0xFF
def defaultShareDataMaxBytes : Nat := 1024
def defaultHintMaxBytes : Nat := 4 * 1024

structure ShareRecord where
  custodianId : String
  shareData : Bytes
  deriving DecidableEq

structure DmsPolicy where
  k : Nat
  n : Nat
  shares : List ShareRecord
  reconstructionHint : Option String
  deriving DecidableEq

/-- One round of the share loop; `seen` holds the custodians of the earlier shares. -/
def parseShareRecord [UnicodeData] (maxShareDataBytes maxHintBytes index : Nat)
    (seen : List String) : Parser (ShareRecord × List String) := do
  let cidLen ← readU32Le
  raiseIf (cidLen > maxHintBytes)
    (.corrupt s!"dms_policy custodian_id length {cidLen} exceeds ceiling {maxHintBytes}")
  let cidBytes ← read cidLen
  let cid ← decodeText cidBytes s!"dms_policy share {index}: custodian_id not UTF-8"
  raiseIf (cid = "") (.corrupt s!"dms_policy share {index}: empty custodian_id")
  raiseIf (cid ∈ seen)
    (.corrupt s!"dms_policy share {index}: duplicate custodian_id {reprStr cid}")
  let sdLen ← readU32Le
  raiseIf (sdLen = 0) (.corrupt s!"dms_policy share {index}: zero-length share_data")
  raiseIf (sdLen > maxShareDataBytes)
    (.corrupt (s!"dms_policy share {index}: share_data_len {sdLen} exceeds " ++
      s!"ceiling {maxShareDataBytes}"))
  let shareData ← read sdLen
  return ({ custodianId := cid, shareData }, cid :: seen)

/-- The reconstruction hint of a declared length, 0 for none. -/
def parseReconstructionHint (hintLen maxHintBytes : Nat) : Parser (Option String) :=
  if hintLen = 0 then
    pure none
  else do
    raiseIf (hintLen > maxHintBytes)
      (.corrupt (s!"dms_policy reconstruction_hint_len {hintLen} exceeds " ++
        s!"ceiling {maxHintBytes}"))
    let hintBytes ← read hintLen
    let hint ← decodeText hintBytes "dms_policy reconstruction_hint not UTF-8"
    return some hint

def parseDmsPolicySection [UnicodeData] (maxShareDataBytes maxHintBytes : Nat) :
    Parser DmsPolicy := do
  let sectionVersion ← readU8
  raiseIf (sectionVersion ≠ dmsPolicySectionVersion)
    (.unsupportedFeature (s!"dms_policy section version {sectionVersion} " ++
      s!"(supported: {dmsPolicySectionVersion})"))
  let scheme ← readU8
  -- The extended scheme has a message of its own, before any other unknown scheme.
  raiseIf (scheme = dmsSchemeExtended)
    (.unsupportedFeature "dms_policy scheme 0xFF (extended descriptor, post-v1)")
  raiseIf (scheme ≠ dmsSchemeShamir)
    (.unsupportedFeature (s!"dms_policy scheme 0x{formatHex 2 scheme} " ++
      s!"(supported: 0x{formatHex 2 dmsSchemeShamir} Shamir)"))
  let k ← readU8
  let n ← readU8
  raiseIf (k = 0) (.corrupt "dms_policy k must be >= 1, got 0")
  raiseIf (n = 0) (.corrupt "dms_policy n must be >= 1, got 0")
  raiseIf (k > n) (.corrupt s!"dms_policy k ({k}) must be <= n ({n})")
  let shareCount ← readU32Le
  raiseIf (shareCount ≠ n)
    (.corrupt s!"dms_policy share_count {shareCount} does not equal n ({n})")
  -- There is no size check here: a share has no fixed part to multiply the count with.
  let shares ← collect (parseShareRecord maxShareDataBytes maxHintBytes) 0 shareCount []
  let hintLen ← readU32Le
  let reconstructionHint ← parseReconstructionHint hintLen maxHintBytes
  return { k, n, shares, reconstructionHint }

/-! ## Wire format -/

namespace ShareRecord

structure InRange (maxShareDataBytes maxHintBytes : Nat) (share : ShareRecord) : Prop where
  custodianId_lt : (encodeUtf8 share.custodianId).length < 2 ^ 32
  custodianId_le : (encodeUtf8 share.custodianId).length ≤ maxHintBytes
  custodianId_ne : share.custodianId ≠ ""
  shareData_lt : share.shareData.length < 2 ^ 32
  shareData_ne : share.shareData.length ≠ 0
  shareData_le : share.shareData.length ≤ maxShareDataBytes

def wire (share : ShareRecord) : Bytes :=
  toLe 4 (encodeUtf8 share.custodianId).length ++ encodeUtf8 share.custodianId ++
    toLe 4 share.shareData.length ++ share.shareData

end ShareRecord

namespace DmsPolicy

/-- The bytes of an optional hint. -/
def hintBytes (hint : Option String) : Bytes :=
  encodeUtf8 (hint.getD "")

structure InRange (maxShareDataBytes maxHintBytes : Nat) (policy : DmsPolicy) : Prop where
  k_pos : policy.k ≠ 0
  k_le : policy.k ≤ policy.n
  n_lt : policy.n < 2 ^ 8
  length_eq : policy.shares.length = policy.n
  shares : ∀ share ∈ policy.shares, share.InRange maxShareDataBytes maxHintBytes
  nodup : (policy.shares.map ShareRecord.custodianId).Nodup
  hint_ne : ∀ hint ∈ policy.reconstructionHint, hint ≠ ""
  hint_lt : (hintBytes policy.reconstructionHint).length < 2 ^ 32
  hint_le : (hintBytes policy.reconstructionHint).length ≤ maxHintBytes

def wire (policy : DmsPolicy) : Bytes :=
  [UInt8.ofNat dmsPolicySectionVersion] ++ [UInt8.ofNat dmsSchemeShamir] ++
    [UInt8.ofNat policy.k] ++ [UInt8.ofNat policy.n] ++ toLe 4 policy.shares.length ++
    policy.shares.flatMap ShareRecord.wire ++
    toLe 4 (hintBytes policy.reconstructionHint).length ++ hintBytes policy.reconstructionHint

end DmsPolicy

theorem parseShareRecord_decodes [UnicodeData] (maxShareDataBytes maxHintBytes index : Nat)
    (seen : List String) :
    Decodes (parseShareRecord maxShareDataBytes maxHintBytes index seen)
      (fun r => (r.1.InRange maxShareDataBytes maxHintBytes ∧ r.1.custodianId ∉ seen) ∧
        r.2 = r.1.custodianId :: seen)
      (fun r => r.1.wire) := by
  apply Wire.Decodes.record
  · apply Wire.Decodes.field
      (fun r : ShareRecord × List String => (encodeUtf8 r.1.custodianId).length)
      readU32Le_decodes
    · exact fun r hr _ => hr.1.1.custodianId_lt
    intro cidLen hcid
    apply Wire.Decodes.check
    · rintro r hr ⟨-, rfl⟩
      exact Nat.not_lt.2 hr.1.1.custodianId_le
    intro hcidMax
    apply Wire.Decodes.field
      (fun r : ShareRecord × List String => encodeUtf8 r.1.custodianId) (read_decodes cidLen)
    · exact fun r _ hk => hk.2
    intro cidBytes hcidLen
    apply Wire.Decodes.field
      (fun r : ShareRecord × List String => r.1.custodianId) Wire.Decodes.lift
    · exact fun r _ hk => decodeText_eq_ok_iff.2 hk.2.symm
    intro cid hdecode
    -- The custodian is known as text now; its bytes and their length follow from it.
    rcases decodeText_eq_ok_iff.1 hdecode with rfl
    subst hcidLen
    apply Wire.Decodes.check
    · rintro r hr ⟨-, rfl⟩
      exact hr.1.1.custodianId_ne
    intro hne
    apply Wire.Decodes.check
    · rintro r hr ⟨-, rfl⟩
      exact hr.1.2
    intro hfresh
    apply Wire.Decodes.field
      (fun r : ShareRecord × List String => r.1.shareData.length) readU32Le_decodes
    · exact fun r hr _ => hr.1.1.shareData_lt
    intro sdLen hsd
    apply Wire.Decodes.check
    · rintro r hr ⟨-, rfl⟩
      exact hr.1.1.shareData_ne
    intro hsdNe
    apply Wire.Decodes.check
    · rintro r hr ⟨-, rfl⟩
      exact Nat.not_lt.2 hr.1.1.shareData_le
    intro hsdMax
    apply Wire.Decodes.field
      (fun r : ShareRecord × List String => r.1.shareData) (read_decodes sdLen)
    · exact fun r _ hk => hk.2
    rintro shareData rfl
    apply Wire.Decodes.done
    · exact ⟨⟨⟨hcid, Nat.not_lt.1 hcidMax, hne, hsd, hsdNe, Nat.not_lt.1 hsdMax⟩, hfresh⟩, rfl⟩
    · exact ⟨⟨⟨⟨⟨trivial, rfl⟩, rfl⟩, rfl⟩, rfl⟩, rfl⟩
    · rintro ⟨⟨_, _⟩, _⟩ ⟨-, hseen⟩ ⟨⟨⟨-, rfl⟩, -⟩, rfl⟩
      exact Prod.ext rfl hseen
  · intro r _
    simp [ShareRecord.wire]

theorem parseReconstructionHint_decodes (hintLen maxHintBytes : Nat) :
    Decodes (parseReconstructionHint hintLen maxHintBytes)
      (fun hint => (DmsPolicy.hintBytes hint).length = hintLen ∧ (∀ text ∈ hint, text ≠ "") ∧
        (DmsPolicy.hintBytes hint).length ≤ maxHintBytes)
      DmsPolicy.hintBytes := by
  unfold parseReconstructionHint
  -- A length of 0 stands for no hint, so a hint that is present is not empty.
  split
  · rename_i hzero
    have hnone : ∀ hint : Option String, ((DmsPolicy.hintBytes hint).length = hintLen ∧
        (∀ text ∈ hint, text ≠ "") ∧ (DmsPolicy.hintBytes hint).length ≤ maxHintBytes) ↔
          hint = none := by
      intro hint
      constructor
      · rintro ⟨hlen, hne, -⟩
        cases hint with
        | none =>
            rfl
        | some text =>
            have htext : encodeUtf8 text = [] :=
              List.length_eq_zero_iff.1 (hlen.trans hzero)
            exact absurd (encodeUtf8_eq_nil.1 htext) (hne text rfl)
      · rintro rfl
        have hempty : DmsPolicy.hintBytes none = [] := encodeUtf8_eq_nil.2 rfl
        simp [hempty, hzero]
    refine (Wire.Decodes.pure_iff hnone).congr (fun _ => Iff.rfl) ?_
    intro hint hhint
    rw [(hnone hint).1 hhint]
    exact encodeUtf8_eq_nil.2 rfl
  · rename_i hne
    apply Wire.Decodes.record
    · apply Wire.Decodes.check
      · rintro hint ⟨hlen, -, hmax⟩ -
        omega
      intro hmax
      apply Wire.Decodes.field DmsPolicy.hintBytes (read_decodes hintLen)
      · exact fun hint hhint _ => hhint.1
      intro hintBytes hlen
      apply Wire.Decodes.field (fun hint : Option String => hint.getD "") Wire.Decodes.lift
      · exact fun hint _ hk => decodeText_eq_ok_iff.2 hk.2.symm
      intro text htext
      rcases decodeText_eq_ok_iff.1 htext with rfl
      apply Wire.Decodes.done
      · refine ⟨hlen, ?_, ?_⟩
        · rintro _ ⟨⟩ rfl
          rw [encodeUtf8_eq_nil.2 rfl] at hlen
          exact hne hlen.symm
        · have hlen' : (DmsPolicy.hintBytes (some text)).length = hintLen := hlen
          omega
      · exact ⟨⟨trivial, rfl⟩, rfl⟩
      · rintro hint ⟨hlen, -⟩ ⟨-, rfl⟩
        cases hint with
        | none =>
            have hempty : DmsPolicy.hintBytes none = [] := encodeUtf8_eq_nil.2 rfl
            exact absurd (hlen.symm.trans (by simp)) hne
        | some text =>
            rfl
    · intro hint _
      simp

theorem parseDmsPolicySection_decodes [UnicodeData] (maxShareDataBytes maxHintBytes : Nat) :
    Decodes (parseDmsPolicySection maxShareDataBytes maxHintBytes)
      (DmsPolicy.InRange maxShareDataBytes maxHintBytes) DmsPolicy.wire := by
  apply Wire.Decodes.record
  · apply Wire.Decodes.expect dmsPolicySectionVersion readU8_decodes (by decide)
    -- The scheme is no field of the policy: it is read as a constant and checked twice.
    apply Wire.Decodes.field (fun _ => dmsSchemeShamir) readU8_decodes
    · exact fun _ _ _ => by decide
    intro scheme _
    apply Wire.Decodes.check
    · rintro policy - ⟨-, rfl⟩
      decide
    intro _
    apply Wire.Decodes.check
    · rintro policy - ⟨-, rfl⟩
      simp
    intro hscheme
    rcases not_not.1 hscheme with rfl
    apply Wire.Decodes.field DmsPolicy.k readU8_decodes
    · exact fun policy hpolicy _ => Nat.lt_of_le_of_lt hpolicy.k_le hpolicy.n_lt
    intro k _
    apply Wire.Decodes.field DmsPolicy.n readU8_decodes
    · exact fun policy hpolicy _ => hpolicy.n_lt
    intro n hn
    apply Wire.Decodes.check
    · rintro policy hpolicy ⟨⟨-, rfl⟩, -⟩
      exact hpolicy.k_pos
    intro hk
    apply Wire.Decodes.check
    -- The check on `n` follows from the ones on `k`; the parser makes it all the same.
    · rintro policy hpolicy ⟨⟨-, rfl⟩, rfl⟩ hzero
      have hle := hpolicy.k_le
      have hpos := hpolicy.k_pos
      omega
    intro _
    apply Wire.Decodes.check
    · rintro policy hpolicy ⟨⟨-, rfl⟩, rfl⟩
      exact Nat.not_lt.2 hpolicy.k_le
    intro hkn
    apply Wire.Decodes.field (fun policy : DmsPolicy => policy.shares.length) readU32Le_decodes
    -- The count repeats `n`, so it fits the wider field.
    · intro policy hpolicy _
      rw [hpolicy.length_eq]
      exact Nat.lt_trans hpolicy.n_lt (by decide)
    intro shareCount _
    apply Wire.Decodes.check
    · rintro policy hpolicy ⟨⟨-, rfl⟩, rfl⟩
      exact not_not.2 hpolicy.length_eq
    intro hcount
    rcases not_not.1 hcount with rfl
    apply Wire.Decodes.field DmsPolicy.shares (Wire.Decodes.collectFresh
      (ShareRecord.InRange maxShareDataBytes maxHintBytes) ShareRecord.custodianId
      ShareRecord.wire (parseShareRecord_decodes maxShareDataBytes maxHintBytes) shareCount)
    · rintro policy hpolicy ⟨-, hlen⟩
      exact ⟨hlen, hpolicy.shares, hpolicy.nodup⟩
    rintro shares ⟨rfl, hshares, hnodup⟩
    apply Wire.Decodes.field
      (fun policy : DmsPolicy => (DmsPolicy.hintBytes policy.reconstructionHint).length)
      readU32Le_decodes
    · exact fun policy hpolicy _ => hpolicy.hint_lt
    intro hintLen hhint
    apply Wire.Decodes.field DmsPolicy.reconstructionHint
      (parseReconstructionHint_decodes hintLen maxHintBytes)
    · exact fun policy hpolicy hk => ⟨hk.2, hpolicy.hint_ne, hpolicy.hint_le⟩
    rintro reconstructionHint ⟨rfl, hhintNe, hhintMax⟩
    apply Wire.Decodes.done
    · exact ⟨hk, Nat.not_lt.1 hkn, hn, rfl, hshares, hnodup, hhintNe, hhint, hhintMax⟩
    · exact ⟨⟨⟨⟨⟨⟨⟨trivial, rfl⟩, rfl⟩, rfl⟩, rfl⟩, rfl⟩, rfl⟩, rfl⟩
    · rintro ⟨k', n', shares', hint'⟩ - ⟨⟨⟨⟨⟨⟨-, hk'⟩, hn'⟩, -⟩, hs'⟩, -⟩, hh'⟩
      dsimp only at hk' hn' hs' hh'
      rw [hk', hn', hs', hh']
  · intro policy _
    simp [DmsPolicy.wire]

/-! ## What the parsers raise -/

theorem parseShareRecord_ensures [UnicodeData] (maxShareDataBytes maxHintBytes index : Nat)
    (seen : List String) :
    Ensures (fun _ => True) (parseShareRecord maxShareDataBytes maxHintBytes index seen) := by
  apply Wire.Ensures.bind readU32Le_ensures
  intro cidLen _
  apply Wire.Ensures.raiseIf (fun _ => Exn.isParseError_parse _)
  intro _
  apply Wire.Ensures.bind (read_ensures cidLen)
  intro cidBytes _
  apply Wire.Ensures.bind (decodeText_ensures cidBytes _)
  intro cid _
  apply Wire.Ensures.raiseIf (fun _ => Exn.isParseError_parse _)
  intro _
  apply Wire.Ensures.raiseIf (fun _ => Exn.isParseError_parse _)
  intro _
  apply Wire.Ensures.bind readU32Le_ensures
  intro sdLen _
  apply Wire.Ensures.raiseIf (fun _ => Exn.isParseError_parse _)
  intro _
  apply Wire.Ensures.raiseIf (fun _ => Exn.isParseError_parse _)
  intro _
  apply Wire.Ensures.bind (read_ensures sdLen)
  intro shareData _
  exact Wire.Ensures.pure trivial

theorem parseReconstructionHint_ensures (hintLen maxHintBytes : Nat) :
    Ensures (fun _ => True) (parseReconstructionHint hintLen maxHintBytes) := by
  unfold parseReconstructionHint
  split
  · exact Wire.Ensures.pure trivial
  · apply Wire.Ensures.raiseIf (fun _ => Exn.isParseError_parse _)
    intro _
    apply Wire.Ensures.bind (read_ensures hintLen)
    intro hintBytes _
    apply Wire.Ensures.bind (decodeText_ensures hintBytes _)
    intro hint _
    exact Wire.Ensures.pure trivial

theorem parseDmsPolicySection_ensures [UnicodeData] (maxShareDataBytes maxHintBytes : Nat) :
    Ensures (DmsPolicy.InRange maxShareDataBytes maxHintBytes)
      (parseDmsPolicySection maxShareDataBytes maxHintBytes) := by
  refine Wire.Ensures.valid (P := fun _ => True) ?_
    (parseDmsPolicySection_decodes maxShareDataBytes maxHintBytes)
  apply Wire.Ensures.bind readU8_ensures
  intro sectionVersion _
  apply Wire.Ensures.raiseIf (fun _ => Exn.isParseError_parse _)
  intro _
  apply Wire.Ensures.bind readU8_ensures
  intro scheme _
  apply Wire.Ensures.raiseIf (fun _ => Exn.isParseError_parse _)
  intro _
  apply Wire.Ensures.raiseIf (fun _ => Exn.isParseError_parse _)
  intro _
  apply Wire.Ensures.bind readU8_ensures
  intro k _
  apply Wire.Ensures.bind readU8_ensures
  intro n _
  apply Wire.Ensures.raiseIf (fun _ => Exn.isParseError_parse _)
  intro _
  apply Wire.Ensures.raiseIf (fun _ => Exn.isParseError_parse _)
  intro _
  apply Wire.Ensures.raiseIf (fun _ => Exn.isParseError_parse _)
  intro _
  apply Wire.Ensures.bind readU32Le_ensures
  intro shareCount _
  apply Wire.Ensures.raiseIf (fun _ => Exn.isParseError_parse _)
  intro _
  apply Wire.Ensures.bind (Wire.Ensures.collect (P := fun _ => True)
    (parseShareRecord_ensures maxShareDataBytes maxHintBytes) shareCount 0 [])
  intro shares _
  apply Wire.Ensures.bind readU32Le_ensures
  intro hintLen _
  apply Wire.Ensures.bind (parseReconstructionHint_ensures hintLen maxHintBytes)
  intro hint _
  exact Wire.Ensures.pure trivial

end LimniFs
