import LimniFs.Cursor
import LimniFs.Wire.Base32Decode

/-!
# FormatTypes — `DropId`, `SlabId`, `ManifestRoot` and `Representation`

The value types carry the widths that their Python constructors check, so a wrong width cannot be
built; the constructors themselves, with the `ValueError` they raise, are the `make` functions.
-/

namespace LimniFs

open Wire

abbrev blake3Len : Nat := 32
abbrev ordinalLen : Nat := 8
abbrev slabIdLen : Nat := ordinalLen + blake3Len

/-- `b"LMFS"` -/
def manifestMagic : Bytes := [0x4C, 0x4D, 0x46, 0x53]

/-- `b"LIM1"` -/
def slabMagic : Bytes := [0x4C, 0x49, 0x4D, 0x31]

/-! ## Text form -/

/-- `_encode_base32_lower_nopad(data)`: `b32encode(data).decode("ascii").rstrip("=").lower()` -/
def encodeBase32LowerNopad (data : Bytes) : String :=
  String.ofList (((b32encode data).rdropWhile (· = '=')).map Char.toLower)

/-- `_decode_base32_lower_nopad(text)`; `binascii.Error` is a `ValueError`. -/
def decodeBase32LowerNopad [UnicodeCase] (text : String) : Except Exn Bytes :=
  -- The padding is computed from the length of the text before it is put in upper case.
  let pad := (8 - text.toList.length % 8) % 8
  (b32decode ((strUpper text).toList ++ List.replicate pad '=')).mapError .valueError

/-! ## Identifiers -/

structure DropId where
  bytes : Bytes
  length_bytes : bytes.length = blake3Len
  deriving DecidableEq

def DropId.make (bytes : Bytes) : Except Exn DropId :=
  if h : bytes.length = blake3Len then
    .ok ⟨bytes, h⟩
  else
    .error (.valueError s!"DropId must be {blake3Len} bytes, got {bytes.length}")

def DropId.fromBytes (raw : Bytes) : Except Exn DropId :=
  DropId.make raw

def DropId.parseText [UnicodeData] [UnicodeCase] (text : String) : Except Exn DropId :=
  if ['b', '3', ':'] <+: text.toList then do
    let decoded ← decodeBase32LowerNopad (String.ofList (text.toList.drop 3))
    if decoded.length ≠ blake3Len then
      .error (.valueError
        s!"DropId text decoded to {decoded.length} bytes, expected {blake3Len}")
    else
      DropId.make decoded
  else
    .error (.valueError s!"DropId text must start with 'b3:', got {reprStr text}")

def DropId.toText (dropId : DropId) : String :=
  "b3:" ++ encodeBase32LowerNopad dropId.bytes

structure ManifestRoot where
  bytes : Bytes
  length_bytes : bytes.length = blake3Len
  deriving DecidableEq

def ManifestRoot.make (bytes : Bytes) : Except Exn ManifestRoot :=
  if h : bytes.length = blake3Len then
    .ok ⟨bytes, h⟩
  else
    .error (.valueError s!"ManifestRoot must be {blake3Len} bytes, got {bytes.length}")

def ManifestRoot.toText (root : ManifestRoot) : String :=
  "b3:" ++ encodeBase32LowerNopad root.bytes

structure SlabId where
  ordinal : Nat
  hash : Bytes
  ordinal_lt : ordinal < 2 ^ 64
  length_hash : hash.length = blake3Len
  deriving DecidableEq

/-- `(slab_id.ordinal, slab_id.hash_)`: what sections remember of the slabs they have seen. -/
abbrev SlabKey : Type :=
  Nat × Bytes

instance SlabKey.decidableMem (key : SlabKey) (seen : List SlabKey) : Decidable (key ∈ seen) :=
  inferInstance

def SlabId.make (ordinal : Nat) (hash : Bytes) : Except Exn SlabId :=
  -- The ordinal is checked before the hash.
  if ho : ordinal < 2 ^ 64 then
    if hh : hash.length = blake3Len then
      .ok ⟨ordinal, hash, ho, hh⟩
    else
      .error (.valueError s!"SlabId hash must be {blake3Len} bytes, got {hash.length}")
  else
    .error (.valueError s!"SlabId ordinal out of u64 range: {ordinal}")

def SlabId.fromBytes (raw : Bytes) : Except Exn SlabId :=
  if raw.length = slabIdLen then do
    -- `unpack("<Q", raw[:8])`, whose argument has the right length here.
    let ordinal ← unpackLe 8 (raw.take ordinalLen)
    SlabId.make ordinal (raw.drop ordinalLen)
  else
    .error (.valueError s!"SlabId must be {slabIdLen} bytes, got {raw.length}")

def SlabId.toBytes (slabId : SlabId) : Bytes :=
  toLe 8 slabId.ordinal ++ slabId.hash

/-- Codec, AEAD and EC identifiers. -/
structure Representation where
  codec : Nat
  aead : Nat
  ec : Nat
  codec_lt : codec < 256
  aead_lt : aead < 256
  ec_lt : ec < 256
  deriving DecidableEq

def Representation.make (codec aead ec : Nat) : Except Exn Representation :=
  if hc : codec < 256 then
    if ha : aead < 256 then
      if he : ec < 256 then
        .ok ⟨codec, aead, ec, hc, ha, he⟩
      else
        .error (.valueError s!"Representation.ec out of u8 range: {ec}")
    else
      .error (.valueError s!"Representation.aead out of u8 range: {aead}")
  else
    .error (.valueError s!"Representation.codec out of u8 range: {codec}")

def Representation.fromBytes (raw : Bytes) : Except Exn Representation :=
  match raw with
  | [codec, aead, ec] => Representation.make codec.toNat aead.toNat ec.toNat
  | _ => .error (.valueError s!"Representation must be 3 bytes, got {raw.length}")

def Representation.toBytes (rep : Representation) : Bytes :=
  [UInt8.ofNat rep.codec, UInt8.ofNat rep.aead, UInt8.ofNat rep.ec]

/-! ## The constructors on the widths that the parsers give them -/

theorem DropId.make_eq_ok_iff {bytes : Bytes} {dropId : DropId} :
    DropId.make bytes = .ok dropId ↔ bytes = dropId.bytes := by
  unfold DropId.make
  constructor
  · intro h
    split at h
    · cases h
      rfl
    · cases h
  · rintro rfl
    simp [dropId.length_bytes]

theorem DropId.bytes_inj {a b : DropId} (h : a.bytes = b.bytes) : a = b := by
  cases a
  cases b
  simpa using h

theorem ManifestRoot.make_eq_ok_iff {bytes : Bytes} {root : ManifestRoot} :
    ManifestRoot.make bytes = .ok root ↔ bytes = root.bytes := by
  unfold ManifestRoot.make
  constructor
  · intro h
    split at h
    · cases h
      rfl
    · cases h
  · rintro rfl
    simp [root.length_bytes]

theorem SlabId.make_eq_ok_iff {ordinal : Nat} {hash : Bytes} {slabId : SlabId} :
    SlabId.make ordinal hash = .ok slabId ↔ ordinal = slabId.ordinal ∧ hash = slabId.hash := by
  unfold SlabId.make
  constructor
  · intro h
    split at h
    · split at h
      · cases h
        exact ⟨rfl, rfl⟩
      · cases h
    · cases h
  · rintro ⟨rfl, rfl⟩
    rw [dif_pos slabId.ordinal_lt, dif_pos slabId.length_hash]

theorem SlabId.ext_iff' {a b : SlabId} : a = b ↔ a.ordinal = b.ordinal ∧ a.hash = b.hash := by
  cases a
  cases b
  simp

@[simp]
theorem SlabId.length_toBytes (slabId : SlabId) : slabId.toBytes.length = 40 := by
  have hhash : slabId.hash.length = 32 := slabId.length_hash
  simp [SlabId.toBytes, hhash]

theorem SlabId.fromBytes_eq_ok_iff {raw : Bytes} {slabId : SlabId} :
    SlabId.fromBytes raw = .ok slabId ↔ raw = slabId.toBytes := by
  unfold SlabId.fromBytes
  constructor
  · intro h
    split at h
    -- The checks passed: put the little-endian ordinal and the hash together again.
    · rename_i hlen
      have htake : (raw.take ordinalLen).length = 8 := by
        simp [hlen]
      rw [unpackLe, if_pos htake] at h
      rcases SlabId.make_eq_ok_iff.1 h with ⟨hord, hhash⟩
      have hback := toLe_ofLe (raw.take ordinalLen)
      rw [htake, hord] at hback
      calc
        raw = raw.take ordinalLen ++ raw.drop ordinalLen := (List.take_append_drop _ _).symm
        _ = toLe 8 slabId.ordinal ++ slabId.hash := by rw [hback, hhash]
    · cases h
  · rintro rfl
    -- Cutting the encoding at the ordinal's width gives the two fields back.
    have htake : slabId.toBytes.take ordinalLen = toLe 8 slabId.ordinal := by
      simp [SlabId.toBytes]
    have hdrop : slabId.toBytes.drop ordinalLen = slabId.hash := by
      simp [SlabId.toBytes]
    have hord : ofLe (toLe 8 slabId.ordinal) = slabId.ordinal :=
      ofLe_toLe slabId.ordinal_lt
    have hlen : slabId.toBytes.length = slabIdLen := slabId.length_toBytes
    rw [if_pos hlen, htake, hdrop, unpackLe, if_pos (length_toLe _ _), hord]
    exact SlabId.make_eq_ok_iff.2 ⟨rfl, rfl⟩

theorem Representation.make_eq_ok_iff {codec aead ec : Nat} {rep : Representation} :
    Representation.make codec aead ec = .ok rep ↔
      codec = rep.codec ∧ aead = rep.aead ∧ ec = rep.ec := by
  unfold Representation.make
  constructor
  · intro h
    split at h
    · split at h
      · split at h
        · cases h
          exact ⟨rfl, rfl, rfl⟩
        · cases h
      · cases h
    · cases h
  · rintro ⟨rfl, rfl, rfl⟩
    rw [dif_pos rep.codec_lt, dif_pos rep.aead_lt, dif_pos rep.ec_lt]

theorem Representation.fromBytes_eq_ok_iff {raw : Bytes} {rep : Representation} :
    Representation.fromBytes raw = .ok rep ↔ raw = rep.toBytes := by
  unfold Representation.fromBytes Representation.toBytes
  split
  · rename_i codec aead ec
    rw [Representation.make_eq_ok_iff]
    simp [eq_ofNat_iff rep.codec_lt, eq_ofNat_iff rep.aead_lt, eq_ofNat_iff rep.ec_lt]
  -- Not three bytes: the constructor fails, and the encoding of a value has three.
  · rename_i hne
    constructor
    · intro h
      cases h
    · rintro rfl
      exact absurd rfl (hne _ _ _)

/-! ## The constructors never fail on the widths that are read -/

section Constructors

variable {E : Exn → Prop}

theorem SlabId.make_ensures {ordinal : Nat} {hash : Bytes} (hordinal : ordinal < 2 ^ 64)
    (hhash : hash.length = 32) :
    Wire.Ensures E (fun _ => True) (liftM (SlabId.make ordinal hash) : Parser SlabId) := by
  rw [SlabId.make, dif_pos hordinal, dif_pos hhash]
  exact Wire.Ensures.pure trivial

theorem SlabId.fromBytes_ensures {raw : Bytes} (hraw : raw.length = slabIdLen) :
    Wire.Ensures E (fun _ => True) (liftM (SlabId.fromBytes raw) : Parser SlabId) := by
  have htake : (raw.take ordinalLen).length = 8 := by
    simp [hraw]
  have hord : ofLe (raw.take ordinalLen) < 2 ^ 64 := by
    have hlt := ofLe_lt (raw.take ordinalLen)
    rwa [htake] at hlt
  rw [SlabId.fromBytes, if_pos hraw, unpackLe, if_pos htake]
  exact SlabId.make_ensures hord (by simp [hraw])

theorem Representation.fromBytes_ensures {raw : Bytes} (hraw : raw.length = 3) :
    Wire.Ensures E (fun _ => True) (liftM (Representation.fromBytes raw) : Parser Representation) := by
  rcases List.length_eq_three.1 hraw with ⟨codec, aead, ec, rfl⟩
  rw [Representation.fromBytes, Representation.make, dif_pos codec.toNat_lt, dif_pos aead.toNat_lt,
    dif_pos ec.toNat_lt]
  exact Wire.Ensures.pure trivial

theorem DropId.fromBytes_ensures {raw : Bytes} (hraw : raw.length = 32) :
    Wire.Ensures E (fun _ => True) (liftM (DropId.fromBytes raw) : Parser DropId) := by
  rw [DropId.fromBytes, DropId.make, dif_pos hraw]
  exact Wire.Ensures.pure trivial

theorem ManifestRoot.make_ensures {bytes : Bytes} (hbytes : bytes.length = 32) :
    Wire.Ensures E (fun _ => True) (liftM (ManifestRoot.make bytes) : Parser ManifestRoot) := by
  rw [ManifestRoot.make, dif_pos hbytes]
  exact Wire.Ensures.pure trivial

end Constructors

/-! ## What they raise reports no missing input -/

theorem DropId.not_isTruncated_fromBytes {raw : Bytes} {e : Exn}
    (h : DropId.fromBytes raw = .error e) : ¬ e.IsTruncated := by
  unfold DropId.fromBytes DropId.make at h
  split at h
  · cases h
  · cases h
    exact Exn.not_isTruncated_valueError _

theorem Representation.not_isTruncated_fromBytes {raw : Bytes} {e : Exn}
    (h : Representation.fromBytes raw = .error e) : ¬ e.IsTruncated := by
  unfold Representation.fromBytes at h
  split at h
  -- Three bytes are always in range, so the u8 checks never fire here.
  · rename_i codec aead ec
    rw [Representation.make, dif_pos codec.toNat_lt, dif_pos aead.toNat_lt,
      dif_pos ec.toNat_lt] at h
    cases h
  · cases h
    exact Exn.not_isTruncated_valueError _

/-! ## Distinct identifiers print differently -/

private theorem b32Char_lower_inj : ∀ m < 32, ∀ n < 32,
    (b32Char m).toLower = (b32Char n).toLower → m = n := by
  decide

/-- Stripping the padding leaves the symbols. -/
theorem encodeBase32LowerNopad_eq (bs : Bytes) :
    encodeBase32LowerNopad bs =
      String.ofList ((b32Symbols bs).map fun n => (b32Char n).toLower) := by
  unfold encodeBase32LowerNopad b32encode
  rw [rdropWhile_pad (b32Symbols_lt bs), List.map_map]
  rfl

theorem encodeBase32LowerNopad_inj {a b : Bytes}
    (h : encodeBase32LowerNopad a = encodeBase32LowerNopad b) : a = b := by
  rw [encodeBase32LowerNopad_eq, encodeBase32LowerNopad_eq, String.ofList_inj] at h
  exact b32Symbols_inj
    (map_symbols_inj b32Char_lower_inj (b32Symbols_lt a) (b32Symbols_lt b) h)

/-- Byte strings have distinct text forms. -/
theorem text_inj {a b : Bytes}
    (h : "b3:" ++ encodeBase32LowerNopad a = "b3:" ++ encodeBase32LowerNopad b) : a = b := by
  have htext : encodeBase32LowerNopad a = encodeBase32LowerNopad b := by
    simpa using h
  exact encodeBase32LowerNopad_inj htext

theorem DropId.toText_inj {a b : DropId} (h : a.toText = b.toText) : a = b :=
  DropId.bytes_inj (text_inj h)

theorem ManifestRoot.toText_inj {a b : ManifestRoot} (h : a.toText = b.toText) : a = b := by
  have hbytes : a.bytes = b.bytes := text_inj h
  cases a
  cases b
  simpa using hbytes

end LimniFs
