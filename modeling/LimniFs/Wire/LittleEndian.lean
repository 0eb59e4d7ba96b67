import Mathlib.Algebra.Group.Nat.Defs
import Mathlib.Data.List.Basic

/-!
# LittleEndian — numbers and text as byte strings

Byte strings, the little-endian encoding of a number in a fixed number of bytes, and strict UTF-8.
Both encodings are stated as exact inverses: a number below `256 ^ w` and a byte string of length
`w` determine each other, and so do a text and its valid UTF-8 encoding.
-/

namespace Wire

abbrev Bytes : Type :=
  List UInt8

/-! ## Little-endian numbers -/

/-- The `w` low bytes of `n`, least significant first. -/
def toLe : Nat → Nat → Bytes
  | 0, _ => []
  | w + 1, n => UInt8.ofNat n :: toLe w (n / 256)

def ofLe : Bytes → Nat
  | [] => 0
  | b :: bs => b.toNat + 256 * ofLe bs

@[simp]
theorem length_toLe (w n : Nat) : (toLe w n).length = w := by
  induction w generalizing n with
  | zero =>
      rfl
  | succ w ih =>
      simp [toLe, ih]

theorem ofLe_lt (bs : Bytes) : ofLe bs < 256 ^ bs.length := by
  induction bs with
  | nil =>
      simp [ofLe]
  | cons b bs ih =>
      have hb : b.toNat < 256 := b.toNat_lt
      simp only [ofLe, List.length_cons, Nat.pow_succ]
      omega

theorem ofLe_toLe {w n : Nat} (h : n < 256 ^ w) : ofLe (toLe w n) = n := by
  induction w generalizing n with
  | zero =>
      have hn : n = 0 := by
        simpa using h
      simp [toLe, ofLe, hn]
  -- The low byte is the remainder and the other bytes are those of the quotient.
  | succ w ih =>
      have hdiv : n / 256 < 256 ^ w := by
        rw [Nat.pow_succ] at h
        exact Nat.div_lt_of_lt_mul (by omega)
      have hlow : (UInt8.ofNat n).toNat = n % 256 := by
        simp
      simp only [toLe, ofLe, ih hdiv, hlow]
      omega

theorem toLe_ofLe (bs : Bytes) : toLe bs.length (ofLe bs) = bs := by
  induction bs with
  | nil =>
      rfl
  -- Conversely the first byte is the remainder of the value, and the rest the quotient.
  | cons b bs ih =>
      have hb : b.toNat < 256 := b.toNat_lt
      have hhead : UInt8.ofNat (b.toNat + 256 * ofLe bs) = b := by
        apply UInt8.toNat_inj.1
        simp
      have htail : (b.toNat + 256 * ofLe bs) / 256 = ofLe bs := by
        omega
      simp only [List.length_cons, toLe, ofLe, hhead, htail, ih]

/-- The reading of the bytes `bs` as a number, from the number's side. -/
theorem eq_toLe_iff {w n : Nat} {bs : Bytes} :
    bs.length = w ∧ ofLe bs = n ↔ n < 256 ^ w ∧ bs = toLe w n := by
  constructor
  · rintro ⟨rfl, rfl⟩
    exact ⟨ofLe_lt bs, (toLe_ofLe bs).symm⟩
  · rintro ⟨hn, rfl⟩
    exact ⟨length_toLe w n, ofLe_toLe hn⟩

theorem toLe_one (n : Nat) : toLe 1 n = [UInt8.ofNat n] :=
  rfl

/-! ## UTF-8 text -/

/-- `s.encode("utf-8")` -/
def encodeUtf8 (s : String) : Bytes :=
  s.toUTF8.data.toList

/-- `bs.decode("utf-8")`, with `none` for a byte string that is not valid UTF-8. -/
def decodeUtf8 (bs : Bytes) : Option String :=
  String.fromUTF8? ⟨bs.toArray⟩

theorem decodeUtf8_eq_some_iff {bs : Bytes} {s : String} :
    decodeUtf8 bs = some s ↔ encodeUtf8 s = bs := by
  constructor
  · intro h
    -- `String.fromUTF8?` branches on validity, and the string it builds has these bytes.
    unfold decodeUtf8 String.fromUTF8? at h
    split at h
    · cases h
      simp [encodeUtf8, String.fromUTF8]
    · cases h
  · rintro rfl
    have hbytes : (⟨(encodeUtf8 s).toArray⟩ : ByteArray) = s.toByteArray := by
      simp [encodeUtf8]
    have hvalid : (⟨(encodeUtf8 s).toArray⟩ : ByteArray).IsValidUTF8 :=
      hbytes ▸ s.isValidUTF8
    unfold decodeUtf8 String.fromUTF8?
    rw [dif_pos hvalid]
    exact congrArg some (String.toByteArray_inj.1 hbytes)

@[simp]
theorem decodeUtf8_encodeUtf8 (s : String) : decodeUtf8 (encodeUtf8 s) = some s :=
  decodeUtf8_eq_some_iff.2 rfl

theorem encodeUtf8_inj {s t : String} (h : encodeUtf8 s = encodeUtf8 t) : s = t := by
  apply Option.some.inj
  calc
    some s = decodeUtf8 (encodeUtf8 s) := (decodeUtf8_encodeUtf8 s).symm
    _ = decodeUtf8 (encodeUtf8 t) := by rw [h]
    _ = some t := decodeUtf8_encodeUtf8 t

@[simp]
theorem encodeUtf8_eq_nil {s : String} : encodeUtf8 s = [] ↔ s = "" := by
  constructor
  · intro h
    exact encodeUtf8_inj (by rw [h]; rfl)
  · rintro rfl
    rfl

theorem encodeUtf8_eq_flatMap (s : String) :
    encodeUtf8 s = s.toList.flatMap String.utf8EncodeChar := by
  have hbytes : s.toByteArray = (s.toList.flatMap String.utf8EncodeChar).toByteArray :=
    String.utf8Encode_toList.symm
  have hdata := congrArg (fun bs : ByteArray => bs.data.toList) hbytes
  simpa [encodeUtf8] using hdata

theorem eq_ofNat_iff {b : UInt8} {n : Nat} (hn : n < 256) : b = UInt8.ofNat n ↔ b.toNat = n := by
  rw [← UInt8.toNat_inj, UInt8.toNat_ofNat_of_lt' hn]

/-- A byte below 128 in the encoding of a character is that character. -/
theorem mem_utf8EncodeChar_iff {b : UInt8} {c : Char} (hb : b.toNat < 128) :
    b ∈ String.utf8EncodeChar c ↔ c.toNat = b.toNat := by
  have hval : c.val.toNat = c.toNat := rfl
  unfold String.utf8EncodeChar
  dsimp only
  rw [hval]
  -- One branch for each length of the encoding: in the one-byte branch the byte is the character,
  -- and in the longer ones every byte is at least 128.
  split
  · rw [List.mem_singleton, eq_ofNat_iff (by omega)]
    exact eq_comm
  split
  · simp only [List.mem_cons, List.not_mem_nil, or_false]
    rw [eq_ofNat_iff (by omega), eq_ofNat_iff (by omega)]
    omega
  split
  · simp only [List.mem_cons, List.not_mem_nil, or_false]
    rw [eq_ofNat_iff (by omega), eq_ofNat_iff (by omega), eq_ofNat_iff (by omega)]
    omega
  · simp only [List.mem_cons, List.not_mem_nil, or_false]
    rw [eq_ofNat_iff (by omega), eq_ofNat_iff (by omega), eq_ofNat_iff (by omega),
      eq_ofNat_iff (by omega)]
    omega

theorem mem_encodeUtf8_iff {c : Char} {s : String} (hc : c.toNat < 128) :
    UInt8.ofNat c.toNat ∈ encodeUtf8 s ↔ c ∈ s.toList := by
  have hb : (UInt8.ofNat c.toNat).toNat = c.toNat :=
    UInt8.toNat_ofNat_of_lt' (Nat.lt_trans hc (by decide))
  -- A byte of the text is a byte of one of its characters.
  rw [encodeUtf8_eq_flatMap, List.mem_flatMap]
  constructor
  · rintro ⟨d, hd, hmem⟩
    rw [mem_utf8EncodeChar_iff (by omega), hb, Char.toNat_inj] at hmem
    exact hmem ▸ hd
  · intro hmem
    exact ⟨c, hmem, (mem_utf8EncodeChar_iff (by omega)).2 hb.symm⟩

end Wire
