import LimniFs.Wire.Ensures
import LimniFs.Wire.Fits
import LimniFs.Wire.Reads
import LimniFs.Error

/-!
# Cursor — the reads every section parser is made of

The cursor of `limnifs/cursor.py` over the generic `Wire.Cursor`: bounded reads, and the
fixed-width little-endian numbers unpacked from them.  `struct.unpack` checks the width it is
given, so each unpacking is stated with its own failure.
-/

namespace LimniFs

open Wire

abbrev Cursor : Type :=
  Wire.Cursor UInt8

abbrev Parser (α : Type) : Type :=
  Wire.Parser UInt8 Exn α

/-- A parser of the reader decodes exactly the format `Valid`, `wire`. -/
abbrev Decodes {α : Type} (p : Parser α) (Valid : α → Prop) (wire : α → Bytes) : Prop :=
  Wire.Decodes Exn.IsTruncated p Valid wire

/-- A parser of the reader returns values with `Post` or raises a `ParseError`. -/
abbrev Ensures {α : Type} (Post : α → Prop) (p : Parser α) : Prop :=
  Wire.Ensures Exn.IsParseError Post p

/-- A parser of the reader consumes at most `n` bytes, and is not short of input where there are
`n`. -/
abbrev Fits {α : Type} (n : Nat) (p : Parser α) : Prop :=
  Wire.Fits Exn.IsTruncated n p

/-! ## Reads -/

/-- `cursor.read(n)` -/
def read (n : Nat) : Parser Bytes := fun c =>
  -- Counts come from unsigned fields, so the guard against negative ones has no counterpart here.
  if h : c.buf.length < c.pos + n then
    .error (.truncated c.remainingLen n)
  else
    .ok ((c.buf.take (c.pos + n)).drop c.pos,
      { buf := c.buf, pos := c.pos + n, inBounds := Nat.le_of_not_lt h })

/-- `unpack(fmt, raw)[0]` for an unsigned little-endian format of `width` bytes. -/
def unpackLe (width : Nat) (raw : Bytes) : Except Exn Nat :=
  if raw.length = width then .ok (ofLe raw) else .error .structError

/-- `raw[0]` -/
def firstByte (raw : Bytes) : Except Exn Nat :=
  match raw with
  | [] => .error .indexError
  | b :: _ => .ok b.toNat

def readU8 : Parser Nat := do
  let raw ← read 1
  firstByte raw

def readU16Le : Parser Nat := do
  let raw ← read 2
  unpackLe 2 raw

def readU32Le : Parser Nat := do
  let raw ← read 4
  unpackLe 4 raw

def readU64Le : Parser Nat := do
  let raw ← read 8
  unpackLe 8 raw

def readMagic : Parser Bytes :=
  read 4

/-- The `remaining_len` check made before a counted loop. -/
def requireRemaining (need : Nat) : Parser Unit :=
  checkRemaining need fun avail => .truncated avail need

/-- `raw.decode("utf-8")` -/
def decode (raw : Bytes) : Except Exn String :=
  match decodeUtf8 raw with
  | some s => .ok s
  | none => .error .unicodeDecodeError

/-- The decoding inside its `try`, whose handler raises `CorruptError` with the reason. -/
def decodeText (raw : Bytes) (reason : String) : Except Exn String :=
  match decode raw with
  | .error .unicodeDecodeError => .error (.corrupt reason)
  | result => result

/-- `if present: parse(cursor)` -/
def parseOptional {α : Type} (present : Bool) (p : Parser α) : Parser (Option α) :=
  if present then some <$> p else pure none

/-! ## What the reads decode -/

theorem read_decodes (n : Nat) : Decodes (read n) (fun bs => bs.length = n) (fun bs => bs) where
  sound {c a c'} h := by
    unfold read at h
    split at h
    · cases h
    · rename_i hlen
      obtain ⟨rfl, rfl⟩ : (c.buf.take (c.pos + n)).drop c.pos = a ∧ _ = c' := by
        simpa using h
      -- The slice `buf[pos:pos + n]` is the front of what remains.
      have hrem : (c.buf.take (c.pos + n)).drop c.pos = c.remaining.take n := by
        simp [Wire.Cursor.remaining, List.drop_take]
      refine ⟨?_, rfl, ?_⟩
      · simp only [List.length_drop, List.length_take]
        omega
      · rw [hrem]
        simp only [Wire.Cursor.remaining, ← List.drop_drop, List.take_append_drop]
  complete {c a c'} ha hc := by
    -- What is consumed ends within the buffer, so the bounds check passes.
    have hpos := hc.pos_eq
    have hbound := c'.inBounds
    rw [hc.1, hpos, ha] at hbound
    unfold read
    rw [dif_neg (Nat.not_lt.2 hbound)]
    have hval : (c.buf.take (c.pos + n)).drop c.pos = a := by
      calc
        (c.buf.take (c.pos + n)).drop c.pos
            = c.remaining.take n := by simp [Wire.Cursor.remaining, List.drop_take]
        _ = (a ++ c'.remaining).take a.length := by rw [hc.2, ha]
        _ = a := List.take_left
    have hcur : (⟨c.buf, c.pos + n, hbound⟩ : Cursor) = c' :=
      Wire.Cursor.ext hc.1.symm (by rw [hpos, ha])
    rw [hval, hcur]
  truncated {c a} ha hpre hne := by
    -- A proper prefix of `n` bytes has fewer, so the bounds check fires.
    have hlen : c.remaining.length < n := by
      rcases Nat.lt_or_ge c.remaining.length a.length with h | h
      · omega
      · exact absurd (hpre.eq_of_length_le h) hne
    have hb := c.inBounds
    have hshort : c.buf.length < c.pos + n := by
      rw [Wire.Cursor.length_remaining, Wire.Cursor.remainingLen] at hlen
      omega
    refine ⟨.truncated c.remainingLen n, Exn.isTruncated_truncated _ _, ?_⟩
    unfold read
    rw [dif_pos hshort]

/-- A read of `width` bytes unpacked as a number. -/
theorem unpack_decodes (width : Nat) :
    Decodes (read width >>= fun raw => liftM (unpackLe width raw)) (fun n => n < 256 ^ width)
      (fun n => toLe width n) := by
  refine Wire.Decodes.seq (fun n raw => raw = toLe width n) (fun _ _ => []) (read_decodes width)
    ?_ ?_ ?_
  · intro raw hraw
    refine Wire.Decodes.lift.congr ?_ (fun _ _ => rfl)
    intro n
    -- `read` returned `width` bytes, so `unpack` never sees another length.
    rw [unpackLe, if_pos hraw, Except.ok.injEq, ← eq_toLe_iff]
    simp [hraw]
  · intro n _
    exact ⟨toLe width n, rfl, length_toLe width n⟩
  · rintro n raw - rfl
    simp

theorem readU16Le_decodes : Decodes readU16Le (fun n => n < 2 ^ 16) (fun n => toLe 2 n) :=
  unpack_decodes 2

theorem readU32Le_decodes : Decodes readU32Le (fun n => n < 2 ^ 32) (fun n => toLe 4 n) :=
  unpack_decodes 4

theorem readU64Le_decodes : Decodes readU64Le (fun n => n < 2 ^ 64) (fun n => toLe 8 n) :=
  unpack_decodes 8

theorem readU8_decodes : Decodes readU8 (fun n => n < 2 ^ 8) (fun n => [UInt8.ofNat n]) := by
  refine Wire.Decodes.seq (fun n raw => raw = toLe 1 n) (fun _ _ => []) (read_decodes 1) ?_ ?_ ?_
  · intro raw hraw
    refine Wire.Decodes.lift.congr ?_ (fun _ _ => rfl)
    intro n
    rcases List.length_eq_one_iff.1 hraw with ⟨b, rfl⟩
    have hiff : [b].length = 1 ∧ ofLe [b] = n ↔ n < 256 ^ 1 ∧ [b] = toLe 1 n :=
      eq_toLe_iff
    simp only [ofLe, List.length_singleton, true_and, Nat.mul_zero, Nat.add_zero] at hiff
    simpa [firstByte] using hiff.symm
  · intro n _
    exact ⟨toLe 1 n, rfl, length_toLe 1 n⟩
  · rintro n raw - rfl
    simp [toLe_one]

/-- A byte that is there is read. -/
theorem readU8_cons {c : Cursor} {b : UInt8} {bs : Bytes} (h : c.remaining = b :: bs) :
    ∃ c', readU8 c = .ok (b.toNat, c') ∧ c'.remaining = bs := by
  have hb : b.toNat < 2 ^ 8 := b.toNat_lt
  exact readU8_decodes.run hb (by simpa using h)

/-- The handler leaves no `UnicodeDecodeError`. -/
theorem decodeText_eq (raw : Bytes) (reason : String) : decodeText raw reason =
    match decodeUtf8 raw with
    | some s => .ok s
    | none => .error (.corrupt reason) := by
  unfold decodeText decode
  cases decodeUtf8 raw <;> rfl

theorem decodeText_eq_ok_iff {raw : Bytes} {reason s : String} :
    decodeText raw reason = .ok s ↔ raw = encodeUtf8 s := by
  rw [decodeText_eq]
  -- Strict decoding is partial inverse to encoding: the bytes decode to `s` or to nothing.
  cases h : decodeUtf8 raw with
  | none =>
      constructor
      · intro h'
        cases h'
      · rintro rfl
        simp at h
  | some t =>
      rw [decodeUtf8_eq_some_iff] at h
      subst h
      constructor
      · intro h'
        cases h'
        rfl
      · intro h'
        rw [encodeUtf8_inj h']

/-! ## Counted lists -/

/-- A u32 count and that many elements. -/
theorem counted_decodes {α : Type} {p : Nat → Parser α} {Valid : α → Prop} {wire : α → Bytes}
    (hp : ∀ i, Decodes (p i) Valid wire) :
    Decodes (readU32Le >>= fun count => repeatIndexed p 0 count)
      (fun as => as.length < 2 ^ 32 ∧ ∀ a ∈ as, Valid a)
      (fun as => toLe 4 as.length ++ as.flatMap wire) := by
  refine Wire.Decodes.seq (fun as count => as.length = count) (fun _ as => as.flatMap wire)
    readU32Le_decodes ?_ ?_ ?_
  · intro count hcount
    refine (Wire.Decodes.repeatIndexed hp count 0).congr ?_ (fun _ _ => rfl)
    rintro as
    constructor
    · rintro ⟨⟨-, has⟩, hlen⟩
      exact ⟨hlen, has⟩
    · rintro ⟨rfl, has⟩
      exact ⟨⟨hcount, has⟩, rfl⟩
  · rintro as ⟨hlen, -⟩
    exact ⟨as.length, rfl, hlen⟩
  · rintro as count - rfl
    rfl

/-! ## Optional parts -/

def optionWire {α : Type} (wire : α → Bytes) : Option α → Bytes
  | some a => wire a
  | none => []

theorem parseOptional_decodes {α : Type} {p : Parser α} {Valid : α → Prop} {wire : α → Bytes}
    (hp : Decodes p Valid wire) (present : Bool) :
    Decodes (parseOptional present p) (fun o => o.isSome = present ∧ ∀ a ∈ o, Valid a)
      (optionWire wire) := by
  unfold parseOptional
  -- Absent: nothing is read, and `none` is the only value.  Present: the part is read.
  cases present with
  | false =>
      rw [if_neg (by simp)]
      refine (Wire.Decodes.pure_iff (a := none) fun o => Iff.rfl).congr ?_ ?_
      · intro o
        cases o <;> simp
      · rintro o ⟨hnone, -⟩
        cases o with
        | none =>
            rfl
        | some a =>
            simp at hnone
  | true =>
      rw [if_pos rfl]
      refine hp.map (fun _ _ h => Option.some.inj h) ?_ (fun a _ => rfl)
      intro o
      cases o <;> simp

/-! ## What the reads raise -/

section Raises

variable {E : Exn → Prop} (hE : ∀ avail need, E (.truncated avail need))

include hE

/-- A read raises `TruncatedError` alone, so it raises nothing outside a class that has it. -/
theorem read_ensures_of (n : Nat) : Wire.Ensures E (fun bs => bs.length = n) (read n) where
  returns h := ((read_decodes n).sound h).1
  raises {c e} h := by
    unfold read at h
    split at h
    · cases h
      exact hE _ _
    · cases h

theorem unpack_ensures_of (width : Nat) :
    Wire.Ensures E (fun n => n < 256 ^ width)
      (read width >>= fun raw => liftM (unpackLe width raw)) := by
  apply Wire.Ensures.bind (read_ensures_of hE width)
  intro raw hraw
  apply Wire.Ensures.lift
  · intro n h
    rw [unpackLe, if_pos hraw] at h
    cases h
    exact hraw ▸ ofLe_lt raw
  · intro e h
    rw [unpackLe, if_pos hraw] at h
    cases h

theorem readU32Le_ensures_of : Wire.Ensures E (fun n => n < 2 ^ 32) readU32Le :=
  unpack_ensures_of hE 4

theorem readU8_ensures_of : Wire.Ensures E (fun n => n < 2 ^ 8) readU8 := by
  apply Wire.Ensures.bind (read_ensures_of hE 1)
  intro raw hraw
  rcases List.length_eq_one_iff.1 hraw with ⟨b, rfl⟩
  exact Wire.Ensures.pure b.toNat_lt

end Raises

theorem read_ensures (n : Nat) : Ensures (fun bs => bs.length = n) (read n) :=
  read_ensures_of (fun _ _ => Exn.isParseError_parse _) n

theorem unpack_ensures (width : Nat) :
    Ensures (fun n => n < 256 ^ width) (read width >>= fun raw => liftM (unpackLe width raw)) :=
  unpack_ensures_of (fun _ _ => Exn.isParseError_parse _) width

theorem readU16Le_ensures : Ensures (fun n => n < 2 ^ 16) readU16Le :=
  unpack_ensures 2

theorem readU32Le_ensures : Ensures (fun n => n < 2 ^ 32) readU32Le :=
  unpack_ensures 4

theorem readU64Le_ensures : Ensures (fun n => n < 2 ^ 64) readU64Le :=
  unpack_ensures 8

theorem readU8_ensures : Ensures (fun n => n < 2 ^ 8) readU8 :=
  readU8_ensures_of fun _ _ => Exn.isParseError_parse _

theorem decodeText_ensures (raw : Bytes) (reason : String) :
    Ensures (fun s => raw = encodeUtf8 s) (liftM (decodeText raw reason) : Parser String) := by
  apply Wire.Ensures.lift
  · exact fun s h => decodeText_eq_ok_iff.1 h
  · intro e h
    rw [decodeText_eq] at h
    split at h
    · cases h
    · cases h
      exact Exn.isParseError_parse _

theorem parseOptional_ensures {α : Type} {P : α → Prop} {p : Parser α} (hp : Ensures P p)
    (present : Bool) : Ensures (fun _ => True) (parseOptional present p) := by
  unfold parseOptional
  split
  · rw [map_eq_pure_bind]
    apply Wire.Ensures.bind hp
    intro a _
    exact Wire.Ensures.pure trivial
  · exact Wire.Ensures.pure trivial

/-! ## What the reads fit in -/

theorem read_fits (n : Nat) : Fits n (read n) where
  leaves {c bs c'} h := by
    rcases (read_decodes n).sound h with ⟨hlen, hc⟩
    have hrem := congrArg List.length hc.2
    simp only [Wire.Cursor.length_remaining, List.length_append] at hrem
    omega
  raises {c e} hn h := by
    unfold read at h
    split at h
    -- The only error of `read` is that fewer than `n` bytes are left.
    · rename_i hshort
      have hb := c.inBounds
      rw [Wire.Cursor.remainingLen] at hn
      omega
    · cases h

theorem unpack_fits (width : Nat) :
    Fits width (read width >>= fun raw => liftM (unpackLe width raw)) := by
  apply (read_fits width).bind_lift
  intro raw e h
  unfold unpackLe at h
  split at h
  · cases h
  · cases h
    exact Exn.not_isTruncated_structError

theorem readU32Le_fits : Fits 4 readU32Le :=
  unpack_fits 4

theorem readU8_fits : Fits 1 readU8 := by
  apply (read_fits 1).bind_lift
  intro raw e h
  unfold firstByte at h
  split at h
  · cases h
    exact Exn.not_isTruncated_indexError
  · cases h

end LimniFs
