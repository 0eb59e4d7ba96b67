import LimniFs.BlobRecords
import LimniFs.DeltaLinkage
import LimniFs.Manifest
import LimniFs.SlabReader

/-!
# Escapes — what leaves a reader

Callers of the readers catch `ParseError` and nothing else.  The guards of the value types and the
errors of indexing, unpacking and decoding are modelled as the other exceptions, and none of them is
reachable: every reader returns a value or raises a `ParseError`, and its cursor stays between the
front and the end of the buffer.

The cursor of the parsers carries its bounds.  The cursor of the source does not, so it is modelled
beside it, with a position that is any integer, and the two are shown to read alike.
-/

namespace LimniFs

open Wire

/-! ## The cursor of the source -/

/-- The slots of `Cursor`: nothing but the code keeps the position in the buffer. -/
@[ext]
structure RawCursor where
  buf : Bytes
  pos : Int

namespace RawCursor

/-- Where the index `i` of a slice stands in `len` bytes: negative ones count from the end. -/
def sliceIndex (len : Nat) (i : Int) : Nat :=
  (if i < 0 then i + len else i).toNat

/-- `buf[i:j]` -/
def slice (buf : Bytes) (i j : Int) : Bytes :=
  (buf.take (sliceIndex buf.length j)).drop (sliceIndex buf.length i)

/-- `Cursor(buf)` -/
def start (buf : Bytes) : RawCursor :=
  ⟨buf, 0⟩

def remainingLen (c : RawCursor) : Int :=
  c.buf.length - c.pos

/-- `cursor.read(n)`, with the cursor that it leaves behind also when it raises. -/
def read (c : RawCursor) (n : Int) : Except Exn Bytes × RawCursor :=
  if n < 0 then
    (.error (.corrupt s!"negative read of {n} bytes"), c)
  else if (c.buf.length : Int) < c.pos + n then
    (.error (.truncated c.remainingLen.toNat n.toNat), c)
  else
    (.ok (slice c.buf c.pos (c.pos + n)), { c with pos := c.pos + n })

/-- The cursor after reads of the given sizes, some of which may raise. -/
def run (c : RawCursor) : List Int → RawCursor
  | [] => c
  | n :: ns => run (c.read n).2 ns

def InBounds (c : RawCursor) : Prop :=
  0 ≤ c.pos ∧ c.pos ≤ c.buf.length

/-- A bounded cursor without its bounds. -/
def ofCursor (c : Cursor) : RawCursor :=
  ⟨c.buf, c.pos⟩

theorem ofCursor_inBounds (c : Cursor) : (ofCursor c).InBounds :=
  ⟨Int.natCast_nonneg _, Int.ofNat_le.2 c.inBounds⟩

/-- A read of the source does to its cursor what a read of the parsers does to theirs. -/
theorem read_ofCursor (c : Cursor) (n : Nat) :
    (ofCursor c).read n =
      match LimniFs.read n c with
      | .error e => (.error e, ofCursor c)
      | .ok (bs, c') => (.ok bs, ofCursor c') := by
  have hb := c.inBounds
  unfold read LimniFs.read
  rw [if_neg (by omega)]
  by_cases hlen : c.buf.length < c.pos + n
  · have hend : ((ofCursor c).buf.length : Int) < (ofCursor c).pos + n := by
      simp only [ofCursor]
      omega
    rw [if_pos hend, dif_pos hlen]
    simp [remainingLen, ofCursor, Wire.Cursor.remainingLen]
  · have hend : ¬ ((ofCursor c).buf.length : Int) < (ofCursor c).pos + n := by
      simp only [ofCursor]
      omega
    rw [if_neg hend, dif_neg hlen]
    -- Neither end of the slice is negative.
    have hfrom : sliceIndex c.buf.length c.pos = c.pos := by
      unfold sliceIndex
      rw [if_neg (by omega)]
      omega
    have hto : sliceIndex c.buf.length ((c.pos : Int) + n) = c.pos + n := by
      unfold sliceIndex
      rw [if_neg (by omega)]
      omega
    simp [ofCursor, slice, hfrom, hto]

/-- Whatever is asked of it, the cursor of the source remains a bounded one. -/
theorem read_bounded (c : Cursor) (n : Int) :
    ∃ c' : Cursor, ((ofCursor c).read n).2 = ofCursor c' ∧ c'.buf = c.buf := by
  rcases lt_or_ge n 0 with hneg | hpos
  · exact ⟨c, by rw [read, if_pos hneg], rfl⟩
  · rcases Int.eq_ofNat_of_zero_le hpos with ⟨n, rfl⟩
    rw [read_ofCursor]
    cases h : LimniFs.read n c with
    | error e =>
        exact ⟨c, rfl, rfl⟩
    | ok r =>
        have hok : LimniFs.read n c = .ok (r.1, r.2) := h
        exact ⟨r.2, rfl, ((read_decodes n).sound hok).2.1⟩

theorem run_bounded (ns : List Int) :
    ∀ c : Cursor, ∃ c' : Cursor, (ofCursor c).run ns = ofCursor c' ∧ c'.buf = c.buf := by
  induction ns with
  | nil =>
      intro c
      exact ⟨c, rfl, rfl⟩
  | cons n ns ih =>
      intro c
      rcases read_bounded c n with ⟨c₁, hread, hbuf₁⟩
      rcases ih c₁ with ⟨c₂, hrun, hbuf₂⟩
      exact ⟨c₂, by rw [run, hread, hrun], hbuf₂.trans hbuf₁⟩

/-- From the front of a buffer no reads leave it. -/
theorem run_start_inBounds (buf : Bytes) (ns : List Int) : ((start buf).run ns).InBounds := by
  rcases run_bounded ns (.start buf) with ⟨c, hrun, -⟩
  have hstart : start buf = ofCursor (.start buf) := rfl
  rw [hstart, hrun]
  exact ofCursor_inBounds c

end RawCursor

/-! ## What a parser may do -/

/-- A parser raises nothing but `ParseError`, and moves its cursor forward in the same buffer. -/
structure Contained {α : Type} (p : Parser α) : Prop where
  raises : ∀ {c e}, p c = .error e → e.IsParseError
  stays : ∀ {c a c'}, p c = .ok (a, c') →
    c'.buf = c.buf ∧ c.pos ≤ c'.pos ∧ c'.pos ≤ c.buf.length

theorem Contained.of_local {α : Type} {P : α → Prop} {p : Parser α} (hp : Ensures P p)
    (hlocal : Local p) : Contained p where
  raises h := hp.raises h
  stays {c a c'} h := by
    rcases hlocal.consumes h with ⟨xs, hc, -⟩
    have hpos := hc.pos_eq
    have hb := c'.inBounds
    rw [hc.1] at hb
    exact ⟨hc.1, by omega, hb⟩

theorem Contained.of_decodes {α : Type} {P Valid : α → Prop} {wire : α → Bytes} {p : Parser α}
    (hp : Ensures P p) (h : Decodes p Valid wire) : Contained p :=
  .of_local hp h.isLocal

section Readers

variable [Blake3] [UnicodeData]

/-- Only `ParseError` escapes the readers, and no cursor leaves its buffer. -/
theorem readers_contained :
    (∀ buf e, verifyBytes buf = .error e → e.IsParseError) ∧
      (∀ data e, parseSlab data = .error e → e.IsParseError) ∧
      Contained parseSections ∧
      (∀ maxInlineBytes, Contained (parseMetadataBlob maxInlineBytes)) ∧
      Contained parseDeltaLinkageSection ∧
      Contained parseEcParamsSection ∧
      (∀ maxShareDataBytes maxHintBytes,
        Contained (parseDmsPolicySection maxShareDataBytes maxHintBytes)) ∧
      Contained parseManifestHeader ∧
      Contained parseFeatureFlagsSection ∧
      (∀ maxLocatorUriBytes maxInlineMetadataBytes,
        Contained (parseMetadataReferenceSection maxLocatorUriBytes maxInlineMetadataBytes)) ∧
      (∀ maxLocatorUriBytes, Contained (parseSlabIndexSection maxLocatorUriBytes)) ∧
      (∀ maxParamsBytes, Contained (parseHistorySection maxParamsBytes)) ∧
      (∀ maxTotalLength, Contained (parseSlabHeader maxTotalLength)) ∧
      (∀ slab maxPlaintext, Contained (parseDropRecord slab maxPlaintext)) ∧
      ∀ buf requests, ((RawCursor.start buf).run requests).InBounds := by
  refine ⟨?_, ?_, ?_, ?_, ?_, ?_, ?_, ?_, ?_, ?_, ?_, ?_, ?_, ?_, ?_⟩
  · exact fun buf e h => verifyBytes_raises h
  · exact fun data e h => parseSlab_isParseError h
  · exact .of_decodes parseSections_ensures parseSections_decodes
  · exact fun _ => .of_local (parseMetadataBlob_ensures _) (parseMetadataBlob_isLocal _)
  · exact .of_decodes parseDeltaLinkageSection_ensures parseDeltaLinkageSection_decodes
  · exact .of_decodes parseEcParamsSection_ensures parseEcParamsSection_decodes
  · exact fun _ _ => .of_decodes (parseDmsPolicySection_ensures _ _)
      (parseDmsPolicySection_decodes _ _)
  · exact .of_decodes parseManifestHeader_ensures parseManifestHeader_decodes
  · exact .of_decodes parseFeatureFlagsSection_ensures parseFeatureFlagsSection_decodes
  · exact fun _ _ => .of_decodes (parseMetadataReferenceSection_ensures _ _)
      (parseMetadataReferenceSection_decodes _ _)
  · exact fun _ => .of_decodes (parseSlabIndexSection_ensures _) (parseSlabIndexSection_decodes _)
  · exact fun _ => .of_decodes (parseHistorySection_ensures _) (parseHistorySection_decodes _)
  · exact fun _ => .of_decodes (parseSlabHeader_ensures _) (parseSlabHeader_decodes _)
  · exact fun _ _ => .of_decodes (parseDropRecord_ensures (fun _ _ => Exn.isParseError_parse _)
      (fun _ => Exn.isParseError_parse _) _ _) (parseDropRecord_decodes _ _)
  · exact RawCursor.run_start_inBounds

end Readers

end LimniFs
