import LimniFs.SlabReader

/-!
# SlabWriter — slabs as the v0.1 writer lays them out

`_make_slab` of the slab tests, for either codec: one record after another in the order of the
drops, then their stored bytes in the same order.  `Laid` says, drop by drop, which records and
which solid window that gives.
-/

namespace LimniFs

open Wire

structure Drop where
  dropId : DropId
  codec : Nat
  plaintext : Bytes
  codec_known : codec = codecStore ∨ codec = codecLz4
  length_plaintext : plaintext.length ≤ defaultDropMaxPlaintextBytes

namespace Drop

theorem codec_lt (drop : Drop) : drop.codec < 256 := by
  rcases drop.codec_known with h | h
  · rw [h]
    decide
  · rw [h]
    decide

/-- The record of a drop whose `stored` bytes begin at the given offset of the window. -/
def record (drop : Drop) (offset stored : Nat) : DropRecord where
  dropId := drop.dropId
  plaintextLen := drop.plaintext.length
  representation := ⟨drop.codec, 0, 0, drop.codec_lt, by decide, by decide⟩
  solidWindowIndex := 0
  offsetInWindow := offset
  lenInWindow := stored

theorem wire_record (drop : Drop) (offset stored : Nat) :
    (drop.record offset stored).wire =
      drop.dropId.bytes ++ toLe 4 drop.plaintext.length ++ [UInt8.ofNat drop.codec, 0x00, 0x00] ++
        [0x00] ++ toLe 4 offset ++ toLe 4 stored :=
  rfl

end Drop

/-- `SlabId` of `_make_slab`: ordinal 0 and a hash of zeros. -/
def zeroSlabId : SlabId :=
  ⟨0, List.replicate blake3Len 0, by decide, by decide⟩

/-- The header of a plaintext slab without erasure coding. -/
def plainHeader (totalLength : Nat) : SlabHeader where
  formatVersion := slabFormatVersion
  slabId := zeroSlabId
  totalLength := totalLength
  ecDescriptor := 0x00
  cryptoHint := 0x00

theorem plainHeader_wire (totalLength : Nat) :
    (plainHeader totalLength).wire = slabMagic ++ toLe 2 slabFormatVersion ++
      (toLe 8 0 ++ List.replicate blake3Len 0) ++ toLe 8 totalLength ++ [0x00] ++ [0x00] :=
  rfl

theorem length_slab (content : Bytes) :
    ((plainHeader (slabHeaderLen + content.length)).wire ++ content).length =
      slabHeaderLen + content.length := by
  rw [List.length_append, SlabHeader.length_wire]

section Writer

variable [Lz4Block]

/-- The loop of `_make_slab` over its two buffers. -/
def appendDrops : List Drop → Bytes → Bytes → Except Exn (Bytes × Bytes)
  | [], dropRecords, solidWindow => .ok (dropRecords, solidWindow)
  | drop :: drops, dropRecords, solidWindow => do
      -- The offset is where the window ends before the stored bytes are appended.
      let stored ← compress drop.codec drop.plaintext
      let plaintextLen ← toBytesLe 4 drop.plaintext.length
      let offsetInWindow ← toBytesLe 4 solidWindow.length
      let lenInWindow ← toBytesLe 4 stored.length
      appendDrops drops
        (dropRecords ++ (drop.dropId.bytes ++ plaintextLen ++
          [UInt8.ofNat drop.codec, 0x00, 0x00] ++ [0x00] ++ offsetInWindow ++ lenInWindow))
        (solidWindow ++ stored)

def makeSlab (drops : List Drop) : Except Exn Bytes := do
  let (dropRecords, solidWindow) ← appendDrops drops [] []
  let slabContent := dropRecords ++ solidWindow
  let totalLength ← toBytesLe 8 (slabHeaderLen + slabContent.length)
  return slabMagic ++ toLe 2 slabFormatVersion ++ (toLe 8 0 ++ List.replicate blake3Len 0) ++
    totalLength ++ [0x00] ++ [0x00] ++ slabContent

/-! ## The layout -/

/-- The records and the window of the drops whose stored bytes begin at `offset`. -/
inductive Laid : Nat → List Drop → List DropRecord → Bytes → Prop
  | nil (offset : Nat) : Laid offset [] [] []
  | cons {offset : Nat} {drop : Drop} {stored : Bytes} {drops : List Drop}
      {records : List DropRecord} {window : Bytes}
      (hstored : compress drop.codec drop.plaintext = .ok stored)
      (hrest : Laid (offset + stored.length) drops records window) :
      Laid offset (drop :: drops) (drop.record offset stored.length :: records) (stored ++ window)

namespace Laid

variable {offset : Nat} {drops : List Drop} {records : List DropRecord} {window : Bytes}

theorem length_records (h : Laid offset drops records window) :
    records.length = drops.length := by
  induction h with
  | nil offset =>
      rfl
  | cons hstored hrest ih =>
      rw [List.length_cons, List.length_cons, ih]

theorem length_window (h : Laid offset drops records window) :
    window.length = storedLen records := by
  induction h with
  | nil offset =>
      rfl
  | cons hstored hrest ih =>
      rw [List.length_append, storedLen_cons, ih]
      rfl

theorem map_dropId (h : Laid offset drops records window) :
    records.map DropRecord.dropId = drops.map Drop.dropId := by
  induction h with
  | nil offset =>
      rfl
  | cons hstored hrest ih =>
      rw [List.map_cons, List.map_cons, ih]
      rfl

/-- The record of a drop is found under its id, and the window holds its stored bytes at the
offset of the record. -/
theorem find_of_mem (h : Laid offset drops records window)
    (hnodup : (drops.map Drop.dropId).Nodup) {drop : Drop} (hmem : drop ∈ drops) :
    ∃ before stored after, compress drop.codec drop.plaintext = .ok stored ∧
      window = before ++ (stored ++ after) ∧
      records.find? (fun record => record.dropId.bytes = drop.dropId.bytes) =
        some (drop.record (offset + before.length) stored.length) := by
  induction h with
  | nil offset =>
      simp at hmem
  | @cons offset head stored drops records window hstored hrest ih =>
      rw [List.map_cons, List.nodup_cons] at hnodup
      rcases List.mem_cons.1 hmem with rfl | htail
      -- The drop is the first: its record is found at once, at the front of the window.
      · refine ⟨[], stored, window, hstored, rfl, ?_⟩
        rw [List.find?_cons_of_pos (by simp [Drop.record])]
        rfl
      -- A later drop: the ids are distinct, so the first record is passed over.
      · rcases ih hnodup.2 htail with ⟨before, stored', after, hstored', rfl, hfind⟩
        have hne : head.dropId ≠ drop.dropId := by
          intro heq
          exact hnodup.1 (heq ▸ List.mem_map_of_mem htail)
        refine ⟨stored ++ before, stored', after, hstored', by rw [List.append_assoc], ?_⟩
        rw [List.find?_cons_of_neg, hfind, List.length_append, Nat.add_assoc]
        intro hfound
        exact hne (DropId.bytes_inj (of_decide_eq_true hfound))

end Laid

/-! ## What the writer writes -/

theorem appendDrops_eq_ok_iff {drops : List Drop} {dropRecords solidWindow : Bytes}
    {out : Bytes × Bytes} (slab : SlabHeader) :
    appendDrops drops dropRecords solidWindow = .ok out ↔
      ∃ records window, Laid solidWindow.length drops records window ∧
        (∀ record ∈ records, record.InRange slab defaultDropMaxPlaintextBytes) ∧
        out = (dropRecords ++ records.flatMap DropRecord.wire, solidWindow ++ window) := by
  -- The two buffers only grow, so the induction is for every content they may have.
  induction drops generalizing dropRecords solidWindow with
  | nil =>
      constructor
      · intro h
        cases h
        exact ⟨[], [], .nil _, by simp, by simp⟩
      · rintro ⟨records, window, h, -, rfl⟩
        cases h
        simp [appendDrops]
  | cons drop drops ih =>
      simp only [appendDrops, bind_eq_ok_iff, toBytesLe_eq_ok_iff]
      constructor
      -- A round that went through has a compressed drop and three numbers that fit.
      · rintro ⟨stored, hstored, _, ⟨hplain, rfl⟩, _, ⟨hoffset, rfl⟩, _, ⟨hlen, rfl⟩, hrest⟩
        rcases ih.1 hrest with ⟨records, window, hlaid, hrange, rfl⟩
        rw [List.length_append] at hlaid
        refine ⟨_, _, .cons hstored hlaid, List.forall_mem_cons.2 ⟨?_, hrange⟩, ?_⟩
        · exact ⟨hplain, drop.length_plaintext, fun _ => rfl, fun _ => rfl, Nat.two_pow_pos 8,
            hoffset, hlen⟩
        · simp [Drop.wire_record]
      · rintro ⟨records, window, h, hrange, rfl⟩
        cases h with
        | cons hstored hrest =>
            rcases List.forall_mem_cons.1 hrange with ⟨hrecord, hrange⟩
            refine ⟨_, hstored, _, ⟨hrecord.plaintextLen_lt, rfl⟩, _,
              ⟨hrecord.offsetInWindow_lt, rfl⟩, _, ⟨hrecord.lenInWindow_lt, rfl⟩, ?_⟩
            refine ih.2 ⟨_, _, by rwa [List.length_append], hrange, ?_⟩
            simp [Drop.wire_record]

/-- The slab is a header with its length, the records and the window. -/
theorem makeSlab_eq_ok_iff {drops : List Drop} {data : Bytes} (slab : SlabHeader) :
    makeSlab drops = .ok data ↔
      ∃ records window content, Laid 0 drops records window ∧
        (∀ record ∈ records, record.InRange slab defaultDropMaxPlaintextBytes) ∧
        content = records.flatMap DropRecord.wire ++ window ∧
        slabHeaderLen + content.length < 2 ^ 64 ∧
        data = (plainHeader (slabHeaderLen + content.length)).wire ++ content := by
  simp only [makeSlab, bind_eq_ok_iff, toBytesLe_eq_ok_iff]
  constructor
  · rintro ⟨out, happ, _, ⟨htotal, rfl⟩, hdata⟩
    rcases (appendDrops_eq_ok_iff slab).1 happ with ⟨records, window, hlaid, hrange, rfl⟩
    rcases Except.ok.inj hdata with ⟨rfl⟩
    exact ⟨records, window, _, hlaid, hrange, rfl, htotal, by rw [plainHeader_wire]; rfl⟩
  · rintro ⟨records, window, content, hlaid, hrange, rfl, htotal, rfl⟩
    refine ⟨(records.flatMap DropRecord.wire, window), ?_, _, ⟨htotal, rfl⟩, ?_⟩
    · exact (appendDrops_eq_ok_iff slab).2 ⟨records, window, hlaid, hrange, rfl⟩
    · rw [plainHeader_wire]
      rfl

/-- The reader's view of a slab that the writer wrote. -/
theorem makeSlab_describes {drops : List Drop} {data : Bytes} (h : makeSlab drops = .ok data)
    (hlen : data.length ≤ defaultSlabMaxBytes) :
    ∃ records window, Laid 0 drops records window ∧
      SlabView.Describes ⟨data, plainHeader data.length, records,
        slabHeaderLen + dropRecordLen * drops.length⟩ data window := by
  rcases (makeSlab_eq_ok_iff (plainHeader data.length)).1 h with
    ⟨records, window, content, hlaid, hrange, hcontent, -, hdata⟩
  -- The header carries the length of the slab it is part of.
  have hlength : data.length = slabHeaderLen + content.length := by
    rw [hdata, length_slab]
  refine ⟨records, window, hlaid, ?_, rfl, hrange, ?_, hlaid.length_window, rfl, ?_⟩
  · refine ⟨rfl, ?_, ?_, hlen, Nat.two_pow_pos 8, Nat.zero_ne_add_one _,
      Nat.two_pow_pos 8, Nat.zero_ne_add_one _⟩
    · exact Nat.lt_of_le_of_lt hlen (by decide)
    · exact hlength ▸ Nat.le_add_right _ _
  · dsimp only
    rw [hlength, ← hcontent]
    exact hdata
  · rw [hlaid.length_records]

end Writer

end LimniFs
