import LimniFs.SlabReader
import LimniFs.Wire.Chunks

/-!
# SlabBoundary — the boundary between records and solid window

The parser finds out where the records stop from a running sum.  Here its outcome is compared with
a description that has no loop: cut what lies behind the header into chunks of 48 bytes, and ask
for a number of chunks that are records and whose stored lengths account for all the rest.
-/

namespace LimniFs

open Wire

/-- The parser `p` accepts the front of `bs` and returns `a`. -/
def Accepts {α : Type} (p : Parser α) (bs : Bytes) (a : α) : Prop :=
  ∃ c, p (.start bs) = .ok (a, c)

/-- The `i`-th 48-byte chunk behind the header. -/
def recordChunk (data : Bytes) (i : Nat) : Bytes :=
  chunk dropRecordLen (data.drop slabHeaderLen) i

/-- The first 56 bytes are a header that gives the length of the slab, the next `n` chunks are
records, and their stored lengths add up to what is left. -/
structure SelfConsistent (data : Bytes) (header : SlabHeader) (n : Nat)
    (records : List DropRecord) : Prop where
  slabHeader : Accepts (parseSlabHeader defaultSlabMaxBytes) (data.take slabHeaderLen) header
  totalLength : header.totalLength = data.length
  length_records : records.length = n
  dropRecords : ∀ i (h : i < records.length),
    Accepts (parseDropRecord header defaultDropMaxPlaintextBytes) (recordChunk data i) records[i]
  boundary : slabHeaderLen + dropRecordLen * n + storedLen records = data.length

/-- A parser of an encoding with a fixed width accepts no less than that many bytes. -/
theorem accepts_take_iff {α : Type} {p : Parser α} {Valid : α → Prop} {wire : α → Bytes}
    (hp : Decodes p Valid wire) {width : Nat} (hwire : ∀ a, (wire a).length = width) {bs : Bytes}
    {a : α} : Accepts p (bs.take width) a ↔ Valid a ∧ bs.take width = wire a := by
  rw [Accepts, hp.accepts_start_iff]
  constructor
  · rintro ⟨ha, hpre⟩
    -- The chunk is no longer than the encoding it begins with.
    refine ⟨ha, (hpre.eq_of_length_le ?_).symm⟩
    rw [hwire, List.length_take]
    exact Nat.min_le_left _ _
  · rintro ⟨ha, heq⟩
    exact ⟨ha, heq ▸ List.prefix_refl _⟩

theorem accepts_slabHeader_iff {data : Bytes} {header : SlabHeader} :
    Accepts (parseSlabHeader defaultSlabMaxBytes) (data.take slabHeaderLen) header ↔
      header.InRange defaultSlabMaxBytes ∧ data.take slabHeaderLen = header.wire :=
  accepts_take_iff (parseSlabHeader_decodes _) SlabHeader.length_wire

theorem accepts_recordChunk_iff {data : Bytes} {header : SlabHeader} {record : DropRecord}
    {i : Nat} :
    Accepts (parseDropRecord header defaultDropMaxPlaintextBytes) (recordChunk data i) record ↔
      record.InRange header defaultDropMaxPlaintextBytes ∧ recordChunk data i = record.wire :=
  accepts_take_iff (parseDropRecord_decodes _ _) DropRecord.length_wire

/-- The slabs with a boundary are those with a view. -/
theorem selfConsistent_iff_describes {data : Bytes} {header : SlabHeader} {n : Nat}
    {records : List DropRecord} :
    SelfConsistent data header n records ↔ records.length = n ∧
      ∃ window, SlabView.Describes ⟨data, header, records, slabHeaderLen + dropRecordLen * n⟩
        data window := by
  constructor
  · intro h
    rcases accepts_slabHeader_iff.1 h.slabHeader with ⟨hheader, htake⟩
    have hrecord := fun i hi => accepts_recordChunk_iff.1 (h.dropRecords i hi)
    -- Chunk by chunk the records are encoded, so they lie one after another behind the header.
    have hpre : records.flatMap DropRecord.wire <+: data.drop slabHeaderLen :=
      (flatMap_isPrefix_iff DropRecord.length_wire).2 fun i hi => (hrecord i hi).2
    rcases hpre with ⟨window, hwindow⟩
    have hdata : data = header.wire ++ (records.flatMap DropRecord.wire ++ window) := by
      calc
        data = data.take slabHeaderLen ++ data.drop slabHeaderLen :=
          (List.take_append_drop _ _).symm
        _ = header.wire ++ (records.flatMap DropRecord.wire ++ window) := by
          rw [htake, hwindow]
    refine ⟨h.length_records, window, hheader, h.totalLength, ?_, hdata, ?_, rfl, ?_⟩
    · intro record hmem
      rcases List.getElem_of_mem hmem with ⟨i, hi, rfl⟩
      exact (hrecord i hi).1
    -- The boundary equation leaves for the window what the records store.
    · have hlen := congrArg List.length hdata
      rw [List.length_append, List.length_append, SlabHeader.length_wire,
        DropRecord.length_flatMap_wire, ← h.boundary, h.length_records] at hlen
      dsimp only
      omega
    · dsimp only
      rw [h.length_records]
  · rintro ⟨hn, window, h⟩
    have hdata := h.wire
    dsimp only at hdata
    -- Conversely the encodings at the front are what the chunks are cut from.
    have hsplit : header.wire ++ (records.flatMap DropRecord.wire ++ window) <+: data :=
      hdata ▸ List.prefix_refl _
    rw [append_isPrefix_iff header.length_wire] at hsplit
    have hpre := (List.prefix_append (records.flatMap DropRecord.wire) window).trans hsplit.2
    have hchunks := (flatMap_isPrefix_iff DropRecord.length_wire).1 hpre
    refine ⟨accepts_slabHeader_iff.2 ⟨h.header, hsplit.1⟩, h.totalLength, hn, ?_, ?_⟩
    · intro i hi
      exact accepts_recordChunk_iff.2 ⟨h.dropRecords _ (List.getElem_mem hi), hchunks i hi⟩
    · have hlen := congrArg List.length hdata
      rw [List.length_append, List.length_append, SlabHeader.length_wire,
        DropRecord.length_flatMap_wire, h.length_window, hn] at hlen
      dsimp only at hlen
      omega

theorem parseSlab_eq_ok_iff_selfConsistent {data : Bytes} {view : SlabView} :
    parseSlab data = .ok view ↔ ∃ n, SelfConsistent data view.header n view.dropRecords ∧
      view.bytes = data ∧ view.solidWindowStart = slabHeaderLen + dropRecordLen * n := by
  rw [parseSlab_eq_ok_iff]
  constructor
  · rintro ⟨window, h⟩
    refine ⟨view.dropRecords.length, selfConsistent_iff_describes.2 ⟨rfl, window, ?_⟩, h.bytes,
      h.solidWindowStart⟩
    rw [← h.solidWindowStart]
    exact { h with bytes := rfl }
  · rintro ⟨n, h, rfl, hstart⟩
    rcases selfConsistent_iff_describes.1 h with ⟨-, window, hd⟩
    rw [← hstart] at hd
    exact ⟨window, hd⟩

theorem SelfConsistent.parseSlab_eq {data : Bytes} {header : SlabHeader} {n : Nat}
    {records : List DropRecord} (h : SelfConsistent data header n records) :
    parseSlab data = .ok ⟨data, header, records, slabHeaderLen + dropRecordLen * n⟩ :=
  parseSlab_eq_ok_iff_selfConsistent.2 ⟨n, h, rfl, rfl⟩

/-- The header, the boundary and the records are unique. -/
theorem SelfConsistent.unique {data : Bytes} {header header' : SlabHeader} {n n' : Nat}
    {records records' : List DropRecord} (h : SelfConsistent data header n records)
    (h' : SelfConsistent data header' n' records') :
    header = header' ∧ n = n' ∧ records = records' := by
  -- The parser is a function, and it returns each of the two.
  have hview := h.parseSlab_eq
  rw [h'.parseSlab_eq, Except.ok.injEq, SlabView.mk.injEq] at hview
  rcases hview with ⟨-, rfl, rfl, -⟩
  exact ⟨rfl, h.length_records.symm.trans h'.length_records, rfl⟩

/-- What lies behind the boundary is as long as the stored lengths together. -/
theorem SelfConsistent.length_window {data : Bytes} {header : SlabHeader} {n : Nat}
    {records : List DropRecord} (h : SelfConsistent data header n records) :
    (data.drop (slabHeaderLen + dropRecordLen * n)).length = storedLen records := by
  calc
    (data.drop (slabHeaderLen + dropRecordLen * n)).length
        = data.length - (slabHeaderLen + dropRecordLen * n) := List.length_drop
    _ = storedLen records := by rw [← h.boundary, Nat.add_sub_cancel_left]

/-! ## Accepted exactly when self-consistent -/

/-- `parse_slab` accepts the self-consistent slabs and no other input; the boundary it finds is
the only one, and every rejection is a `ParseError`, past the header never one for missing
input. -/
theorem parseSlab_selfConsistent (data : Bytes) :
    ((∃ view, parseSlab data = .ok view) ↔
      ∃ header n records, SelfConsistent data header n records) ∧
    (∀ header header' n n' records records', SelfConsistent data header n records →
      SelfConsistent data header' n' records' →
      header = header' ∧ n = n' ∧ records = records') ∧
    (∀ view, parseSlab data = .ok view →
      ∃ n, SelfConsistent data view.header n view.dropRecords ∧ view.bytes = data ∧
        view.dropRecords.length = n ∧
        view.solidWindowStart = slabHeaderLen + dropRecordLen * n ∧
        (data.drop view.solidWindowStart).length = storedLen view.dropRecords) ∧
    ((¬ ∃ header n records, SelfConsistent data header n records) →
      ∃ pe, parseSlab data = .error (.parse pe)) ∧
    (∀ header c, parseSlabHeader defaultSlabMaxBytes (.start data) = .ok (header, c) →
      ∀ avail need, parseSlab data ≠ .error (.truncated avail need)) := by
  have haccepts : (∃ view, parseSlab data = .ok view) ↔
      ∃ header n records, SelfConsistent data header n records := by
    constructor
    · rintro ⟨view, h⟩
      rcases parseSlab_eq_ok_iff_selfConsistent.1 h with ⟨n, hself, -, -⟩
      exact ⟨view.header, n, view.dropRecords, hself⟩
    · rintro ⟨header, n, records, h⟩
      exact ⟨_, h.parseSlab_eq⟩
  refine ⟨haccepts, fun _ _ _ _ _ _ h h' => h.unique h', ?_, ?_, ?_⟩
  · intro view h
    rcases parseSlab_eq_ok_iff_selfConsistent.1 h with ⟨n, hself, hbytes, hstart⟩
    refine ⟨n, hself, hbytes, hself.length_records, hstart, ?_⟩
    rw [hstart]
    exact hself.length_window
  · intro hnone
    cases h : parseSlab data with
    | ok view =>
        exact absurd (haccepts.1 ⟨view, h⟩) hnone
    | error e =>
        rcases parseSlab_isParseError h with ⟨pe, rfl⟩
        exact ⟨pe, rfl⟩
  -- The header was read, so the error is one of the length check or of the loop.
  · intro header c hh avail need h
    rcases parseSlab_raises h with herr | he
    · rw [hh] at herr
      cases herr
    · exact he.not_isTruncated (Exn.isTruncated_truncated avail need)

end LimniFs
