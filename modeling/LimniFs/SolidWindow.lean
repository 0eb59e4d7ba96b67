import LimniFs.SlabRoundTrip

/-!
# SolidWindow — what the records say of the window, and what is read from it

A record locates its bytes by an offset and a length.  The parser adds up the lengths, which fixes
where the window begins; of the offsets it checks next to nothing, and a lookup compares them with
the end of the slab when it reads.
-/

namespace LimniFs

open Wire

/-! ## The range of a record -/

/-- The end of the range, counted from the start of the window, does not fit in 32 bits. -/
def DropRecord.Overflows (record : DropRecord) : Prop :=
  2 ^ 32 ≤ record.offsetInWindow + record.lenInWindow

/-- Rounds of the loop that each read a record: the window so far leaves room for one, and its
fields are accepted. -/
inductive Reaches (header : SlabHeader) : Cursor → Nat → List DropRecord → Cursor → Prop
  | nil (c : Cursor) (windowLenSum : Nat) : Reaches header c windowLenSum [] c
  | cons {c c₁ c' : Cursor} {windowLenSum : Nat} {record : DropRecord}
      {records : List DropRecord} :
      windowLenSum + dropRecordLen ≤ c.remainingLen →
      parseDropRecord header defaultDropMaxPlaintextBytes c = .ok (record, c₁) →
      Reaches header c₁ (windowLenSum + record.lenInWindow) records c' →
      Reaches header c windowLenSum (record :: records) c'

theorem Reaches.buf_eq {header : SlabHeader} {c c' : Cursor} {windowLenSum : Nat}
    {records : List DropRecord} (h : Reaches header c windowLenSum records c') :
    c'.buf = c.buf := by
  induction h with
  | nil c windowLenSum =>
      rfl
  | cons _ hp _ ih =>
      exact ih.trans ((parseDropRecord_decodes _ _).sound hp).2.1

/-- After these rounds the loop goes on with what they have collected. -/
theorem Reaches.walkRecords_eq {header : SlabHeader} {c c' : Cursor} {windowLenSum : Nat}
    {records : List DropRecord} (h : Reaches header c windowLenSum records c') :
    header.totalLength = c.buf.length → ∀ acc, walkRecords header c windowLenSum acc =
      walkRecords header c' (windowLenSum + storedLen records) (acc ++ records) := by
  induction h with
  | nil c windowLenSum =>
      intro _ acc
      rw [storedLen_nil, Nat.add_zero, List.append_nil]
  | @cons c c₁ c' windowLenSum record records hle hp _ ih =>
      intro hlen acc
      have hbuf := ((parseDropRecord_decodes _ _).sound hp).2.1
      rw [walkRecords_next hlen hle, hp]
      dsimp only
      rw [ih (by rw [hbuf, hlen]), storedLen_cons, Nat.add_assoc, List.append_assoc,
        List.singleton_append]

/-- The slab has an acceptable header that gives its length, and the loop gets to the record. -/
def ContainsRecord (data : Bytes) (record : DropRecord) : Prop :=
  ∃ header c records c',
    parseSlabHeader defaultSlabMaxBytes (.start data) = .ok (header, c) ∧
      header.totalLength = data.length ∧ Reaches header c 0 records c' ∧ record ∈ records

/-- A record that the loop gets to is in the view, unless the slab is refused as corrupt. -/
theorem ContainsRecord.mem_or_corrupt {data : Bytes} {record : DropRecord}
    (h : ContainsRecord data record) :
    (∃ view, parseSlab data = .ok view ∧ record ∈ view.dropRecords) ∨
      ∃ reason, parseSlab data = .error (.corrupt reason) := by
  rcases h with ⟨header, c, records, c', hh, hlen, hreaches, hmem⟩
  have hbuf := totalLength_eq_buf hh hlen
  rw [parseSlab_eq_walk hh hlen]
  cases hw : walkRecords header c 0 [] with
  | error e =>
      rcases walkRecords_raises hbuf hw with ⟨reason, rfl⟩
      exact .inr ⟨reason, rfl⟩
  | ok out =>
      left
      refine ⟨_, rfl, ?_⟩
      -- The same records come out of the loop when it starts behind the rounds that read them.
      rw [hreaches.walkRecords_eq hbuf, List.nil_append] at hw
      have hbuf' : header.totalLength = c'.buf.length := by
        rw [hreaches.buf_eq, hbuf]
      rcases (walkRecords_eq_ok_iff hbuf').1 hw with ⟨rest, hout, -⟩
      dsimp only
      rw [hout]
      exact List.mem_append_left _ hmem

/-- What the slab `data` should be checked for: an accepted slab has records with ranges, sizes and
identifiers within their bounds, and a slab with a record whose range overflows is corrupt. -/
structure RangesChecked (data : Bytes) : Prop where
  accepted : ∀ view, parseSlab data = .ok view → ∀ record ∈ view.dropRecords,
    record.offsetInWindow + record.lenInWindow ≤ 2 ^ 32 - 1 ∧
      record.plaintextLen ≤ 64 * 1024 * 1024 ∧
      (view.header.cryptoHint = 0 → record.representation.aead = 0) ∧
      (view.header.ecDescriptor = 0 → record.representation.ec = 0)
  rejected : ∀ record, ContainsRecord data record → record.Overflows →
    ∃ reason, parseSlab data = .error (.corrupt reason)

/-- The ranges are checked unless the input is a whole slab, laid out as one, with a record that
overflows: the check on offset and length refuses no record. -/
theorem rangesChecked_iff (data : Bytes) :
    RangesChecked data ↔
      ¬ ∃ view window, SlabView.Describes view data window ∧
        ∃ record ∈ view.dropRecords, record.Overflows := by
  constructor
  · rintro h ⟨view, window, hdescribes, record, hmem, hover⟩
    -- What is laid out as a slab is accepted with all its records.
    have hle := (h.accepted view (parseSlab_eq_ok_iff.2 ⟨window, hdescribes⟩) record hmem).1
    unfold DropRecord.Overflows at hover
    omega
  · intro hnone
    have hview : ∀ view, parseSlab data = .ok view →
        ∀ record ∈ view.dropRecords, ¬ record.Overflows := by
      intro view hparse record hmem hover
      rcases parseSlab_eq_ok_iff.1 hparse with ⟨window, hdescribes⟩
      exact hnone ⟨view, window, hdescribes, record, hmem, hover⟩
    refine ⟨?_, ?_⟩
    · intro view hparse record hmem
      rcases parseSlab_eq_ok_iff.1 hparse with ⟨window, hdescribes⟩
      have hrange := hdescribes.dropRecords record hmem
      have hnot := hview view hparse record hmem
      unfold DropRecord.Overflows at hnot
      exact ⟨by omega, hrange.plaintextLen_le, hrange.aead, hrange.ec⟩
    · intro record hcontains hover
      rcases hcontains.mem_or_corrupt with ⟨view, hparse, hmem⟩ | hcorrupt
      · exact absurd hover (hview view hparse record hmem)
      · exact hcorrupt

namespace Reference

theorem length_zeros : (List.replicate 32 (0 : UInt8)).length = blake3Len := by
  decide

theorem zero_lt_256 : 0 < 256 := by
  decide

/-- One stored byte, said to lie `2 ^ 32 - 1` bytes into the window. -/
def farRecord : DropRecord where
  dropId := ⟨List.replicate 32 0, length_zeros⟩
  plaintextLen := 1
  representation := ⟨0, 0, 0, zero_lt_256, zero_lt_256, zero_lt_256⟩
  solidWindowIndex := 0
  offsetInWindow := 2 ^ 32 - 1
  lenInWindow := 1

/-- A slab of 105 bytes with this record. -/
def farSlab : Bytes :=
  (plainHeader 105).wire ++ (farRecord.wire ++ [0])

end Reference

open Reference in
/-- The record overflows, and the slab is accepted. -/
theorem not_rangesChecked_farSlab : ¬ RangesChecked Reference.farSlab := by
  have hdescribes : SlabView.Describes ⟨farSlab, plainHeader 105, [farRecord], 104⟩ farSlab
      [0] := by
    refine ⟨?_, by decide, ?_, rfl, rfl, rfl, rfl⟩
    · exact ⟨rfl, by decide, by decide, by decide, by decide, by decide, by decide, by decide⟩
    · intro record hmem
      rcases List.mem_singleton.1 hmem with rfl
      exact ⟨by decide, by decide, fun _ => rfl, fun _ => rfl, by decide, by decide, by decide⟩
  intro h
  have hle := (h.accepted _ (parseSlab_eq_ok_iff.2 ⟨[0], hdescribes⟩) farRecord
    List.mem_cons_self).1
  exact absurd hle (by decide)

/-! ## Lookups -/

namespace SlabView

/-- The bytes behind the records. -/
def solidWindow (view : SlabView) : Bytes :=
  view.bytes.drop view.solidWindowStart

/-- The range of the record in the solid window. -/
def stored (view : SlabView) (record : DropRecord) : Bytes :=
  (view.solidWindow.drop record.offsetInWindow).take record.lenInWindow

/-- The plaintext is what the first record of the drop says: bytes of the window, stored as they are
or as an LZ4 block behind four bytes. -/
structure Serves [Lz4Block] (view : SlabView) (dropId plaintext : Bytes) (record : DropRecord) : Prop where
  first : ∃ before after, view.dropRecords = before ++ record :: after ∧
    record.dropId.bytes = dropId ∧ ∀ other ∈ before, other.dropId.bytes ≠ dropId
  aead : record.representation.aead = 0
  solidWindowIndex : record.solidWindowIndex = 0
  codec : record.representation.codec = codecStore ∨ record.representation.codec = codecLz4
  inside_slab : view.solidWindowStart + record.offsetInWindow + record.lenInWindow ≤
    view.bytes.length
  inside_window : record.offsetInWindow + record.lenInWindow ≤ storedLen view.dropRecords
  length_stored : (view.stored record).length = record.lenInWindow
  store : record.representation.codec = codecStore → plaintext = view.stored record
  lz4 : record.representation.codec = codecLz4 → 4 ≤ record.lenInWindow ∧
    Lz4Block.decompress ((view.stored record).drop 4) record.plaintextLen = .ok plaintext
  length_plaintext : plaintext.length = record.plaintextLen

variable {view : SlabView} {dropId plaintext data : Bytes} {record : DropRecord}

theorem plaintextFor_eq_absent_iff [Lz4Block] :
    view.plaintextFor dropId = .ok .absent ↔
      ∀ record ∈ view.dropRecords, record.dropId.bytes ≠ dropId := by
  have hnone : view.findRecord dropId = none ↔
      ∀ record ∈ view.dropRecords, record.dropId.bytes ≠ dropId := by
    simp [findRecord]
  rw [← hnone]
  constructor
  · intro h
    unfold plaintextFor at h
    split at h
    · assumption
    -- Once there is a record, every result is a plaintext or an error.
    · dsimp only at h
      repeat' split at h
      all_goals cases h
  · intro h
    unfold plaintextFor
    rw [h]

/-- A lookup that returns a plaintext has passed every check, in this order. -/
theorem plaintextFor_found_steps [Lz4Block] (h : view.plaintextFor dropId = .ok (.found plaintext)) :
    ∃ record, view.findRecord dropId = some record ∧ record.representation.aead = 0x00 ∧
      record.solidWindowIndex = 0 ∧
      view.solidWindowStart + record.offsetInWindow + record.lenInWindow ≤ view.bytes.length ∧
      decompress record.representation.codec (view.stored record) record.plaintextLen =
        .ok plaintext := by
  unfold plaintextFor at h
  split at h
  · cases h
  rename_i record hfind
  refine ⟨record, hfind, ?_⟩
  split at h
  · cases h
  rename_i haead
  split at h
  · cases h
  rename_i hwindow
  dsimp only at h
  split at h
  · cases h
  rename_i hstop
  have hslice : (view.bytes.take (view.solidWindowStart + record.offsetInWindow +
      record.lenInWindow)).drop (view.solidWindowStart + record.offsetInWindow) =
        view.stored record := by
    rw [stored, solidWindow, List.drop_drop, List.drop_take, Nat.add_sub_cancel_left]
  rw [hslice] at h
  refine ⟨not_not.1 haead, not_not.1 hwindow, Nat.not_lt.1 hstop, ?_⟩
  split at h
  · rename_i hcodec
    cases h
    exact hcodec
  all_goals cases h

/-- The window of a slab is as long as the stored lengths together. -/
theorem Describes.length_solidWindow {window : Bytes} (h : view.Describes data window) :
    view.solidWindow.length = storedLen view.dropRecords := by
  have hlen := congrArg List.length h.wire
  rw [List.length_append, List.length_append, SlabHeader.length_wire,
    DropRecord.length_flatMap_wire, h.length_window] at hlen
  rw [solidWindow, List.length_drop, h.bytes, h.solidWindowStart, hlen]
  omega

theorem Describes.serves [Lz4Block] {window : Bytes} (hview : view.Describes data window)
    (h : view.plaintextFor dropId = .ok (.found plaintext)) :
    ∃ record, view.Serves dropId plaintext record := by
  rcases plaintextFor_found_steps h with ⟨record, hfind, haead, hindex, hinside, hcodec⟩
  have hwindow := hview.length_solidWindow
  have hrange : record.offsetInWindow + record.lenInWindow ≤ view.solidWindow.length := by
    rw [solidWindow, List.length_drop]
    omega
  have hstored : (view.stored record).length = record.lenInWindow := by
    rw [stored, List.length_take, List.length_drop]
    omega
  have hfirst : ∃ before after, view.dropRecords = before ++ record :: after ∧
      record.dropId.bytes = dropId ∧ ∀ other ∈ before, other.dropId.bytes ≠ dropId := by
    rw [findRecord, List.find?_eq_some_iff_append] at hfind
    rcases hfind with ⟨hid, before, after, hrecords, hbefore⟩
    exact ⟨before, after, hrecords, by simpa using hid, by simpa using hbefore⟩
  -- The codec is one of the two, and each reads the stored bytes its own way.
  refine ⟨record, ?_⟩
  rcases decompress_eq_ok_iff.1 hcodec with ⟨hstore, hlen, heq⟩ | ⟨hlz4, hlen, hblock, heq⟩
  · have hne : record.representation.codec ≠ codecLz4 := by
      rw [hstore]
      decide
    exact ⟨hfirst, haead, hindex, .inl hstore, hinside, by omega, hstored, fun _ => heq,
      fun hlz4 => absurd hlz4 hne, by rw [heq, hlen]⟩
  · have hne : record.representation.codec ≠ codecStore := by
      rw [hlz4]
      decide
    exact ⟨hfirst, haead, hindex, .inr hlz4, hinside, by omega, hstored,
      fun hstore => absurd hstore hne, fun _ => ⟨hstored ▸ hlen, hblock⟩, heq⟩

/-- A lookup in an accepted slab raises nothing, misses exactly the ids without a record, and
returns a plaintext only from inside the solid window. -/
theorem plaintextFor_contained [Lz4Block] (h : parseSlab data = .ok view) (dropId : Bytes) :
    (∃ lookup, view.plaintextFor dropId = .ok lookup) ∧
      (view.plaintextFor dropId = .ok .absent ↔
        ∀ record ∈ view.dropRecords, record.dropId.bytes ≠ dropId) ∧
      view.bytes = data ∧
      ∀ plaintext, view.plaintextFor dropId = .ok (.found plaintext) →
        ∃ record, view.Serves dropId plaintext record := by
  rcases parseSlab_eq_ok_iff.1 h with ⟨window, hview⟩
  exact ⟨view.plaintextFor_ok dropId, plaintextFor_eq_absent_iff, hview.bytes,
    fun plaintext hfound => hview.serves hfound⟩

end SlabView

open Reference in
open scoped Reference in
/-- The slab with three drops serves the first of them. -/
theorem plaintextFor_contained_slab :
    ∃ view, parseSlab Reference.slab = .ok view ∧
      view.plaintextFor (List.replicate 32 0x11) = .ok (.found [1, 2, 3]) ∧
      ∃ record, view.Serves (List.replicate 32 0x11) [1, 2, 3] record := by
  rcases makeSlab_describes makeSlab_drops (by decide +kernel) with
    ⟨records, window, hlaid, hview⟩
  have hparse := parseSlab_eq_ok_iff.2 ⟨window, hview⟩
  have hnodup : (drops.map Drop.dropId).Nodup := by decide
  have hmem : ⟨⟨List.replicate 32 0x11, by decide⟩, codecStore, [1, 2, 3], by decide, by decide⟩ ∈
      drops := List.mem_cons_self
  have hfound := Laid.plaintextFor_of_mem hlaid hview hnodup hmem fun h => absurd h (by decide)
  exact ⟨_, hparse, hfound, (SlabView.plaintextFor_contained hparse _).2.2.2 _ hfound⟩

end LimniFs
