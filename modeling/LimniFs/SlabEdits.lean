import LimniFs.SolidWindow
import LimniFs.Wire.Reorder

/-!
# SlabEdits — what an edit of a slab changes

Cutting a slab or adding to it is always noticed.  Putting its records in another order or writing
other bytes into its window is not: what such an edit changes is described drop by drop.
-/

namespace LimniFs

open Wire

/-! ## Slabs of another length -/

/-- A cut inside the header is a `TruncatedError`, and any other length than the one in the header
a `CorruptError` that gives both lengths, whatever lies behind the header. -/
theorem parseSlab_resized {data : Bytes} {view : SlabView} (h : parseSlab data = .ok view) :
    (∀ k, k < slabHeaderLen →
      ∃ avail need, parseSlab (data.take k) = .error (.truncated avail need)) ∧
    ∀ rest, slabHeaderLen + rest.length ≠ data.length →
      parseSlab (data.take slabHeaderLen ++ rest) = .error (.corrupt
        (s!"slab total_length {data.length} " ++
          s!"does not match buffer length {slabHeaderLen + rest.length}")) := by
  rcases parseSlab_eq_ok_iff.1 h with ⟨window, hview⟩
  have htake : data.take slabHeaderLen = view.header.wire := by
    rw [hview.wire, ← SlabHeader.length_wire view.header, List.take_left]
  refine ⟨?_, ?_⟩
  · intro k hk
    -- What is left of the slab is a proper part of its header.
    have hpart : data.take k = view.header.wire.take k := by
      rw [← htake, List.take_take, Nat.min_eq_left hk.le]
    have hne : view.header.wire.take k ≠ view.header.wire := by
      intro heq
      have hlen := congrArg List.length heq
      rw [List.length_take, SlabHeader.length_wire] at hlen
      omega
    have hpre : (Wire.Cursor.start (view.header.wire.take k)).remaining <+: view.header.wire := by
      rw [Wire.Cursor.remaining_start]
      exact List.take_prefix k _
    rcases (parseSlabHeader_decodes defaultSlabMaxBytes).truncated hview.header hpre
      (by rwa [Wire.Cursor.remaining_start]) with ⟨_, ⟨avail, need, rfl⟩, herr⟩
    refine ⟨avail, need, ?_⟩
    unfold parseSlab
    rw [hpart, herr]
    rfl
  · intro rest hlen
    rw [htake]
    rcases (parseSlabHeader_decodes defaultSlabMaxBytes).decode_append hview.header rest with
      ⟨c, hheader, -⟩
    have hbuf : (view.header.wire ++ rest).length = slabHeaderLen + rest.length := by
      rw [List.length_append, SlabHeader.length_wire]
    unfold parseSlab
    rw [hheader]
    dsimp only [bind, Except.bind]
    rw [hbuf, hview.totalLength, if_pos hlen.symm]
    rfl

namespace SlabView

/-- The slab with these records and this window behind the header of the view. -/
def rebuild (view : SlabView) (records : List DropRecord) (window : Bytes) : SlabView where
  bytes := view.header.wire ++ (records.flatMap DropRecord.wire ++ window)
  header := view.header
  dropRecords := records
  solidWindowStart := view.solidWindowStart

variable {view view' : SlabView} {data window window' : Bytes} {records : List DropRecord}

theorem Describes.solidWindow_eq (h : view.Describes data window) : view.solidWindow = window := by
  have hlen : (view.header.wire ++ view.dropRecords.flatMap DropRecord.wire).length =
      view.solidWindowStart := by
    rw [List.length_append, SlabHeader.length_wire, DropRecord.length_flatMap_wire,
      h.solidWindowStart]
  rw [solidWindow, h.bytes, h.wire, ← List.append_assoc, ← hlen, List.drop_left]

/-- As many records and stored bytes as before make a slab again. -/
theorem Describes.rebuild (h : view.Describes data window)
    (hrange : ∀ record ∈ records, record.InRange view.header defaultDropMaxPlaintextBytes)
    (hcount : records.length = view.dropRecords.length)
    (hstored : storedLen records = storedLen view.dropRecords)
    (hwindow : window'.length = window.length) :
    (view.rebuild records window').Describes (view.rebuild records window').bytes window' where
  header := h.header
  totalLength := by
    simp only [SlabView.rebuild, h.totalLength, h.wire, List.length_append,
      DropRecord.length_flatMap_wire, hcount, hwindow]
  dropRecords := hrange
  wire := rfl
  length_window := by
    rw [hwindow, h.length_window, SlabView.rebuild, hstored]
  bytes := rfl
  solidWindowStart := by
    simp only [SlabView.rebuild, h.solidWindowStart, hcount]

theorem Describes.length_rebuild (h : view.Describes data window)
    (hcount : records.length = view.dropRecords.length)
    (hwindow : window'.length = window.length) :
    (view.rebuild records window').bytes.length = view.bytes.length := by
  simp only [SlabView.rebuild, h.bytes, h.wire, List.length_append,
    DropRecord.length_flatMap_wire, hcount, hwindow]

/-- The records in another order, in front of the same window. -/
theorem Describes.reorder (h : view.Describes data window)
    (hperm : view.dropRecords.Perm records) :
    (view.rebuild records window).Describes (view.rebuild records window).bytes window := by
  apply h.rebuild (fun record hmem => h.dropRecords record (hperm.mem_iff.2 hmem))
    hperm.length_eq.symm _ rfl
  exact (hperm.map DropRecord.lenInWindow).sum_nat.symm

theorem findRecord_singleton (record : DropRecord) :
    { view with dropRecords := [record] }.findRecord record.dropId.bytes = some record := by
  simp [findRecord]

theorem slice_eq_stored (view : SlabView) (record : DropRecord) :
    (view.bytes.take (view.solidWindowStart + record.offsetInWindow + record.lenInWindow)).drop
      (view.solidWindowStart + record.offsetInWindow) = view.stored record := by
  rw [stored, solidWindow, List.drop_drop, List.drop_take, Nat.add_sub_cancel_left]

/-! ## Lookups record by record -/

section Lookups

variable [Lz4Block]

/-- What a lookup results in that comes to this record. -/
def served (view : SlabView) (record : DropRecord) : Except Exn Lookup :=
  { view with dropRecords := [record] }.plaintextFor record.dropId.bytes

/-- A lookup goes to the first record of the drop. -/
theorem plaintextFor_eq_served (view : SlabView) (dropId : Bytes) : view.plaintextFor dropId =
    ((view.findRecord dropId).map view.served).getD (.ok .absent) := by
  cases h : view.findRecord dropId with
  | none =>
      unfold plaintextFor
      rw [h]
      rfl
  | some record =>
      rw [Option.map_some, Option.getD_some, served]
      unfold plaintextFor
      rw [h, findRecord_singleton]

/-- Slabs of one length whose windows begin at one place serve a record alike when they store the
same bytes for it. -/
theorem served_congr {record : DropRecord}
    (hstart : view'.solidWindowStart = view.solidWindowStart)
    (hlen : view'.bytes.length = view.bytes.length)
    (hstored : view'.stored record = view.stored record) :
    view'.served record = view.served record := by
  have hbytes := slice_eq_stored view' record
  rw [hstored, ← slice_eq_stored view record, hstart] at hbytes
  unfold served plaintextFor
  rw [findRecord_singleton, findRecord_singleton]
  simp only [hstart, hlen, hbytes]

/-- The order of the records makes no difference to what one of them serves. -/
theorem Describes.served_reorder (h : view.Describes data window)
    (hperm : view.dropRecords.Perm records) :
    (view.rebuild records window).served = view.served := by
  have hstart : (view.rebuild records window).solidWindowStart = view.solidWindowStart := rfl
  have hlen : (view.rebuild records window).bytes.length = view.bytes.length :=
    h.length_rebuild hperm.length_eq.symm rfl
  funext record
  apply served_congr hstart hlen
  rw [stored, stored, (h.reorder hperm).solidWindow_eq, h.solidWindow_eq]

theorem served_ne_absent (record : DropRecord) : view.served record ≠ .ok .absent := by
  intro h
  exact plaintextFor_eq_absent_iff.1 h record (List.mem_singleton_self record) rfl

/-- Two lookups have one result when both come to no record, or both to records that serve the
same. -/
theorem plaintextFor_eq_iff {dropId : Bytes} (hserved : view'.served = view.served) :
    view'.plaintextFor dropId = view.plaintextFor dropId ↔
      (view'.findRecord dropId).map view.served = (view.findRecord dropId).map view.served := by
  rw [plaintextFor_eq_served, plaintextFor_eq_served, hserved]
  cases view'.findRecord dropId with
  | none =>
      cases view.findRecord dropId with
      | none =>
          simp
      | some record =>
          simpa using (served_ne_absent record).symm
  | some record =>
      cases view.findRecord dropId with
      | none =>
          simpa using served_ne_absent record
      | some record' =>
          simp

/-- Every order of the records of an accepted slab is accepted: no partial sum of stored lengths
ends the loop early.  A lookup has one result in all orders exactly when all the records of the
drop serve the same. -/
theorem parseSlab_reordered (h : parseSlab data = .ok view) :
    (∀ records, view.dropRecords.Perm records →
      parseSlab (view.rebuild records view.solidWindow).bytes =
        .ok (view.rebuild records view.solidWindow)) ∧
    ∀ dropId, (∀ records, view.dropRecords.Perm records →
        (view.rebuild records view.solidWindow).plaintextFor dropId =
          view.plaintextFor dropId) ↔
      ∀ a ∈ view.dropRecords, ∀ b ∈ view.dropRecords, a.dropId.bytes = dropId →
        b.dropId.bytes = dropId → view.served a = view.served b := by
  rcases parseSlab_eq_ok_iff.1 h with ⟨window, hview⟩
  rw [hview.solidWindow_eq]
  refine ⟨fun records hperm => parseSlab_eq_ok_iff.2 ⟨window, hview.reorder hperm⟩, ?_⟩
  intro dropId
  have hfind := @find?_map_eq_of_perm_iff _ _ (fun record : DropRecord => record.dropId.bytes =
    dropId) view.served view.dropRecords
  simp only [decide_eq_true_eq] at hfind
  rw [← hfind]
  refine forall₂_congr fun records hperm => ?_
  exact plaintextFor_eq_iff (hview.served_reorder hperm)

theorem Serves.findRecord {dropId plaintext : Bytes} {record : DropRecord}
    (h : view.Serves dropId plaintext record) : view.findRecord dropId = some record := by
  rcases h.first with ⟨before, after, hrecords, hid, hbefore⟩
  rw [SlabView.findRecord, List.find?_eq_some_iff_append]
  exact ⟨by simpa using hid, before, after, hrecords, by simpa using hbefore⟩

/-- Any window of the same length is accepted behind the records of an accepted slab.  A lookup
changes no more than the stored bytes of its record do, and a drop that was found as it is stored
is now found with the bytes that stand in its place: nothing ties them to its id. -/
theorem parseSlab_anotherWindow (h : parseSlab data = .ok view) {window : Bytes}
    (hlen : window.length = view.solidWindow.length) :
    parseSlab (view.rebuild view.dropRecords window).bytes =
        .ok (view.rebuild view.dropRecords window) ∧
      (∀ dropId, (∀ record, view.findRecord dropId = some record →
          (view.rebuild view.dropRecords window).stored record = view.stored record) →
        (view.rebuild view.dropRecords window).plaintextFor dropId = view.plaintextFor dropId) ∧
      ∀ dropId plaintext record, view.Serves dropId plaintext record →
        record.representation.codec = codecStore →
        (view.rebuild view.dropRecords window).plaintextFor dropId =
          .ok (.found ((window.drop record.offsetInWindow).take record.lenInWindow)) := by
  rcases parseSlab_eq_ok_iff.1 h with ⟨before, hview⟩
  rw [hview.solidWindow_eq] at hlen
  have hnew := hview.rebuild hview.dropRecords rfl rfl hlen
  refine ⟨parseSlab_eq_ok_iff.2 ⟨window, hnew⟩, ?_, ?_⟩
  · intro dropId hstored
    have hbytes : (view.rebuild view.dropRecords window).bytes.length = view.bytes.length :=
      hview.length_rebuild rfl hlen
    have hfind : (view.rebuild view.dropRecords window).findRecord dropId =
        view.findRecord dropId := rfl
    rw [plaintextFor_eq_served, plaintextFor_eq_served, hfind]
    cases hrecord : view.findRecord dropId with
    | none =>
        rfl
    | some record =>
        have hstart : (view.rebuild view.dropRecords window).solidWindowStart =
          view.solidWindowStart := rfl
        have hsame := served_congr hstart hbytes (hstored record hrecord)
        rw [Option.map_some, Option.map_some, hsame]
  · intro dropId plaintext record hserves hcodec
    have hwindow : record.offsetInWindow + record.lenInWindow ≤ window.length := by
      rw [hlen, hview.length_window]
      exact hserves.inside_window
    have hlenStored : ((window.drop record.offsetInWindow).take record.lenInWindow).length =
        record.lenInWindow := by
      rw [List.length_take, List.length_drop]
      omega
    -- In front of the bytes of the record stand the header, the records and the window so far.
    have hbytes : (view.rebuild view.dropRecords window).bytes =
        (view.header.wire ++ view.dropRecords.flatMap DropRecord.wire ++
          window.take record.offsetInWindow) ++
        ((window.drop record.offsetInWindow).take record.lenInWindow ++
          (window.drop record.offsetInWindow).drop record.lenInWindow) := by
      simp only [SlabView.rebuild, List.take_append_drop, List.append_assoc]
    have hfind : (view.rebuild view.dropRecords window).findRecord dropId = some record :=
      hserves.findRecord
    apply plaintextFor_eq_found hfind hserves.aead hserves.solidWindowIndex hbytes
    · rw [List.length_append, List.length_append, SlabHeader.length_wire,
        DropRecord.length_flatMap_wire, List.length_take, SlabView.rebuild, hview.solidWindowStart]
      omega
    · exact hlenStored.symm
    · have hplain : record.lenInWindow = record.plaintextLen := by
        rw [← hserves.length_stored, ← hserves.store hcodec, hserves.length_plaintext]
      exact decompress_eq_ok_iff.2 (.inl ⟨hcodec, hlenStored.trans hplain, rfl⟩)

end Lookups

end SlabView

open Reference in
open scoped Reference in
theorem parseSlab_resized_slab :
    (∀ k, k < 56 → ∃ avail need, parseSlab (slab.take k) = .error (.truncated avail need)) ∧
      parseSlab (slab.take 56 ++ []) = .error (.corrupt
        (s!"slab total_length {slab.length} " ++
          s!"does not match buffer length {56 + ([] : Bytes).length}")) := by
  rcases makeSlab_describes makeSlab_drops (by decide +kernel) with ⟨records, window, -, hview⟩
  have h := parseSlab_resized (parseSlab_eq_ok_iff.2 ⟨window, hview⟩)
  exact ⟨h.1, h.2 [] (by decide +kernel)⟩

open Reference in
open scoped Reference in
/-- The three drops have an id each, so no order of their records changes a lookup. -/
theorem parseSlab_reordered_slab :
    ∃ view, parseSlab slab = .ok view ∧ view.dropRecords.length = 3 ∧
      ∀ records, view.dropRecords.Perm records →
        parseSlab (view.rebuild records view.solidWindow).bytes =
            .ok (view.rebuild records view.solidWindow) ∧
          ∀ dropId, (view.rebuild records view.solidWindow).plaintextFor dropId =
            view.plaintextFor dropId := by
  rcases makeSlab_describes makeSlab_drops (by decide +kernel) with ⟨records, window, hlaid, hview⟩
  have hparse := parseSlab_eq_ok_iff.2 ⟨window, hview⟩
  have hnodup : (records.map DropRecord.dropId).Nodup := by
    rw [hlaid.map_dropId]
    decide
  rcases SlabView.parseSlab_reordered hparse with ⟨haccepts, hlookup⟩
  refine ⟨_, hparse, hlaid.length_records, fun other hperm => ⟨haccepts other hperm, ?_⟩⟩
  intro dropId
  refine (hlookup dropId).2 ?_ other hperm
  -- Two records of one drop are the same record.
  rintro a ha b hb rfl hid
  have hab : a = b := List.inj_on_of_nodup_map hnodup ha hb (DropId.bytes_inj hid.symm)
  rw [hab]

open Reference in
open scoped Reference in
/-- With zeros in their place, the three bytes of the first drop are lost and nothing is noticed. -/
theorem parseSlab_anotherWindow_slab :
    ∃ view window, parseSlab slab = .ok view ∧
      view.plaintextFor (List.replicate 32 0x11) = .ok (.found [1, 2, 3]) ∧
      parseSlab (view.rebuild view.dropRecords window).bytes =
        .ok (view.rebuild view.dropRecords window) ∧
      (view.rebuild view.dropRecords window).plaintextFor (List.replicate 32 0x11) =
        .ok (.found [0, 0, 0]) := by
  rcases makeSlab_describes makeSlab_drops (by decide +kernel) with
    ⟨records, window, hlaid, hview⟩
  have hparse := parseSlab_eq_ok_iff.2 ⟨window, hview⟩
  have hnodup : (drops.map Drop.dropId).Nodup := by decide
  have hmem : ⟨⟨List.replicate 32 0x11, by decide⟩, codecStore, [1, 2, 3], by decide, by decide⟩ ∈
      drops := List.mem_cons_self
  have hfound := Laid.plaintextFor_of_mem hlaid hview hnodup hmem fun h => absurd h (by decide)
  -- The record that serves the drop is the one that the writer made for it.
  rcases hlaid.find_of_mem hnodup hmem with ⟨before, stored, after, hstored, hwindow, hfind⟩
  cases hstored
  rcases hview.serves hfound with ⟨record, hserves⟩
  have hrecord := hserves.findRecord.symm.trans hfind
  cases hrecord
  have hlen : (before ++ ([0, 0, 0] ++ after)).length = window.length := by
    rw [hwindow]
    simp
  rw [← hview.solidWindow_eq] at hlen
  have h := SlabView.parseSlab_anotherWindow hparse hlen
  refine ⟨_, _, hparse, hfound, h.1, ?_⟩
  rw [h.2.2 _ _ _ hserves rfl]
  simp [Drop.record]

end LimniFs
