import LimniFs.Reference
import LimniFs.SlabWriter

/-!
# SlabRoundTrip — what is written to a slab is read from it
-/

namespace LimniFs

open Wire

section

variable [Lz4Block] {drops : List Drop} {records : List DropRecord} {view : SlabView}
variable {data window : Bytes}

/-- The plaintext of a drop is found under its id. -/
theorem Laid.plaintextFor_of_mem (hlaid : Laid 0 drops view.dropRecords window)
    (hview : view.Describes data window) (hnodup : (drops.map Drop.dropId).Nodup) {drop : Drop}
    (hmem : drop ∈ drops) (hlz4 : drop.codec = codecLz4 → Lz4RoundTrips drop.plaintext) :
    view.plaintextFor drop.dropId.bytes = .ok (.found drop.plaintext) := by
  rcases hlaid.find_of_mem hnodup hmem with ⟨before, stored, after, hstored, hwindow, hfind⟩
  -- The stored bytes of the drop, with everything in front of them and everything behind.
  have hbytes : view.bytes = (view.header.wire ++
      (view.dropRecords.flatMap DropRecord.wire ++ before)) ++ (stored ++ after) := by
    calc
      view.bytes = view.header.wire ++ (view.dropRecords.flatMap DropRecord.wire ++ window) :=
        hview.bytes.trans hview.wire
      _ = view.header.wire ++ (view.dropRecords.flatMap DropRecord.wire ++
          (before ++ (stored ++ after))) := by rw [hwindow]
      _ = _ := by simp only [List.append_assoc]
  refine SlabView.plaintextFor_eq_found hfind rfl rfl hbytes ?_ rfl
    (decompress_compress hlz4 hstored)
  rw [hview.solidWindowStart]
  simp only [Drop.record, List.length_append, SlabHeader.length_wire,
    DropRecord.length_flatMap_wire]
  omega

/-- Under any other id nothing is found. -/
theorem Laid.plaintextFor_of_not_mem {offset : Nat}
    (hlaid : Laid offset drops view.dropRecords window) {dropId : Bytes}
    (hne : ∀ drop ∈ drops, drop.dropId.bytes ≠ dropId) :
    view.plaintextFor dropId = .ok .absent := by
  -- The records carry the ids of the drops and no others.
  have hfind : view.findRecord dropId = none := by
    rw [SlabView.findRecord, List.find?_eq_none]
    intro record hrecord
    have hmem : record.dropId ∈ drops.map Drop.dropId := by
      rw [← hlaid.map_dropId]
      exact List.mem_map_of_mem hrecord
    rcases List.mem_map.1 hmem with ⟨drop, hdrop, heq⟩
    simpa [← heq] using hne drop hdrop
  unfold SlabView.plaintextFor
  rw [hfind]

/-- A slab that the writer lays out, up to the ceiling of 64 MiB, is read back: the records in
order, the window behind them, every plaintext under its id and nothing under another. -/
theorem makeSlab_roundTrip (drops : List Drop) (data : Bytes)
    (hlz4 : ∀ drop ∈ drops, drop.codec = codecLz4 → Lz4RoundTrips drop.plaintext)
    (hnodup : (drops.map Drop.dropId).Nodup) (hmake : makeSlab drops = .ok data)
    (hlen : data.length ≤ defaultSlabMaxBytes) :
    ∃ view window, parseSlab data = .ok view ∧ Laid 0 drops view.dropRecords window ∧
      view.dropRecords.length = drops.length ∧
      view.solidWindowStart = slabHeaderLen + dropRecordLen * drops.length ∧
      (∀ drop ∈ drops, view.plaintextFor drop.dropId.bytes = .ok (.found drop.plaintext)) ∧
      ∀ dropId, (∀ drop ∈ drops, drop.dropId.bytes ≠ dropId) →
        view.plaintextFor dropId = .ok .absent := by
  rcases makeSlab_describes hmake hlen with ⟨records, window, hlaid, hview⟩
  refine ⟨_, window, parseSlab_eq_ok_iff.2 ⟨window, hview⟩, hlaid, hlaid.length_records, rfl,
    ?_, ?_⟩
  · intro drop hmem
    exact Laid.plaintextFor_of_mem hlaid hview hnodup hmem (hlz4 drop hmem)
  · intro dropId hne
    exact Laid.plaintextFor_of_not_mem hlaid hne

end

namespace Reference

/-- Three stored bytes, twelve equal bytes under LZ4, and an empty drop.  Twelve bytes are too few
for a match, so every encoder writes them as one literal. -/
def drops : List Drop :=
  [⟨⟨List.replicate 32 0x11, by decide⟩, codecStore, [1, 2, 3], by decide, by decide⟩,
    ⟨⟨List.replicate 32 0x22, by decide⟩, codecLz4, List.replicate 12 7, by decide, by decide⟩,
    ⟨⟨List.replicate 32 0x33, by decide⟩, codecStore, [], by decide, by decide⟩]

open scoped Reference in
def slab : Bytes :=
  (makeSlab drops).toOption.getD []

open scoped Reference in
theorem makeSlab_drops : makeSlab drops = .ok slab := by
  decide +kernel

end Reference

open Reference in
open scoped Reference in
theorem makeSlab_roundTrip_drops :
    ∃ view window, parseSlab slab = .ok view ∧ Laid 0 Reference.drops view.dropRecords window ∧
      view.dropRecords.length = 3 ∧ view.solidWindowStart = 56 + 48 * 3 ∧
      (∀ drop ∈ Reference.drops,
        view.plaintextFor drop.dropId.bytes = .ok (.found drop.plaintext)) ∧
      ∀ dropId, (∀ drop ∈ Reference.drops, drop.dropId.bytes ≠ dropId) →
        view.plaintextFor dropId = .ok .absent := by
  apply makeSlab_roundTrip Reference.drops slab
  -- Twelve bytes make one literal sequence, which decodes to them.
  · have hlz4 : Lz4RoundTrips (List.replicate 12 7) := by
      rintro _ ⟨⟩
      decide
    simpa [Reference.drops, codecStore, codecLz4] using hlz4
  · decide
  · exact makeSlab_drops
  · decide +kernel

end LimniFs
