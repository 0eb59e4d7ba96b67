import LimniFs.Codec
import LimniFs.DropRecord

/-!
# SlabReader — drop records, the solid window and plaintext lookups

A slab carries no drop count: `parse_slab` reads records for as long as the bytes behind the
cursor are more than the stored lengths seen so far add up to.  What it accepts is stated through
`Walked`, the invariant of that loop: the records lie one after another from the cursor on, and
what is left behind them is exactly as long as their stored bytes.
-/

namespace LimniFs

open Wire

structure SlabView where
  bytes : Bytes
  header : SlabHeader
  dropRecords : List DropRecord
  solidWindowStart : Nat
  deriving DecidableEq

/-- The results `(True, plaintext)`, `(False, error)` and `(False, None)` of a lookup. -/
inductive Lookup
  | found (plaintext : Bytes)
  | failed (error : Exn)
  | absent
  deriving DecidableEq

namespace SlabView

/-- The first record of the drop. -/
def findRecord (view : SlabView) (dropId : Bytes) : Option DropRecord :=
  view.dropRecords.find? fun record => record.dropId.bytes = dropId

def plaintextFor [Lz4Block] (view : SlabView) (dropId : Bytes) : Except Exn Lookup :=
  match view.findRecord dropId with
  | none => .ok .absent
  | some record =>
      -- Both refusals are results of the lookup, not exceptions.
      if record.representation.aead ≠ 0x00 then
        .ok (.failed (.unsupportedFeature
          (s!"drop aead 0x{formatHex 2 record.representation.aead} " ++
            "(only plaintext/0x00 supported in v0.1)")))
      else if record.solidWindowIndex ≠ 0 then
        .ok (.failed (.unsupportedFeature (s!"solid_window_index {record.solidWindowIndex} " ++
          "(only single-window slabs supported in v0.1)")))
      else
        let start := view.solidWindowStart + record.offsetInWindow
        let stop := start + record.lenInWindow
        if stop > view.bytes.length then
          .ok (.failed (.corrupt
            s!"drop range [{start}..{stop}] extends past slab length {view.bytes.length}"))
        else
          match decompress record.representation.codec ((view.bytes.take stop).drop start)
            record.plaintextLen with
          | .ok plaintext => .ok (.found plaintext)
          -- `except (CorruptError, UnsupportedFeatureError)`
          | .error (.parse (.corrupt reason)) => .ok (.failed (.corrupt reason))
          | .error (.parse (.unsupportedFeature feature)) =>
              .ok (.failed (.unsupportedFeature feature))
          | .error e => .error e

/-- A lookup raises nothing: what the codec raises is caught. -/
theorem plaintextFor_ok [Lz4Block] (view : SlabView) (dropId : Bytes) :
    ∃ lookup, view.plaintextFor dropId = .ok lookup := by
  unfold plaintextFor
  split
  · exact ⟨_, rfl⟩
  · split
    · exact ⟨_, rfl⟩
    · split
      · exact ⟨_, rfl⟩
      · dsimp only
        split
        · exact ⟨_, rfl⟩
        · split
          · exact ⟨_, rfl⟩
          · exact ⟨_, rfl⟩
          · exact ⟨_, rfl⟩
          -- The last branch would be an exception of the codec that is neither of the two.
          · rename_i e hcorrupt hunsupported herr
            rcases decompress_raises herr with ⟨reason, rfl⟩ | ⟨feature, rfl⟩
            · exact absurd rfl (hcorrupt reason)
            · exact absurd rfl (hunsupported feature)

/-- A plaintext record of the first window that lies inside the slab is decompressed. -/
theorem plaintextFor_eq_found [Lz4Block] {view : SlabView} {dropId plaintext : Bytes}
    {record : DropRecord} {before stored after : Bytes}
    (hfind : view.findRecord dropId = some record) (haead : record.representation.aead = 0x00)
    (hwindow : record.solidWindowIndex = 0) (hbytes : view.bytes = before ++ (stored ++ after))
    (hoffset : view.solidWindowStart + record.offsetInWindow = before.length)
    (hlen : record.lenInWindow = stored.length)
    (hcodec : decompress record.representation.codec stored record.plaintextLen =
      .ok plaintext) : view.plaintextFor dropId = .ok (.found plaintext) := by
  have hstop : ¬ before.length + stored.length > view.bytes.length := by
    rw [hbytes, List.length_append, List.length_append]
    omega
  have hslice : (view.bytes.take (before.length + stored.length)).drop before.length = stored := by
    calc
      (view.bytes.take (before.length + stored.length)).drop before.length
          = (view.bytes.drop before.length).take stored.length := by
            rw [List.drop_take, Nat.add_sub_cancel_left]
      _ = (stored ++ after).take stored.length := by rw [hbytes, List.drop_left]
      _ = stored := List.take_left
  unfold plaintextFor
  simp only [hfind, haead, hwindow, hoffset, hlen, hslice, hcodec]
  simp [hstop]

end SlabView

/-! ## The loop over the drop records -/

/-- A record that is read is 48 bytes that are consumed. -/
theorem parseDropRecord_remainingLen {slab : SlabHeader} {maxPlaintext : Nat} {c c' : Cursor}
    {record : DropRecord} (h : parseDropRecord slab maxPlaintext c = .ok (record, c')) :
    c.remainingLen = dropRecordLen + c'.remainingLen := by
  have hc := ((parseDropRecord_decodes slab maxPlaintext).sound h).2
  calc
    c.remainingLen = c.remaining.length := (Wire.Cursor.length_remaining c).symm
    _ = (record.wire ++ c'.remaining).length := by rw [hc.2]
    _ = dropRecordLen + c'.remainingLen := by simp

/-- The loop of `parse_slab`, with the sum of the stored lengths and the records read so far. -/
def walkRecords (header : SlabHeader) (c : Cursor) (windowLenSum : Nat)
    (dropRecords : List DropRecord) : Except Exn (List DropRecord × Cursor) :=
  let remainingAfterCursor : Int := header.totalLength - c.pos
  if remainingAfterCursor = windowLenSum then
    .ok (dropRecords, c)
  else if remainingAfterCursor < windowLenSum then
    .error (.corrupt ("slab drop records overran solid window: " ++
      s!"cursor_pos={c.pos}, window_sum={windowLenSum}, total_length={header.totalLength}"))
  else
    -- The sum so far leaves room: what is beyond it has to hold a record.
    let trailing := remainingAfterCursor - windowLenSum
    if trailing < dropRecordLen then
      .error (.corrupt (s!"slab has {trailing} trailing bytes that are neither a full " ++
        "drop record nor accounted for by the solid window"))
    else
      match h : parseDropRecord header defaultDropMaxPlaintextBytes c with
      | .error e => .error e
      | .ok (record, c') =>
          -- The record takes 48 bytes, so less is left for the next round.
          have := parseDropRecord_remainingLen h
          walkRecords header c' (windowLenSum + record.lenInWindow) (dropRecords ++ [record])
termination_by c.remainingLen
decreasing_by
  simp only [dropRecordLen] at this
  omega

def parseSlab (data : Bytes) : Except Exn SlabView := do
  let (header, c) ← parseSlabHeader defaultSlabMaxBytes (.start data)
  if header.totalLength ≠ data.length then
    throw (.corrupt (s!"slab total_length {header.totalLength} " ++
      s!"does not match buffer length {data.length}"))
  let (dropRecords, c') ← walkRecords header c 0 []
  return { bytes := data, header, dropRecords, solidWindowStart := c'.pos }

/-! ## What the loop accepts -/

/-- The bytes that the records have in the solid window. -/
def storedLen (records : List DropRecord) : Nat :=
  (records.map DropRecord.lenInWindow).sum

@[simp]
theorem storedLen_nil : storedLen [] = 0 :=
  rfl

@[simp]
theorem storedLen_cons (record : DropRecord) (records : List DropRecord) :
    storedLen (record :: records) = record.lenInWindow + storedLen records := by
  simp [storedLen]

/-- From `c` to `c'` lie the records, and behind them as many bytes as they and the earlier ones,
with `windowLenSum` bytes, have in the window. -/
structure Walked (header : SlabHeader) (c : Cursor) (windowLenSum : Nat)
    (records : List DropRecord) (c' : Cursor) : Prop where
  inRange : ∀ record ∈ records, record.InRange header defaultDropMaxPlaintextBytes
  consumes : c.Consumes (records.flatMap DropRecord.wire) c'
  window : c'.remainingLen = windowLenSum + storedLen records

namespace Walked

variable {header : SlabHeader} {c c₁ c' : Cursor} {windowLenSum : Nat} {record : DropRecord}
variable {records : List DropRecord}

theorem nil (h : c.remainingLen = windowLenSum) : Walked header c windowLenSum [] c :=
  ⟨by simp, Wire.Cursor.Consumes.nil c, h⟩

theorem cons_iff : Walked header c windowLenSum (record :: records) c' ↔
    ∃ c₁, parseDropRecord header defaultDropMaxPlaintextBytes c = .ok (record, c₁) ∧
      Walked header c₁ (windowLenSum + record.lenInWindow) records c' := by
  constructor
  -- The first record is consumed first; its stored length moves into the sum.
  · rintro ⟨hr, hc, hw⟩
    rcases List.forall_mem_cons.1 hr with ⟨hrecord, hrecords⟩
    rw [List.flatMap_cons] at hc
    rcases hc.split with ⟨c₁, h₁, h₂⟩
    rw [storedLen_cons] at hw
    exact ⟨c₁, (parseDropRecord_decodes _ _).complete hrecord h₁, hrecords, h₂, by omega⟩
  · rintro ⟨c₁, hp, hr, hc, hw⟩
    rcases (parseDropRecord_decodes _ _).sound hp with ⟨hrecord, h₁⟩
    refine ⟨List.forall_mem_cons.2 ⟨hrecord, hr⟩, ?_, ?_⟩
    · rw [List.flatMap_cons]
      exact h₁.trans hc
    · rw [storedLen_cons]
      omega

/-- What is left in front of the records: they themselves and the window. -/
theorem remainingLen_eq (h : Walked header c windowLenSum records c') :
    c.remainingLen = dropRecordLen * records.length + (windowLenSum + storedLen records) := by
  calc
    c.remainingLen = c.remaining.length := (Wire.Cursor.length_remaining c).symm
    _ = (records.flatMap DropRecord.wire ++ c'.remaining).length := by rw [h.consumes.2]
    _ = dropRecordLen * records.length + c'.remainingLen := by
        rw [List.length_append, DropRecord.length_flatMap_wire, Wire.Cursor.length_remaining]
    _ = dropRecordLen * records.length + (windowLenSum + storedLen records) := by rw [h.window]

theorem eq_nil_of_remainingLen_eq (h : Walked header c windowLenSum records c')
    (hstop : c.remainingLen = windowLenSum) : records = [] := by
  have hrem := h.remainingLen_eq
  have hpos : 0 < dropRecordLen := by decide
  have hzero : dropRecordLen * records.length = 0 := by omega
  rcases Nat.mul_eq_zero.1 hzero with h₀ | h₀
  · omega
  · exact List.length_eq_zero_iff.1 h₀

/-- Nothing is left to walk over, or a whole record is. -/
theorem remainingLen_eq_or (h : Walked header c windowLenSum records c') :
    c.remainingLen = windowLenSum ∨ windowLenSum + dropRecordLen ≤ c.remainingLen := by
  have hrem := h.remainingLen_eq
  -- Without a record only the window is left, and with one its 48 bytes come on top.
  cases records with
  | nil =>
      left
      simpa using hrem
  | cons record records =>
      right
      rw [List.length_cons, Nat.mul_succ] at hrem
      omega

theorem exists_cons (h : Walked header c windowLenSum records c')
    (hle : windowLenSum + dropRecordLen ≤ c.remainingLen) :
    ∃ record tail, records = record :: tail := by
  cases records with
  | nil =>
      have hrem := h.remainingLen_eq
      have hpos : 0 < dropRecordLen := by decide
      simp only [List.length_nil, storedLen_nil] at hrem
      omega
  | cons record tail =>
      exact ⟨record, tail, rfl⟩

end Walked

section Walk

variable {header : SlabHeader}

/-- The difference that the loop computes is what remains behind the cursor. -/
theorem remainingAfterCursor_eq {c : Cursor} (hlen : header.totalLength = c.buf.length) :
    (header.totalLength : Int) - c.pos = c.remainingLen := by
  have hb := c.inBounds
  rw [hlen, Wire.Cursor.remainingLen]
  omega

theorem walkRecords_stop {c : Cursor} {windowLenSum : Nat}
    (hlen : header.totalLength = c.buf.length) (h : c.remainingLen = windowLenSum)
    (acc : List DropRecord) : walkRecords header c windowLenSum acc = .ok (acc, c) := by
  rw [walkRecords]
  simp [remainingAfterCursor_eq hlen, h]

/-- Too little is left for a record, or the window is overrun. -/
theorem walkRecords_stuck {c : Cursor} {windowLenSum : Nat}
    (hlen : header.totalLength = c.buf.length) (hne : c.remainingLen ≠ windowLenSum)
    (hlt : c.remainingLen < windowLenSum + dropRecordLen) (acc : List DropRecord) :
    ∃ reason, walkRecords header c windowLenSum acc = .error (.corrupt reason) := by
  rw [walkRecords]
  simp only [remainingAfterCursor_eq hlen]
  rw [if_neg (by omega)]
  -- Less than the window is an overrun, and less than a record more is a trailing rest.
  split
  · exact ⟨_, rfl⟩
  · rw [if_pos (by omega)]
    exact ⟨_, rfl⟩

theorem walkRecords_next {c : Cursor} {windowLenSum : Nat}
    (hlen : header.totalLength = c.buf.length)
    (hle : windowLenSum + dropRecordLen ≤ c.remainingLen) (acc : List DropRecord) :
    walkRecords header c windowLenSum acc =
      match parseDropRecord header defaultDropMaxPlaintextBytes c with
      | .error e => .error e
      | .ok (record, c') =>
          walkRecords header c' (windowLenSum + record.lenInWindow) (acc ++ [record]) := by
  have hpos : 0 < dropRecordLen := by decide
  rw [walkRecords]
  simp only [remainingAfterCursor_eq hlen]
  -- None of the three exits is taken, so the round reads a record.
  rw [if_neg (by omega), if_neg (by omega), if_neg (by omega)]
  split <;> simp_all

/-- Induction along the loop: it stops, it is stuck, a record fails, or one more is read. -/
theorem walk_induction {P : Cursor → Nat → List DropRecord → Prop}
    (stop : ∀ {c : Cursor} {windowLenSum : Nat} acc, header.totalLength = c.buf.length →
      c.remainingLen = windowLenSum → P c windowLenSum acc)
    (stuck : ∀ {c : Cursor} {windowLenSum : Nat} acc, header.totalLength = c.buf.length →
      c.remainingLen ≠ windowLenSum → c.remainingLen < windowLenSum + dropRecordLen →
      P c windowLenSum acc)
    (fails : ∀ {c : Cursor} {windowLenSum : Nat} {e : Exn} acc,
      header.totalLength = c.buf.length → windowLenSum + dropRecordLen ≤ c.remainingLen →
      parseDropRecord header defaultDropMaxPlaintextBytes c = .error e → P c windowLenSum acc)
    (next : ∀ {c c₁ : Cursor} {windowLenSum : Nat} {record : DropRecord} acc,
      header.totalLength = c.buf.length → windowLenSum + dropRecordLen ≤ c.remainingLen →
      parseDropRecord header defaultDropMaxPlaintextBytes c = .ok (record, c₁) →
      P c₁ (windowLenSum + record.lenInWindow) (acc ++ [record]) → P c windowLenSum acc)
    {c : Cursor} {windowLenSum : Nat} (hlen : header.totalLength = c.buf.length)
    (acc : List DropRecord) : P c windowLenSum acc := by
  -- Every record takes 48 bytes, so the induction is on what remains.
  induction hn : c.remainingLen using Nat.strong_induction_on
    generalizing c windowLenSum acc with
  | _ n ih =>
      subst hn
      by_cases hstop : c.remainingLen = windowLenSum
      · exact stop acc hlen hstop
      by_cases hlt : c.remainingLen < windowLenSum + dropRecordLen
      · exact stuck acc hlen hstop hlt
      have hle := Nat.not_lt.1 hlt
      cases hp : parseDropRecord header defaultDropMaxPlaintextBytes c with
      | error e =>
          exact fails acc hlen hle hp
      | ok r =>
          have hok : parseDropRecord header defaultDropMaxPlaintextBytes c = .ok (r.1, r.2) := hp
          have hbuf := ((parseDropRecord_decodes _ _).sound hok).2.1
          have hrem := parseDropRecord_remainingLen hok
          have hpos : 0 < dropRecordLen := by decide
          exact next acc hlen hle hok (ih r.2.remainingLen (by omega) (by rw [hbuf, hlen]) _ rfl)

/-- The loop succeeds exactly with the records it can walk over. -/
theorem walkRecords_eq_ok_iff {c c' : Cursor} {windowLenSum : Nat} {acc out : List DropRecord}
    (hlen : header.totalLength = c.buf.length) :
    walkRecords header c windowLenSum acc = .ok (out, c') ↔
      ∃ records, out = acc ++ records ∧ Walked header c windowLenSum records c' := by
  refine walk_induction (P := fun c windowLenSum acc =>
    walkRecords header c windowLenSum acc = .ok (out, c') ↔
      ∃ records, out = acc ++ records ∧ Walked header c windowLenSum records c')
    ?_ ?_ ?_ ?_ hlen acc
  -- The loop stops: a walk over at least one record would need more bytes than are left.
  · intro c windowLenSum acc hlen hstop
    rw [walkRecords_stop hlen hstop]
    constructor
    · intro h
      cases h
      exact ⟨[], by simp, Walked.nil hstop⟩
    · rintro ⟨records, rfl, h⟩
      rcases h.eq_nil_of_remainingLen_eq hstop with rfl
      rw [List.append_nil, h.consumes.eq_of_nil]
  -- The loop is stuck, and so is any walk from here.
  · intro c windowLenSum acc hlen hne hlt
    rcases walkRecords_stuck hlen hne hlt acc with ⟨reason, herr⟩
    rw [herr]
    constructor
    · intro h
      cases h
    · rintro ⟨records, -, h⟩
      rcases h.remainingLen_eq_or with hstop | hle
      · exact absurd hstop hne
      · omega
  -- The next record fails: a walk would have to begin with it.
  · intro c windowLenSum e acc hlen hle hp
    rw [walkRecords_next hlen hle, hp]
    constructor
    · intro h
      cases h
    · rintro ⟨records, -, h⟩
      rcases h.exists_cons hle with ⟨record, records, rfl⟩
      rcases Walked.cons_iff.1 h with ⟨c₁, hp', -⟩
      rw [hp] at hp'
      cases hp'
  -- One more record is read, and walks from the next cursor are the rest of walks from here.
  · intro c c₁ windowLenSum record acc hlen hle hp ih
    rw [walkRecords_next hlen hle, hp]
    dsimp only
    rw [ih]
    constructor
    · rintro ⟨records, rfl, hw⟩
      exact ⟨record :: records, by simp, Walked.cons_iff.2 ⟨c₁, hp, hw⟩⟩
    · rintro ⟨records, rfl, h⟩
      rcases h.exists_cons hle with ⟨record', records, rfl⟩
      rcases Walked.cons_iff.1 h with ⟨c₂, hp', hw⟩
      rw [hp] at hp'
      cases hp'
      exact ⟨records, by simp, hw⟩

/-- The loop ends, and when it fails it does so with a `CorruptError`. -/
theorem walkRecords_raises {c : Cursor} {windowLenSum : Nat} {acc : List DropRecord} {e : Exn}
    (hlen : header.totalLength = c.buf.length)
    (h : walkRecords header c windowLenSum acc = .error e) : e.IsCorrupt := by
  revert h
  refine walk_induction (P := fun c windowLenSum acc =>
    walkRecords header c windowLenSum acc = .error e → e.IsCorrupt)
    ?_ ?_ ?_ ?_ hlen acc
  · intro c windowLenSum acc hlen hstop h
    rw [walkRecords_stop hlen hstop] at h
    cases h
  · intro c windowLenSum acc hlen hne hlt h
    rcases walkRecords_stuck hlen hne hlt acc with ⟨reason, herr⟩
    rw [herr] at h
    cases h
    exact Exn.isCorrupt_corrupt _
  · intro c windowLenSum e' acc hlen hle hp h
    rw [walkRecords_next hlen hle, hp] at h
    cases h
    -- A whole record is left, so its fields are all there.
    have he : e.IsTruncated ∨ e.IsCorrupt :=
      (parseDropRecord_ensures (E := fun e => e.IsTruncated ∨ e.IsCorrupt)
        (fun _ _ => .inl (Exn.isTruncated_truncated _ _))
        (fun _ => .inr (Exn.isCorrupt_corrupt _)) _ _).raises hp
    exact he.resolve_left ((parseDropRecord_fits _ _).raises (by omega) hp)
  · intro c c₁ windowLenSum record acc hlen hle hp ih h
    rw [walkRecords_next hlen hle, hp] at h
    exact ih h

end Walk

/-! ## What the parser accepts -/

/-- The view of the slab `data`: header, records and solid window in a row. -/
structure SlabView.Describes (view : SlabView) (data window : Bytes) : Prop where
  header : view.header.InRange defaultSlabMaxBytes
  totalLength : view.header.totalLength = data.length
  dropRecords : ∀ record ∈ view.dropRecords,
    record.InRange view.header defaultDropMaxPlaintextBytes
  wire : data = view.header.wire ++ (view.dropRecords.flatMap DropRecord.wire ++ window)
  length_window : window.length = storedLen view.dropRecords
  bytes : view.bytes = data
  solidWindowStart : view.solidWindowStart =
    slabHeaderLen + dropRecordLen * view.dropRecords.length

/-- Behind an accepted header the parser is the loop. -/
theorem parseSlab_eq_walk {data : Bytes} {header : SlabHeader} {c : Cursor}
    (hh : parseSlabHeader defaultSlabMaxBytes (.start data) = .ok (header, c))
    (hlen : header.totalLength = data.length) :
    parseSlab data = do
      let (dropRecords, c') ← walkRecords header c 0 []
      return { bytes := data, header, dropRecords, solidWindowStart := c'.pos } := by
  unfold parseSlab
  rw [hh]
  simp [bind, Except.bind, hlen]

/-- The cursor behind the header is still in the buffer that the header was read from. -/
theorem totalLength_eq_buf {data : Bytes} {header : SlabHeader} {c : Cursor}
    (hh : parseSlabHeader defaultSlabMaxBytes (.start data) = .ok (header, c))
    (hlen : header.totalLength = data.length) : header.totalLength = c.buf.length := by
  calc
    header.totalLength = data.length := hlen
    _ = c.buf.length := congrArg List.length ((parseSlabHeader_decodes _).sound hh).2.1.symm

/-- Behind the header and the records the cursor is at the start of the solid window. -/
theorem Walked.pos_eq {data : Bytes} {header : SlabHeader} {c c' : Cursor} {windowLenSum : Nat}
    {records : List DropRecord} (h : Walked header c windowLenSum records c')
    (hh : parseSlabHeader defaultSlabMaxBytes (.start data) = .ok (header, c)) :
    c'.pos = slabHeaderLen + dropRecordLen * records.length := by
  have hc := ((parseSlabHeader_decodes _).sound hh).2
  calc
    c'.pos = c.pos + (records.flatMap DropRecord.wire).length := h.consumes.pos_eq
    _ = (Wire.Cursor.start data).pos + header.wire.length +
        (records.flatMap DropRecord.wire).length := by rw [hc.pos_eq]
    _ = 0 + slabHeaderLen + dropRecordLen * records.length := by
        rw [SlabHeader.length_wire, DropRecord.length_flatMap_wire]
        rfl
    _ = slabHeaderLen + dropRecordLen * records.length := by rw [Nat.zero_add]

theorem parseSlab_eq_ok_iff {data : Bytes} {view : SlabView} :
    parseSlab data = .ok view ↔ ∃ window, view.Describes data window := by
  constructor
  · intro h
    have hsteps := h
    unfold parseSlab at hsteps
    -- Header, length check, loop: each step succeeded.
    rcases bind_eq_ok_iff.1 hsteps with ⟨⟨header, c⟩, hh, hsteps⟩
    dsimp only at hsteps
    split at hsteps
    · cases hsteps
    rename_i hne
    have hlen := not_not.1 hne
    rcases (parseSlabHeader_decodes _).sound hh with ⟨hheader, hc⟩
    rcases bind_eq_ok_iff.1 hsteps with ⟨⟨records, c'⟩, hw, hview⟩
    cases hview
    rcases (walkRecords_eq_ok_iff (totalLength_eq_buf hh hlen)).1 hw with ⟨_, rfl, hwalked⟩
    have hdata := hc.2
    rw [Wire.Cursor.remaining_start, hwalked.consumes.2] at hdata
    refine ⟨c'.remaining, hheader, hlen, hwalked.inRange, hdata, ?_, rfl, hwalked.pos_eq hh⟩
    rw [Wire.Cursor.length_remaining, hwalked.window, Nat.zero_add]
  -- Conversely the header is read from the front and the records are walked over behind it.
  · rintro ⟨window, h⟩
    obtain ⟨c, hh, hrem⟩ := (parseSlabHeader_decodes _).run h.header
      (c := .start data) (by rw [Wire.Cursor.remaining_start, ← h.wire])
    rcases Wire.Cursor.Consumes.of_append hrem with ⟨c', hc', hrem'⟩
    have hwalked : Walked view.header c 0 view.dropRecords c' := by
      refine ⟨h.dropRecords, hc', ?_⟩
      rw [← Wire.Cursor.length_remaining, hrem', h.length_window, Nat.zero_add]
    have hwalk : walkRecords view.header c 0 [] = .ok (view.dropRecords, c') :=
      (walkRecords_eq_ok_iff (totalLength_eq_buf hh h.totalLength)).2 ⟨_, rfl, hwalked⟩
    have hview : view = ⟨data, view.header, view.dropRecords, c'.pos⟩ := by
      rw [hwalked.pos_eq hh, ← h.solidWindowStart, ← h.bytes]
    rw [parseSlab_eq_walk hh h.totalLength, hwalk, hview]
    rfl

/-- What the parser raises comes from the header, or it is a `CorruptError`. -/
theorem parseSlab_raises {data : Bytes} {e : Exn} (h : parseSlab data = .error e) :
    parseSlabHeader defaultSlabMaxBytes (.start data) = .error e ∨ e.IsCorrupt := by
  cases hh : parseSlabHeader defaultSlabMaxBytes (.start data) with
  | error e' =>
      left
      unfold parseSlab at h
      rw [hh] at h
      cases h
      rfl
  | ok r =>
      right
      have hok : parseSlabHeader defaultSlabMaxBytes (.start data) = .ok (r.1, r.2) := hh
      by_cases hlen : r.1.totalLength = data.length
      · rw [parseSlab_eq_walk hok hlen] at h
        cases hw : walkRecords r.1 r.2 0 [] with
        | error e' =>
            rw [hw] at h
            cases h
            exact walkRecords_raises (totalLength_eq_buf hok hlen) hw
        | ok out =>
            rw [hw] at h
            cases h
      -- The header announces another length than the buffer has.
      · unfold parseSlab at h
        rw [hh] at h
        dsimp only [bind, Except.bind] at h
        rw [if_pos hlen] at h
        cases h
        exact Exn.isCorrupt_corrupt _

theorem parseSlab_isParseError {data : Bytes} {e : Exn} (h : parseSlab data = .error e) :
    e.IsParseError := by
  rcases parseSlab_raises h with hheader | he
  · exact (parseSlabHeader_ensures _).raises hheader
  · exact he.isParseError

end LimniFs
