import LimniFs.FormatTypes

/-!
# History — the history section

A non-empty log of operations.  Each entry carries an operation byte, a timestamp, the roots of the
images it was derived from and a parameter blob.
-/

namespace LimniFs

open Wire

def historySectionVersion : Nat := 1
def defaultHistoryParamsMaxBytes : Nat := 4 * 1024
def opExtended : Nat := 0xFF
def historyEntryFixedLen : Nat := 1 + 8 + 4

inductive HistoryOp
  | build
  | delta
  | flatten
  | turnover
  | deepen
  deriving DecidableEq, Repr

namespace HistoryOp

def value : HistoryOp → Nat
  | .build => 0x01
  | .delta => 0x02
  | .flatten => 0x03
  | .turnover => 0x04
  | .deepen => 0x05

def fromByte (byte : Nat) : Option HistoryOp :=
  [build, delta, flatten, turnover, deepen].find? fun op => op.value = byte

theorem fromByte_eq_some_iff {byte : Nat} {op : HistoryOp} :
    fromByte byte = some op ↔ op.value = byte := by
  constructor
  · intro h
    simpa using List.find?_some h
  · rintro rfl
    cases op <;> decide

theorem value_ne_extended (op : HistoryOp) : op.value ≠ opExtended := by
  cases op <;> decide

theorem value_lt (op : HistoryOp) : op.value < 2 ^ 8 := by
  cases op <;> decide

end HistoryOp

structure HistoryEntry where
  op : HistoryOp
  timestampNs : Nat
  inputs : List ManifestRoot
  params : Bytes
  deriving DecidableEq

structure History where
  entries : List HistoryEntry
  deriving DecidableEq

/-- The operation of an entry, or the feature the reader does not implement. -/
def parseHistoryOp (index opByte : Nat) : Except Exn HistoryOp :=
  -- `0xFF` announces an extended opcode and has a message of its own.
  if opByte = opExtended then
    .error (.unsupportedFeature s!"history entry {index}: op 0xFF (extended opcode, post-v1)")
  else
    match HistoryOp.fromByte opByte with
    | some op => .ok op
    | none => .error (.unsupportedFeature (s!"history entry {index}: op 0x{formatHex 2 opByte} " ++
        "is reserved (not in 0x01..0x05)"))

/-- The roots cut from `inputs_bytes` in `count` chunks of 32 bytes, from `chunkOffset` on. -/
def chunkInputs (inputsBytes : Bytes) : Nat → Nat → Except Exn (List ManifestRoot)
  | _, 0 => .ok []
  | chunkOffset, count + 1 => do
      let root ← ManifestRoot.make ((inputsBytes.take (chunkOffset + 32)).drop chunkOffset)
      let roots ← chunkInputs inputsBytes (chunkOffset + 32) count
      return root :: roots

def parseHistoryEntry (maxParamsBytes index : Nat) : Parser HistoryEntry := do
  let opByte ← readU8
  let op ← parseHistoryOp index opByte
  let timestampNs ← readU64Le
  let inputCount ← readU32Le
  requireRemaining (inputCount * 32)
  let inputsBytes ← read (inputCount * 32)
  let inputs ← chunkInputs inputsBytes 0 inputCount
  let paramsLen ← readU32Le
  raiseIf (paramsLen > maxParamsBytes)
    (.corrupt (s!"history entry {index}: params_len {paramsLen} exceeds " ++
      s!"ceiling {maxParamsBytes}"))
  let params ← read paramsLen
  return { op, timestampNs, inputs, params }

def parseHistorySection (maxParamsBytes : Nat) : Parser History := do
  let sectionVersion ← readU8
  raiseIf (sectionVersion ≠ historySectionVersion)
    (.unsupportedFeature (s!"history section version {sectionVersion} " ++
      s!"(supported: {historySectionVersion})"))
  let entryCount ← readU32Le
  raiseIf (entryCount = 0)
    (.corrupt "history entry_count is 0 (every image must have at least the build entry)")
  -- Each entry needs at least its fixed part and the `params_len` field.
  requireRemaining (entryCount * (historyEntryFixedLen + 4))
  let entries ← repeatIndexed (parseHistoryEntry maxParamsBytes) 0 entryCount
  return { entries }

/-! ## Wire format -/

namespace HistoryEntry

structure InRange (maxParamsBytes : Nat) (entry : HistoryEntry) : Prop where
  timestampNs_lt : entry.timestampNs < 2 ^ 64
  inputs_lt : entry.inputs.length < 2 ^ 32
  params_lt : entry.params.length < 2 ^ 32
  params_le : entry.params.length ≤ maxParamsBytes

def wire (entry : HistoryEntry) : Bytes :=
  [UInt8.ofNat entry.op.value] ++ toLe 8 entry.timestampNs ++ toLe 4 entry.inputs.length ++
    entry.inputs.flatMap ManifestRoot.bytes ++ toLe 4 entry.params.length ++ entry.params

theorem length_wire_ge (entry : HistoryEntry) :
    historyEntryFixedLen + 4 ≤ entry.wire.length := by
  simp [wire, historyEntryFixedLen]
  omega

end HistoryEntry

namespace History

structure InRange (maxParamsBytes : Nat) (history : History) : Prop where
  length_lt : history.entries.length < 2 ^ 32
  length_ne : history.entries.length ≠ 0
  entries : ∀ entry ∈ history.entries, entry.InRange maxParamsBytes

def wire (history : History) : Bytes :=
  [UInt8.ofNat historySectionVersion] ++ toLe 4 history.entries.length ++
    history.entries.flatMap HistoryEntry.wire

end History

theorem parseHistoryOp_eq_ok_iff {index opByte : Nat} {op : HistoryOp} :
    parseHistoryOp index opByte = .ok op ↔ op.value = opByte := by
  unfold parseHistoryOp
  split
  -- The extended opcode is no operation.
  · rename_i h
    constructor
    · intro hop
      cases hop
    · intro hop
      exact absurd (hop.trans h) op.value_ne_extended
  · rw [← HistoryOp.fromByte_eq_some_iff]
    cases HistoryOp.fromByte opByte <;> simp

theorem length_flatMap_roots (roots : List ManifestRoot) :
    (roots.flatMap ManifestRoot.bytes).length = roots.length * 32 := by
  induction roots with
  | nil =>
      rfl
  | cons root roots ih =>
      have hroot : root.bytes.length = 32 := root.length_bytes
      simp only [List.flatMap_cons, List.length_append, hroot, ih, List.length_cons]
      omega

private theorem chunkInputs_from {inputsBytes : Bytes} {count chunkOffset : Nat}
    {roots : List ManifestRoot} (hlen : inputsBytes.length = chunkOffset + count * 32) :
    chunkInputs inputsBytes chunkOffset count = .ok roots ↔
      roots.length = count ∧ inputsBytes.drop chunkOffset = roots.flatMap ManifestRoot.bytes := by
  induction count generalizing chunkOffset roots with
  | zero =>
      have hdrop : inputsBytes.drop chunkOffset = [] :=
        List.drop_eq_nil_of_le (by omega)
      cases roots <;> simp [chunkInputs, hdrop]
  | succ count ih =>
      -- One chunk is cut off at the offset; the rest are cut from the next offset on.
      have hlen' : inputsBytes.length = chunkOffset + 32 + count * 32 := by
        omega
      have hchunk : (inputsBytes.take (chunkOffset + 32)).drop chunkOffset =
          (inputsBytes.drop chunkOffset).take 32 := by
        simp [List.drop_take]
      have hsplit : (inputsBytes.drop chunkOffset).take 32 ++ inputsBytes.drop (chunkOffset + 32) =
          inputsBytes.drop chunkOffset := by
        calc
          (inputsBytes.drop chunkOffset).take 32 ++ inputsBytes.drop (chunkOffset + 32)
              = (inputsBytes.drop chunkOffset).take 32 ++
                  (inputsBytes.drop chunkOffset).drop 32 := by rw [List.drop_drop]
          _ = inputsBytes.drop chunkOffset := List.take_append_drop _ _
      simp only [chunkInputs, bind_eq_ok_iff, ManifestRoot.make_eq_ok_iff, ih hlen', hchunk]
      constructor
      · rintro ⟨root, hroot, rest, ⟨hrest, hbytes⟩, h⟩
        cases h
        rw [← hsplit, hroot, hbytes]
        exact ⟨by simp [hrest], rfl⟩
      · rintro ⟨hroots, hbytes⟩
        cases roots with
        | nil =>
            simp at hroots
        | cons root rest =>
            rw [List.flatMap_cons, ← hsplit] at hbytes
            have hroot : root.bytes.length = 32 := root.length_bytes
            have htake : ((inputsBytes.drop chunkOffset).take 32).length = root.bytes.length := by
              rw [hroot, List.length_take, List.length_drop]
              omega
            -- The first chunk and the first root have one width.
            rcases List.append_inj hbytes htake with ⟨hhead, hrest⟩
            exact ⟨root, hhead, rest, ⟨by simpa using hroots, hrest⟩, rfl⟩

/-- Cutting a byte string of `count` chunks gives the roots it is the concatenation of. -/
theorem chunkInputs_eq_ok_iff {inputsBytes : Bytes} {count : Nat} {roots : List ManifestRoot}
    (hlen : inputsBytes.length = count * 32) :
    chunkInputs inputsBytes 0 count = .ok roots ↔
      roots.length = count ∧ inputsBytes = roots.flatMap ManifestRoot.bytes := by
  rw [chunkInputs_from (by simpa using hlen), List.drop_zero]

theorem parseHistoryEntry_decodes (maxParamsBytes index : Nat) :
    Decodes (parseHistoryEntry maxParamsBytes index) (HistoryEntry.InRange maxParamsBytes)
      HistoryEntry.wire := by
  apply Wire.Decodes.record
  · apply Wire.Decodes.field (fun entry : HistoryEntry => entry.op.value) readU8_decodes
    · exact fun entry _ _ => entry.op.value_lt
    intro opByte _
    apply Wire.Decodes.field HistoryEntry.op Wire.Decodes.lift
    · exact fun entry _ hk => parseHistoryOp_eq_ok_iff.2 hk.2
    intro op hop
    rcases parseHistoryOp_eq_ok_iff.1 hop with rfl
    apply Wire.Decodes.field HistoryEntry.timestampNs readU64Le_decodes
    · exact fun entry hentry _ => hentry.timestampNs_lt
    intro timestampNs htimestamp
    apply Wire.Decodes.field (fun entry : HistoryEntry => entry.inputs.length) readU32Le_decodes
    · exact fun entry hentry _ => hentry.inputs_lt
    intro inputCount hcount
    -- What is left holds the inputs at least, so the size check passes on a whole entry.
    apply Wire.Decodes.guard (Exn.isTruncated_truncated · _)
    · apply Wire.Decodes.field
        (fun entry : HistoryEntry => entry.inputs.flatMap ManifestRoot.bytes)
        (read_decodes (inputCount * 32))
      · rintro entry - ⟨-, rfl⟩
        exact length_flatMap_roots entry.inputs
      intro inputsBytes hlen
      apply Wire.Decodes.field HistoryEntry.inputs Wire.Decodes.lift
      · rintro entry - ⟨⟨-, hinputs⟩, hbytes⟩
        exact (chunkInputs_eq_ok_iff hlen).2 ⟨hinputs, hbytes.symm⟩
      intro inputs hinputs
      -- The roots determine the bytes they were cut from.
      rcases (chunkInputs_eq_ok_iff hlen).1 hinputs with ⟨rfl, rfl⟩
      apply Wire.Decodes.field (fun entry : HistoryEntry => entry.params.length)
        readU32Le_decodes
      · exact fun entry hentry _ => hentry.params_lt
      intro paramsLen hparams
      apply Wire.Decodes.check
      · rintro entry hentry ⟨-, rfl⟩
        exact Nat.not_lt.2 hentry.params_le
      intro hmax
      apply Wire.Decodes.field HistoryEntry.params (read_decodes paramsLen)
      · exact fun entry _ hk => hk.2
      rintro params rfl
      apply Wire.Decodes.done ⟨htimestamp, hcount, hparams, Nat.not_lt.1 hmax⟩
      · exact ⟨⟨⟨⟨⟨⟨⟨⟨trivial, rfl⟩, rfl⟩, rfl⟩, rfl⟩, rfl⟩, rfl⟩, rfl⟩, rfl⟩
      · rintro ⟨_, _, _, _⟩ - ⟨⟨⟨⟨⟨⟨⟨-, rfl⟩, rfl⟩, -⟩, -⟩, rfl⟩, -⟩, rfl⟩
        rfl
    · rintro entry ⟨-, -, rfl⟩
      simp only [List.length_append, length_flatMap_roots]
      omega
  · intro entry _
    simp [HistoryEntry.wire]

theorem parseHistorySection_decodes (maxParamsBytes : Nat) :
    Decodes (parseHistorySection maxParamsBytes) (History.InRange maxParamsBytes)
      History.wire := by
  apply Wire.Decodes.record
  · apply Wire.Decodes.expect historySectionVersion readU8_decodes (by decide)
    apply Wire.Decodes.field (fun history : History => history.entries.length) readU32Le_decodes
    · exact fun history hhistory _ => hhistory.length_lt
    intro entryCount hcount
    apply Wire.Decodes.check
    · rintro history hhistory ⟨-, rfl⟩
      exact hhistory.length_ne
    intro hne
    apply Wire.Decodes.guard (Exn.isTruncated_truncated · _)
    · apply Wire.Decodes.field History.entries
        (Wire.Decodes.repeatIndexed (parseHistoryEntry_decodes maxParamsBytes) entryCount 0)
      · exact fun history hhistory hk => ⟨hk.2, hhistory.entries⟩
      rintro entries ⟨rfl, hentries⟩
      apply Wire.Decodes.done ⟨hcount, hne, hentries⟩
      · exact ⟨⟨trivial, rfl⟩, rfl⟩
      · rintro ⟨_⟩ - ⟨-, rfl⟩
        rfl
    · rintro history ⟨-, -, rfl⟩
      rw [List.append_nil]
      exact Wire.Decodes.length_flatMap_ge fun entry _ => entry.length_wire_ge
  · intro history _
    simp [History.wire]

/-! ## What the parsers raise -/

theorem parseHistoryOp_ensures (index opByte : Nat) :
    Ensures (fun _ => True) (liftM (parseHistoryOp index opByte) : Parser HistoryOp) := by
  apply Wire.Ensures.lift
  · exact fun _ _ => trivial
  · intro e h
    unfold parseHistoryOp at h
    split at h
    · cases h
      exact Exn.isParseError_parse _
    · split at h
      · cases h
      · cases h
        exact Exn.isParseError_parse _

/-- Chunks of 32 bytes always make a root, so the width check never fails. -/
theorem chunkInputs_isOk {inputsBytes : Bytes} {count chunkOffset : Nat}
    (hlen : inputsBytes.length = chunkOffset + count * 32) :
    ∃ roots, chunkInputs inputsBytes chunkOffset count = .ok roots := by
  -- The offset advances by one chunk a round, so the induction is for every offset.
  induction count generalizing chunkOffset with
  | zero =>
      exact ⟨[], rfl⟩
  | succ count ih =>
      have hchunk : ((inputsBytes.take (chunkOffset + 32)).drop chunkOffset).length = 32 := by
        simp only [List.length_drop, List.length_take]
        omega
      rcases @ih (chunkOffset + 32) (by omega) with ⟨roots, hroots⟩
      exact ⟨⟨_, hchunk⟩ :: roots, bind_eq_ok_iff.2 ⟨_, ManifestRoot.make_eq_ok_iff.2 rfl,
        bind_eq_ok_iff.2 ⟨roots, hroots, rfl⟩⟩⟩

theorem parseHistoryEntry_ensures (maxParamsBytes index : Nat) :
    Ensures (HistoryEntry.InRange maxParamsBytes) (parseHistoryEntry maxParamsBytes index) := by
  refine Wire.Ensures.valid (P := fun _ => True) ?_ (parseHistoryEntry_decodes maxParamsBytes index)
  apply Wire.Ensures.bind readU8_ensures
  intro opByte _
  apply Wire.Ensures.bind (parseHistoryOp_ensures index opByte)
  intro op _
  apply Wire.Ensures.bind readU64Le_ensures
  intro timestampNs _
  apply Wire.Ensures.bind readU32Le_ensures
  intro inputCount _
  apply Wire.Ensures.guard (fun _ => Exn.isParseError_parse _)
  apply Wire.Ensures.bind (read_ensures (inputCount * 32))
  intro inputsBytes hlen
  -- The width guard of `ManifestRoot` is never reached: the chunks have 32 bytes.
  rcases @chunkInputs_isOk inputsBytes inputCount 0 (by simpa using hlen) with ⟨inputs, hinputs⟩
  rw [hinputs]
  apply Wire.Ensures.bind (Wire.Ensures.pure (a := inputs) (P := fun _ => True) trivial)
  intro inputs _
  apply Wire.Ensures.bind readU32Le_ensures
  intro paramsLen _
  apply Wire.Ensures.raiseIf (fun _ => Exn.isParseError_parse _)
  intro _
  apply Wire.Ensures.bind (read_ensures paramsLen)
  intro params _
  exact Wire.Ensures.pure trivial

theorem parseHistorySection_ensures (maxParamsBytes : Nat) :
    Ensures (History.InRange maxParamsBytes) (parseHistorySection maxParamsBytes) := by
  refine Wire.Ensures.valid (P := fun _ => True) ?_ (parseHistorySection_decodes maxParamsBytes)
  apply Wire.Ensures.bind readU8_ensures
  intro sectionVersion _
  apply Wire.Ensures.raiseIf (fun _ => Exn.isParseError_parse _)
  intro _
  apply Wire.Ensures.bind readU32Le_ensures
  intro entryCount _
  apply Wire.Ensures.raiseIf (fun _ => Exn.isParseError_parse _)
  intro _
  apply Wire.Ensures.guard (fun _ => Exn.isParseError_parse _)
  apply Wire.Ensures.bind
    (Wire.Ensures.repeatIndexed (parseHistoryEntry_ensures maxParamsBytes) entryCount 0)
  intro entries _
  exact Wire.Ensures.pure trivial

end LimniFs
