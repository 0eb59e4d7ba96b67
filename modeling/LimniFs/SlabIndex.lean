import LimniFs.Locator

/-!
# SlabIndex — the slab index section

One entry per slab: its id and at least one locator.  A repeated slab id is corrupt.
-/

namespace LimniFs

open Wire

def slabIndexSectionVersion : Nat := 1
def slabIndexEntryFixedLen : Nat := 40 + 4

structure SlabIndexEntry where
  slabId : SlabId
  locators : List LocatorEntry
  deriving DecidableEq

structure SlabIndex where
  entries : List SlabIndexEntry
  deriving DecidableEq

/-- The first entry with the slab id. -/
def SlabIndex.find (index : SlabIndex) (slabId : SlabId) : Option SlabIndexEntry :=
  index.entries.find? fun entry => entry.slabId = slabId

/-- `(slab_id.ordinal, slab_id.hash_)` -/
def SlabIndexEntry.key (entry : SlabIndexEntry) : SlabKey :=
  (entry.slabId.ordinal, entry.slabId.hash)

section Parser

variable [UnicodeData]

/-- One round of the entry loop; `seen` holds the keys of the earlier entries. -/
def parseSlabIndexEntry (maxLocatorUriBytes index : Nat) (seen : List SlabKey) :
    Parser (SlabIndexEntry × List SlabKey) := do
  let ordinal ← readU64Le
  let hash ← read 32
  -- The ordinal is a u64 and the hash has 32 bytes, so this constructor never raises here.
  let slabId ← SlabId.make ordinal hash
  raiseIf ((slabId.ordinal, slabId.hash) ∈ seen)
    (.corrupt (s!"slab_index entry {index}: duplicate slab_id " ++
      s!"(ordinal {slabId.ordinal}, hash {bytesHex slabId.hash})"))
  let locatorCount ← readU32Le
  raiseIf (locatorCount = 0)
    (.corrupt (s!"slab_index entry {index}: slab_id (ordinal {slabId.ordinal}) " ++
      "declares zero locators (unreachable)"))
  let locators ← parseLocatorEntries locatorCount maxLocatorUriBytes
  return ({ slabId, locators }, (slabId.ordinal, slabId.hash) :: seen)

def parseSlabIndexSection (maxLocatorUriBytes : Nat) : Parser SlabIndex := do
  let sectionVersion ← readU8
  raiseIf (sectionVersion ≠ slabIndexSectionVersion)
    (.unsupportedFeature (s!"slab_index section version {sectionVersion} " ++
      s!"(supported: {slabIndexSectionVersion})"))
  let entryCount ← readU32Le
  -- Each entry needs at least `ENTRY_FIXED_LEN` bytes.
  requireRemaining (entryCount * slabIndexEntryFixedLen)
  let entries ← collect (parseSlabIndexEntry maxLocatorUriBytes) 0 entryCount []
  return { entries }

end Parser

/-! ## Wire format -/

namespace SlabIndexEntry

structure InRange [UnicodeData] (maxLocatorUriBytes : Nat) (entry : SlabIndexEntry) : Prop where
  locators_lt : entry.locators.length < 2 ^ 32
  locators_ne : entry.locators.length ≠ 0
  locators : ∀ locator ∈ entry.locators, locator.Accepted maxLocatorUriBytes

def wire (entry : SlabIndexEntry) : Bytes :=
  entry.slabId.toBytes ++ toLe 4 entry.locators.length ++ entry.locators.flatMap LocatorEntry.wire

theorem length_wire_ge (entry : SlabIndexEntry) :
    slabIndexEntryFixedLen ≤ entry.wire.length := by
  simp only [wire, List.length_append, SlabId.length_toBytes, length_toLe, slabIndexEntryFixedLen]
  omega

end SlabIndexEntry

namespace SlabIndex

structure InRange [UnicodeData] (maxLocatorUriBytes : Nat) (index : SlabIndex) : Prop where
  length_lt : index.entries.length < 2 ^ 32
  entries : ∀ entry ∈ index.entries, entry.InRange maxLocatorUriBytes
  nodup : (index.entries.map SlabIndexEntry.key).Nodup

def wire (index : SlabIndex) : Bytes :=
  [UInt8.ofNat slabIndexSectionVersion] ++ toLe 4 index.entries.length ++
    index.entries.flatMap SlabIndexEntry.wire

end SlabIndex

section Decodes

variable [UnicodeData]

theorem parseSlabIndexEntry_decodes (maxLocatorUriBytes index : Nat) (seen : List SlabKey) :
    Decodes (parseSlabIndexEntry maxLocatorUriBytes index seen)
      (fun r => (r.1.InRange maxLocatorUriBytes ∧ r.1.key ∉ seen) ∧ r.2 = r.1.key :: seen)
      (fun r => r.1.wire) := by
  apply Wire.Decodes.record
  · apply Wire.Decodes.field
      (fun r : SlabIndexEntry × List SlabKey => r.1.slabId.ordinal) readU64Le_decodes
    · exact fun r _ _ => r.1.slabId.ordinal_lt
    intro ordinal hordinal
    apply Wire.Decodes.field
      (fun r : SlabIndexEntry × List SlabKey => r.1.slabId.hash) (read_decodes 32)
    · exact fun r _ _ => r.1.slabId.length_hash
    intro hash hhash
    apply Wire.Decodes.field
      (fun r : SlabIndexEntry × List SlabKey => r.1.slabId) Wire.Decodes.lift
    · rintro r - ⟨⟨-, hord⟩, hh⟩
      exact SlabId.make_eq_ok_iff.2 ⟨hord.symm, hh.symm⟩
    intro slabId hslab
    rcases SlabId.make_eq_ok_iff.1 hslab with ⟨rfl, rfl⟩
    -- The duplicate check: what the loop asks of an entry is that its key is fresh.
    apply Wire.Decodes.check
    · rintro r hr ⟨-, rfl⟩
      exact hr.1.2
    intro hfresh
    apply Wire.Decodes.field
      (fun r : SlabIndexEntry × List SlabKey => r.1.locators.length) readU32Le_decodes
    · exact fun r hr _ => hr.1.1.locators_lt
    intro locatorCount hcount
    apply Wire.Decodes.check
    · rintro r hr ⟨-, rfl⟩
      exact hr.1.1.locators_ne
    intro hne
    apply Wire.Decodes.field
      (fun r : SlabIndexEntry × List SlabKey => r.1.locators)
      (parseLocatorEntries_decodes locatorCount maxLocatorUriBytes)
    · exact fun r hr hk => ⟨hk.2, hr.1.1.locators⟩
    rintro locators ⟨rfl, hlocators⟩
    apply Wire.Decodes.done ⟨⟨⟨hcount, hne, hlocators⟩, hfresh⟩, rfl⟩
    · exact ⟨⟨⟨⟨⟨trivial, rfl⟩, rfl⟩, rfl⟩, rfl⟩, rfl⟩
    · rintro ⟨⟨_, _⟩, _⟩ ⟨-, hseen⟩ ⟨⟨⟨-, rfl⟩, -⟩, rfl⟩
      exact Prod.ext rfl hseen
  · intro r _
    simp [SlabIndexEntry.wire, SlabId.toBytes]

theorem parseSlabIndexSection_decodes (maxLocatorUriBytes : Nat) :
    Decodes (parseSlabIndexSection maxLocatorUriBytes) (SlabIndex.InRange maxLocatorUriBytes)
      SlabIndex.wire := by
  apply Wire.Decodes.record
  · apply Wire.Decodes.expect slabIndexSectionVersion readU8_decodes (by decide)
    apply Wire.Decodes.field (fun index : SlabIndex => index.entries.length) readU32Le_decodes
    · exact fun index hindex _ => hindex.length_lt
    intro entryCount hcount
    apply Wire.Decodes.guard (Exn.isTruncated_truncated · _)
    · apply Wire.Decodes.field SlabIndex.entries (Wire.Decodes.collectFresh
        (SlabIndexEntry.InRange maxLocatorUriBytes) SlabIndexEntry.key SlabIndexEntry.wire
        (parseSlabIndexEntry_decodes maxLocatorUriBytes) entryCount)
      · rintro index hindex ⟨-, hlen⟩
        exact ⟨hlen, hindex.entries, hindex.nodup⟩
      rintro entries ⟨hlen, hentries, hnodup⟩
      apply Wire.Decodes.done ⟨hlen ▸ hcount, hentries, hnodup⟩
      · exact ⟨⟨trivial, hlen⟩, rfl⟩
      · rintro ⟨_⟩ - ⟨-, rfl⟩
        rfl
    -- Entries have at least their fixed part, so the size check passes on a whole section.
    · rintro index ⟨-, -, rfl⟩
      rw [List.append_nil]
      exact Wire.Decodes.length_flatMap_ge fun entry _ => entry.length_wire_ge
  · intro index _
    simp [SlabIndex.wire]

theorem parseSlabIndexEntry_ensures (maxLocatorUriBytes index : Nat)
    (seen : List SlabKey) :
    Ensures (fun _ => True) (parseSlabIndexEntry maxLocatorUriBytes index seen) := by
  apply Wire.Ensures.bind readU64Le_ensures
  intro ordinal hordinal
  apply Wire.Ensures.bind (read_ensures 32)
  intro hash hhash
  apply Wire.Ensures.bind (SlabId.make_ensures hordinal hhash)
  intro slabId _
  apply Wire.Ensures.raiseIf (fun _ => Exn.isParseError_parse _)
  intro _
  apply Wire.Ensures.bind readU32Le_ensures
  intro locatorCount _
  apply Wire.Ensures.raiseIf (fun _ => Exn.isParseError_parse _)
  intro _
  apply Wire.Ensures.bind (parseLocatorEntries_ensures locatorCount maxLocatorUriBytes)
  intro locators _
  exact Wire.Ensures.pure trivial

theorem parseSlabIndexSection_ensures (maxLocatorUriBytes : Nat) :
    Ensures (SlabIndex.InRange maxLocatorUriBytes) (parseSlabIndexSection maxLocatorUriBytes) := by
  refine Wire.Ensures.valid (P := fun _ => True) ?_
    (parseSlabIndexSection_decodes maxLocatorUriBytes)
  apply Wire.Ensures.bind readU8_ensures
  intro sectionVersion _
  apply Wire.Ensures.raiseIf (fun _ => Exn.isParseError_parse _)
  intro _
  apply Wire.Ensures.bind readU32Le_ensures
  intro entryCount _
  apply Wire.Ensures.guard (fun _ => Exn.isParseError_parse _)
  apply Wire.Ensures.bind
    (Wire.Ensures.collect (P := fun _ => True)
      (parseSlabIndexEntry_ensures maxLocatorUriBytes) entryCount 0 [])
  intro entries _
  exact Wire.Ensures.pure trivial

end Decodes

end LimniFs
