import LimniFs.DirectoryNode
import LimniFs.Wire.Search
import LimniFs.Wire.Utf8Order

/-!
# NameOrder — names in the order of their bytes

The parser of a directory node compares decoded names.  A reader that compares the bytes of the
names accepts the same nodes, because UTF-8 keeps the order of code points, and in what both accept
the bytes can be searched.
-/

namespace LimniFs

open Wire

/-- The bytes of the name. -/
def DirEntry.rawName (entry : DirEntry) : Bytes :=
  encodeUtf8 entry.name

/-- The name before, with its bytes. -/
def withRaw (prevName : Option String) : Option (String × Bytes) :=
  prevName.map fun name => (name, encodeUtf8 name)

theorem unsorted_withRaw_iff {prevName : Option String} {name : String} :
    (∃ p ∈ withRaw prevName, p.2 ≥ encodeUtf8 name) ↔ ∃ prev ∈ prevName, prev ≥ name := by
  cases prevName with
  | none =>
      simp [withRaw]
  | some prev =>
      have hle : encodeUtf8 prev ≥ encodeUtf8 name ↔ prev ≥ name := by
        rw [ge_iff_le, ge_iff_le, ← List.not_lt, ← not_lt, encodeUtf8_lt_iff]
      simpa [withRaw] using hle

section Bytewise

variable [UnicodeData]

/-- A round of the entry loop that compares the bytes of the names; the decoded name before is kept
for the message. -/
def parseDirEntryBytewise (i : Nat) (prev : Option (String × Bytes)) :
    Parser (DirEntry × Option (String × Bytes)) := do
  let nameLen ← readU32Le
  let nameBytes ← read nameLen
  raiseIf (nameBytes = []) (.corrupt s!"directory node entry {i}: empty name")
  raiseIf (0x2F ∈ nameBytes) (.corrupt s!"directory node entry {i}: name contains '/'")
  raiseIf (0x00 ∈ nameBytes) (.corrupt s!"directory node entry {i}: name contains NUL byte")
  let name ← decodeText nameBytes s!"directory node entry {i}: name is not valid UTF-8"
  raiseIf (∃ p ∈ prev, p.2 ≥ nameBytes)
    (.corrupt ("directory node: entries not sorted (" ++ reprStr ((prev.map Prod.fst).getD "") ++
      " >= " ++ reprStr name ++ ")"))
  let inodeNumber ← readU64Le
  let entryType ← readU8
  raiseIf (¬ EntryType.isValid entryType)
    (.corrupt s!"directory node entry {i}: invalid entry_type 0x{formatHex 2 entryType}")
  return ({ name, inodeNumber, entryType }, some (name, nameBytes))

def parseDirectoryNodeBytewise : Parser DirectoryNode := do
  let version ← readU8
  raiseIf (version ≠ directoryNodeVersion)
    (.unsupportedFeature s!"directory node version {version}")
  let entryCount ← readU32Le
  let entries ← collect parseDirEntryBytewise 0 entryCount none
  return { version, entries }

/-- A round does the same on the bytes as on the names. -/
theorem parseDirEntryBytewise_withRaw (i : Nat) (prevName : Option String) :
    parseDirEntryBytewise i (withRaw prevName) =
      (fun r => (r.1, withRaw r.2)) <$> parseDirEntry i prevName := by
  unfold parseDirEntryBytewise parseDirEntry
  simp only [map_bind]
  refine bind_congr fun nameLen => bind_congr fun nameBytes => ?_
  refine bind_congr fun _ => bind_congr fun _ => bind_congr fun _ => ?_
  apply liftM_bind_congr
  intro name hname
  -- From here on the bytes are those of the decoded name.
  rcases decodeText_eq_ok_iff.1 hname with rfl
  rw [raiseIf_congr unsorted_withRaw_iff]
  have hprev : (withRaw prevName).map Prod.fst = prevName := by
    cases prevName <;> rfl
  rw [hprev]
  simp only [map_pure]
  rfl

theorem parseDirectoryNodeBytewise_eq : parseDirectoryNodeBytewise = parseDirectoryNode := by
  unfold parseDirectoryNodeBytewise parseDirectoryNode
  have hloop := fun entryCount =>
    collect_map_state withRaw parseDirEntryBytewise_withRaw entryCount 0 none
  have hnone : withRaw none = none := rfl
  simp only [hnone] at hloop
  simp only [hloop]

/-- Comparing bytes instead of decoded names changes neither what is accepted nor what is returned
or raised.  In an accepted node the bytes of the names increase, so they differ from one another
and a binary search finds every one of them. -/
theorem directoryNode_bytewise :
    parseDirectoryNodeBytewise = parseDirectoryNode ∧
      ∀ c node c', parseDirectoryNode c = .ok (node, c') →
        c.Consumes node.wire c' ∧
        (node.entries.map DirEntry.rawName).Pairwise (· < ·) ∧
        (node.entries.map DirEntry.rawName).Nodup ∧
        ∀ raw entry, searchSorted DirEntry.rawName raw node.entries = some entry ↔
          entry ∈ node.entries ∧ entry.rawName = raw := by
  refine ⟨parseDirectoryNodeBytewise_eq, ?_⟩
  intro c node c' h
  rcases parseDirectoryNode_decodes.sound h with ⟨hnode, hc⟩
  have hsorted : (node.entries.map DirEntry.rawName).Pairwise (· < ·) := by
    rw [List.pairwise_map]
    exact (List.pairwise_map.1 hnode.sorted).imp encodeUtf8_lt
  refine ⟨hc, hsorted, hsorted.imp ?_, fun raw entry => searchSorted_eq_some_iff hsorted⟩
  rintro a b hlt rfl
  exact List.lt_irrefl a hlt

end Bytewise

end LimniFs
