import LimniFs.FormatTypes
import Mathlib.Data.String.Basic

/-!
# DirectoryNode — the leaves of the directory tree

A version byte, a u32 count and entries whose names are non-empty, free of `/` and NUL, and
strictly increasing.  Python compares the decoded names code point by code point, which is the
order of `String` here.
-/

namespace LimniFs

open Wire

def directoryNodeVersion : Nat := 1

namespace EntryType

def file : Nat := 0x01
def directory : Nat := 0x02
def symlink : Nat := 0x03
def special : Nat := 0x04

def isValid (value : Nat) : Bool :=
  value ∈ [file, directory, symlink, special]

end EntryType

structure DirEntry where
  name : String
  inodeNumber : Nat
  entryType : Nat
  deriving DecidableEq

structure DirectoryNode where
  version : Nat
  entries : List DirEntry
  deriving DecidableEq

section Parser

variable [UnicodeData]

/-- One round of the entry loop; `prevName` is the name of the entry before. -/
def parseDirEntry (i : Nat) (prevName : Option String) : Parser (DirEntry × Option String) := do
  let nameLen ← readU32Le
  let nameBytes ← read nameLen
  raiseIf (nameBytes = []) (.corrupt s!"directory node entry {i}: empty name")
  -- The two separators are looked for in the bytes, before they are known to be UTF-8.
  raiseIf (0x2F ∈ nameBytes) (.corrupt s!"directory node entry {i}: name contains '/'")
  raiseIf (0x00 ∈ nameBytes) (.corrupt s!"directory node entry {i}: name contains NUL byte")
  let name ← decodeText nameBytes s!"directory node entry {i}: name is not valid UTF-8"
  -- `prev_name is not None and prev_name >= name`
  raiseIf (∃ prev ∈ prevName, prev ≥ name)
    (.corrupt ("directory node: entries not sorted (" ++ reprStr (prevName.getD "") ++ " >= " ++
      reprStr name ++ ")"))
  let inodeNumber ← readU64Le
  let entryType ← readU8
  raiseIf (¬ EntryType.isValid entryType)
    (.corrupt s!"directory node entry {i}: invalid entry_type 0x{formatHex 2 entryType}")
  return ({ name, inodeNumber, entryType }, some name)

def parseDirectoryNode : Parser DirectoryNode := do
  let version ← readU8
  raiseIf (version ≠ directoryNodeVersion)
    (.unsupportedFeature s!"directory node version {version}")
  let entryCount ← readU32Le
  -- `prev_name` is `None` before the first entry.
  let entries ← collect parseDirEntry 0 entryCount none
  return { version, entries }

end Parser

/-! ## Wire format -/

namespace DirEntry

structure InRange (entry : DirEntry) : Prop where
  name_lt : (encodeUtf8 entry.name).length < 2 ^ 32
  name_ne : entry.name ≠ ""
  name_slash : '/' ∉ entry.name.toList
  name_nul : Char.ofNat 0 ∉ entry.name.toList
  inodeNumber_lt : entry.inodeNumber < 2 ^ 64
  entryType : EntryType.isValid entry.entryType

def wire (entry : DirEntry) : Bytes :=
  toLe 4 (encodeUtf8 entry.name).length ++ encodeUtf8 entry.name ++ toLe 8 entry.inodeNumber ++
    [UInt8.ofNat entry.entryType]

end DirEntry

namespace DirectoryNode

structure InRange (node : DirectoryNode) : Prop where
  version : node.version = directoryNodeVersion
  length_lt : node.entries.length < 2 ^ 32
  entries : ∀ entry ∈ node.entries, entry.InRange
  sorted : (node.entries.map DirEntry.name).Pairwise (· < ·)

def wire (node : DirectoryNode) : Bytes :=
  [UInt8.ofNat directoryNodeVersion] ++ toLe 4 node.entries.length ++
    node.entries.flatMap DirEntry.wire

end DirectoryNode

theorem slash_mem_iff {name : String} : 0x2F ∈ encodeUtf8 name ↔ '/' ∈ name.toList :=
  mem_encodeUtf8_iff (c := '/') (by decide)

theorem nul_mem_iff {name : String} : 0x00 ∈ encodeUtf8 name ↔ Char.ofNat 0 ∈ name.toList :=
  mem_encodeUtf8_iff (c := Char.ofNat 0) (by decide)

theorem EntryType.isValid_lt {value : Nat} (h : EntryType.isValid value) : value < 2 ^ 8 := by
  have hmem : value ∈ [file, directory, symlink, special] := by
    simpa [EntryType.isValid] using h
  simp only [file, directory, symlink, special, List.mem_cons, List.not_mem_nil, or_false] at hmem
  omega

/-- What the entry loop asks of an entry that comes after `prevName`. -/
def DirEntry.Follows (prevName : Option String) (entry : DirEntry) : Prop :=
  entry.InRange ∧ ∀ prev ∈ prevName, prev < entry.name

/-- A loop that compares each name with the one before admits the strictly increasing lists. -/
theorem admissible_follows_iff {prevName : Option String} {entries : List DirEntry} :
    Admissible DirEntry.Follows (fun _ entry => some entry.name) prevName entries ↔
      (∀ entry ∈ entries, entry.InRange) ∧ (entries.map DirEntry.name).Pairwise (· < ·) ∧
        ∀ prev ∈ prevName, ∀ entry ∈ entries, prev < entry.name := by
  induction entries generalizing prevName with
  | nil =>
      simp [Admissible]
  | cons entry entries ih =>
      constructor
      -- Comparing neighbours is enough: the order is transitive, and the induction hypothesis puts
      -- the head before the whole tail.
      · rintro ⟨⟨hentry, hprev⟩, hrest⟩
        rcases ih.1 hrest with ⟨hentries, hsorted, hnext⟩
        have hnext' : ∀ later ∈ entries, entry.name < later.name := hnext entry.name rfl
        have hnames : ((entry :: entries).map DirEntry.name).Pairwise (· < ·) :=
          List.pairwise_cons.2 ⟨List.forall_mem_map.2 hnext', hsorted⟩
        refine ⟨List.forall_mem_cons.2 ⟨hentry, hentries⟩, hnames, ?_⟩
        intro prev hp later hlater
        rcases List.mem_cons.1 hlater with rfl | hlater
        · exact hprev prev hp
        · exact lt_trans (hprev prev hp) (hnext' later hlater)
      -- Conversely the head is the name that the tail is compared with.
      · rintro ⟨hentries, hsorted, hprev⟩
        simp only [List.map_cons, List.pairwise_cons, List.forall_mem_map] at hsorted
        refine ⟨⟨hentries entry List.mem_cons_self,
          fun prev hp => hprev prev hp entry List.mem_cons_self⟩, ih.2 ⟨?_, hsorted.2, ?_⟩⟩
        · exact fun later hlater => hentries later (List.mem_cons_of_mem _ hlater)
        · rintro _ ⟨⟩ later hlater
          exact hsorted.1 later hlater

section Decodes

variable [UnicodeData]

theorem parseDirEntry_decodes (i : Nat) (prevName : Option String) :
    Decodes (parseDirEntry i prevName)
      (fun r => r.1.Follows prevName ∧ r.2 = some r.1.name)
      (fun r => r.1.wire) := by
  apply Wire.Decodes.record
  · apply Wire.Decodes.field
      (fun r : DirEntry × Option String => (encodeUtf8 r.1.name).length) readU32Le_decodes
    · exact fun r hr _ => hr.1.1.name_lt
    intro nameLen hlen
    apply Wire.Decodes.field
      (fun r : DirEntry × Option String => encodeUtf8 r.1.name) (read_decodes nameLen)
    · exact fun r _ hk => hk.2
    rintro nameBytes rfl
    apply Wire.Decodes.check
    · rintro r hr ⟨-, rfl⟩
      simpa using hr.1.1.name_ne
    intro hne
    apply Wire.Decodes.check
    · rintro r hr ⟨-, rfl⟩
      rw [slash_mem_iff]
      exact hr.1.1.name_slash
    intro hslash
    apply Wire.Decodes.check
    · rintro r hr ⟨-, rfl⟩
      rw [nul_mem_iff]
      exact hr.1.1.name_nul
    intro hnul
    apply Wire.Decodes.field (fun r : DirEntry × Option String => r.1.name) Wire.Decodes.lift
    · exact fun r _ hk => decodeText_eq_ok_iff.2 hk.2.symm
    intro name hname
    rcases decodeText_eq_ok_iff.1 hname with rfl
    -- The checks were on bytes; for the record they are facts about the name.
    rw [encodeUtf8_eq_nil] at hne
    rw [slash_mem_iff] at hslash
    rw [nul_mem_iff] at hnul
    apply Wire.Decodes.check
    -- An entry that follows is greater than the name before it.
    · rintro r hr ⟨-, rfl⟩ ⟨prev, hprev, hge⟩
      exact absurd (hr.1.2 prev hprev) (not_lt.2 hge)
    intro hsorted
    apply Wire.Decodes.field (fun r : DirEntry × Option String => r.1.inodeNumber)
      readU64Le_decodes
    · exact fun r hr _ => hr.1.1.inodeNumber_lt
    intro inodeNumber hnumber
    apply Wire.Decodes.field (fun r : DirEntry × Option String => r.1.entryType) readU8_decodes
    · exact fun r hr _ => EntryType.isValid_lt hr.1.1.entryType
    intro entryType _
    apply Wire.Decodes.check
    · rintro r hr ⟨-, rfl⟩
      exact not_not.2 hr.1.1.entryType
    intro hvalid
    apply Wire.Decodes.done
    · refine ⟨⟨⟨hlen, hne, hslash, hnul, hnumber, not_not.1 hvalid⟩, ?_⟩, rfl⟩
      intro prev hprev
      by_contra hlt
      exact hsorted ⟨prev, hprev, not_lt.1 hlt⟩
    · exact ⟨⟨⟨⟨⟨trivial, rfl⟩, rfl⟩, rfl⟩, rfl⟩, rfl⟩
    · rintro ⟨⟨_, _, _⟩, _⟩ ⟨-, hprev⟩ ⟨⟨⟨⟨-, -⟩, rfl⟩, rfl⟩, rfl⟩
      exact Prod.ext rfl hprev
  · intro r _
    simp [DirEntry.wire]

theorem parseDirectoryNode_decodes :
    Decodes parseDirectoryNode DirectoryNode.InRange DirectoryNode.wire := by
  apply Wire.Decodes.record
  · apply Wire.Decodes.expect directoryNodeVersion readU8_decodes (by decide)
    apply Wire.Decodes.field (fun node : DirectoryNode => node.entries.length) readU32Le_decodes
    · exact fun node hnode _ => hnode.length_lt
    intro entryCount hcount
    apply Wire.Decodes.field DirectoryNode.entries (Wire.Decodes.collect
      DirEntry.Follows (fun _ entry => some entry.name) DirEntry.wire parseDirEntry_decodes
      entryCount 0 none)
    · rintro node hnode ⟨-, hlen⟩
      exact ⟨hlen, admissible_follows_iff.2 ⟨hnode.entries, hnode.sorted, by simp⟩⟩
    rintro entries ⟨rfl, hadm⟩
    rcases admissible_follows_iff.1 hadm with ⟨hentries, hsorted, -⟩
    apply Wire.Decodes.done ⟨rfl, hcount, hentries, hsorted⟩
    · exact ⟨⟨trivial, rfl⟩, rfl⟩
    -- The version is kept in the record, and only one value is valid.
    · rintro ⟨_, _⟩ hnode ⟨-, rfl⟩
      have hversion := hnode.version
      dsimp only at hversion
      rw [hversion]
  · intro node _
    simp [DirectoryNode.wire]

/-! ## What the parsers raise -/

theorem parseDirEntry_ensures (i : Nat) (prevName : Option String) :
    Ensures (fun r => r.1.InRange) (parseDirEntry i prevName) := by
  refine (Wire.Ensures.valid (P := fun _ => True) ?_ (parseDirEntry_decodes i prevName)).weaken
    fun r hr => hr.1.1
  apply Wire.Ensures.bind readU32Le_ensures
  intro nameLen _
  apply Wire.Ensures.bind (read_ensures nameLen)
  intro nameBytes _
  apply Wire.Ensures.raiseIf (fun _ => Exn.isParseError_parse _)
  intro _
  apply Wire.Ensures.raiseIf (fun _ => Exn.isParseError_parse _)
  intro _
  apply Wire.Ensures.raiseIf (fun _ => Exn.isParseError_parse _)
  intro _
  apply Wire.Ensures.bind (decodeText_ensures nameBytes _)
  intro name _
  apply Wire.Ensures.raiseIf (fun _ => Exn.isParseError_parse _)
  intro _
  apply Wire.Ensures.bind readU64Le_ensures
  intro inodeNumber _
  apply Wire.Ensures.bind readU8_ensures
  intro entryType _
  apply Wire.Ensures.raiseIf (fun _ => Exn.isParseError_parse _)
  intro _
  exact Wire.Ensures.pure trivial

theorem parseDirectoryNode_ensures : Ensures DirectoryNode.InRange parseDirectoryNode := by
  refine Wire.Ensures.valid (P := fun _ => True) ?_ parseDirectoryNode_decodes
  apply Wire.Ensures.bind readU8_ensures
  intro version _
  apply Wire.Ensures.raiseIf (fun _ => Exn.isParseError_parse _)
  intro _
  apply Wire.Ensures.bind readU32Le_ensures
  intro entryCount _
  apply Wire.Ensures.bind (Wire.Ensures.collect parseDirEntry_ensures entryCount 0 none)
  intro entries _
  exact Wire.Ensures.pure trivial

end Decodes

end LimniFs
