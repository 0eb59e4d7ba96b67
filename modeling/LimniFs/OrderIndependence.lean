import LimniFs.Cli
import LimniFs.MetadataHash
import LimniFs.RoundTrip
import LimniFs.Wire.Reorder

/-!
# OrderIndependence — lookups that do not depend on the writer's order

The order of the records in a metadata blob is the writer's choice and readers must not rely on it.
The lookup by number and the report take the first of several inodes with one number, though, and
the parser does not refuse them, so the promise is kept by the blobs in which a number belongs to
one inode.
-/

namespace LimniFs

open Wire

/-! ## One blob in two orders -/

namespace MetadataBlob

/-- The blobs have the same inodes and the same directory nodes, each in some order. -/
structure Perm (a b : MetadataBlob) : Prop where
  inodes : a.inodes.Perm b.inodes
  dirNodes : a.dirNodes.Perm b.dirNodes

/-- Inodes with one number are one inode. -/
def NumbersIdentify (blob : MetadataBlob) : Prop :=
  ∀ a ∈ blob.inodes, ∀ b ∈ blob.inodes, a.number = b.number → a = b

variable {a b : MetadataBlob}

theorem inodeByNumber_eq_of_perm (h : a.Perm b) (hnum : a.NumbersIdentify) (number : Nat) :
    a.inodeByNumber number = b.inodeByNumber number :=
  find?_key_eq_of_perm h.inodes hnum number

theorem rootInodeNumber_eq_of_perm (h : a.Perm b) : a.rootInodeNumber = b.rootInodeNumber := by
  -- The nodes refer to the same numbers, so the candidates are the same in another order.
  have href : ∀ number, number ∈ a.referenced ↔ number ∈ b.referenced := by
    intro number
    simp only [mem_referenced_iff, h.dirNodes.mem_iff]
  have hperm : (a.rootCandidates.map Inode.number).Perm (b.rootCandidates.map Inode.number) := by
    unfold rootCandidates
    simp only [href]
    exact (h.inodes.filter _).map _
  apply Option.ext
  intro number
  rw [rootInodeNumber_eq_some_iff, rootInodeNumber_eq_some_iff]
  constructor
  · intro heq
    exact (List.singleton_perm.1 (heq ▸ hperm)).symm
  · intro heq
    exact List.perm_singleton.1 (heq ▸ hperm)

end MetadataBlob

/-! ## The report -/

theorem DirNodeSummary.le_iff {a b : DirNodeSummary} :
    a.le b ↔ a.entries < b.entries ∨ a.entries = b.entries ∧ a.first ≤ b.first := by
  simp [DirNodeSummary.le]

theorem DirNodeSummary.le_trans {a b c : DirNodeSummary} (hab : a.le b) (hbc : b.le c) :
    a.le c := by
  rw [le_iff] at *
  rcases hab with hab | ⟨hab, hfirst⟩
  · rcases hbc with hbc | ⟨hbc, -⟩
    · exact .inl (Nat.lt_trans hab hbc)
    · exact .inl (hbc ▸ hab)
  · rcases hbc with hbc | ⟨hbc, hfirst'⟩
    · exact .inl (hab ▸ hbc)
    · exact .inr ⟨hab.trans hbc, String.le_trans hfirst hfirst'⟩

theorem DirNodeSummary.le_total (a b : DirNodeSummary) : a.le b || b.le a := by
  rw [Bool.or_eq_true, le_iff, le_iff]
  rcases Nat.lt_trichotomy a.entries b.entries with hlt | heq | hgt
  · exact .inl (.inl hlt)
  · rcases String.le_total a.first b.first with hle | hle
    · exact .inl (.inr ⟨heq, hle⟩)
    · exact .inr (.inr ⟨heq.symm, hle⟩)
  · exact .inr (.inl hgt)

/-- The key of the sort is all that the report says of a directory node. -/
theorem DirNodeSummary.le_antisymm {a b : DirNodeSummary} (hab : a.le b) (hba : b.le a) :
    a = b := by
  rw [le_iff] at *
  rcases hab with hab | ⟨hab, hfirst⟩
  · rcases hba with hba | ⟨hba, -⟩ <;> omega
  · rcases hba with hba | ⟨-, hfirst'⟩
    · omega
    · cases a
      cases b
      simp only [DirNodeSummary.mk.injEq]
      exact ⟨hab, String.le_antisymm hfirst hfirst'⟩

namespace MetadataBlob

variable {a b : MetadataBlob}

theorem summary_eq_of_perm (h : a.Perm b) (hnum : a.NumbersIdentify) : a.summary = b.summary := by
  have hinodes : (a.inodes.map Inode.summary).mergeSort (fun x y => x.number ≤ y.number) =
      (b.inodes.map Inode.summary).mergeSort fun x y => x.number ≤ y.number := by
    apply mergeSort_eq_of_perm (h.inodes.map _)
    · intro x y z hxy hyz
      simp only [decide_eq_true_eq] at *
      exact Nat.le_trans hxy hyz
    · intro x y
      simpa using Nat.le_total x.number y.number
    -- The sort keeps the order of inodes with one number; here these are one inode.
    · simp only [List.forall_mem_map, decide_eq_true_eq]
      intro x hx y hy hxy hyx
      rw [hnum x hx y hy (Nat.le_antisymm hxy hyx)]
  have hdirNodes : (a.dirNodes.map DirectoryNode.summary).mergeSort DirNodeSummary.le =
      (b.dirNodes.map DirectoryNode.summary).mergeSort DirNodeSummary.le :=
    mergeSort_eq_of_perm (h.dirNodes.map _) (fun _ _ _ => DirNodeSummary.le_trans)
      DirNodeSummary.le_total (fun _ _ _ _ => DirNodeSummary.le_antisymm)
  simp only [summary, h.inodes.length_eq, h.dirNodes.length_eq, rootInodeNumber_eq_of_perm h,
    hinodes, hdirNodes]

/-! ## Directory nodes -/

/-- No two of the directory nodes have distinct bytes with one hash. -/
def NoNodeCollision [Blake3] (blob : MetadataBlob) : Prop :=
  ∀ x ∈ blob.dirNodes, ∀ y ∈ blob.dirNodes, ¬ Collision hashSection x.wire y.wire

theorem dirNodeByHash_eq_of_perm [UnicodeData] [Blake3] (h : a.Perm b)
    (hnodes : ∀ node ∈ a.dirNodes, node.InRange) (hcol : a.NoNodeCollision) (hash : Bytes) :
    a.dirNodeByHash hash = b.dirNodeByHash hash := by
  have hnodes' : ∀ node ∈ b.dirNodes, node.InRange := fun node hnode =>
    hnodes node (h.dirNodes.mem_iff.2 hnode)
  rw [dirNodeByHash_eq hnodes, dirNodeByHash_eq hnodes']
  congr 1
  apply find?_key_eq_of_perm h.dirNodes
  intro x hx y hy hdigest
  -- One hash means one encoding, and one encoding one node.
  rcases eq_or_collision hdigest with hwire | hcollision
  · exact parseDirectoryNode_decodes.wire_inj (hnodes x hx) (hnodes y hy) hwire
  · exact absurd hcollision (hcol x hx y hy)

end MetadataBlob

/-! ## Reordered bytes -/

section Reordered

variable [UnicodeData] {maxInlineBytes : Nat} {records records' : BlobRecords}
variable {blob blob' : MetadataBlob}

/-- Reordered records spell the reordered blob. -/
theorem BlobRecords.Spell.of_perm (h : records.Spell maxInlineBytes blob)
    (hinodes : records'.inodes.Perm records.inodes)
    (hdirNodes : records'.dirNodes.Perm records.dirNodes) :
    ∃ blob' : MetadataBlob, records'.Spell maxInlineBytes blob' ∧ blob.Perm blob' := by
  rcases List.perm_comp_forall₂ hinodes h.inodes with ⟨inodes, hspell, hperm⟩
  rcases List.perm_comp_forall₂ hdirNodes h.dirNodes with ⟨dirNodes, hspell', hperm'⟩
  refine ⟨⟨inodes, dirNodes⟩, ⟨?_, hspell, ?_, hspell'⟩, hperm.symm, hperm'.symm⟩
  · rw [hinodes.length_eq]
    exact h.inodes_lt
  · rw [hdirNodes.length_eq]
    exact h.dirNodes_lt

/-- Every order of the inodes is the order of the inodes in some reordered records. -/
theorem BlobRecords.Spell.exists_perm (h : records.Spell maxInlineBytes blob)
    {inodes : List Inode} (hperm : blob.inodes.Perm inodes) :
    ∃ records' : BlobRecords, records'.inodes.Perm records.inodes ∧
      records'.dirNodes = records.dirNodes ∧
      records'.Spell maxInlineBytes ⟨inodes, blob.dirNodes⟩ := by
  have hcomp : Relation.Comp (List.Forall₂ (ReadsWhole (parseInode maxInlineBytes))) List.Perm
      records.inodes inodes := ⟨blob.inodes, h.inodes, hperm⟩
  rw [List.forall₂_comp_perm_eq_perm_comp_forall₂] at hcomp
  rcases hcomp with ⟨inodeRecords, hrecords, hspell⟩
  refine ⟨⟨inodeRecords, records.dirNodes⟩, hrecords.symm, rfl, ?_, hspell, h.dirNodes_lt,
    h.dirNodes⟩
  rw [← hrecords.length_eq]
  exact h.inodes_lt

theorem BlobRecords.Spell.dirNodes_inRange (h : records.Spell maxInlineBytes blob) :
    ∀ node ∈ blob.dirNodes, node.InRange :=
  (forall₂_directoryNode_iff.1 h.dirNodes).1

variable [Blake3]

/-- The two blobs give one answer to every lookup and one report. -/
structure SameAnswers (blob blob' : MetadataBlob) : Prop where
  inodeByNumber : ∀ number, blob'.inodeByNumber number = blob.inodeByNumber number
  rootInodeNumber : blob'.rootInodeNumber = blob.rootInodeNumber
  summary : blob'.summary = blob.summary
  dirNodeByHash : blob.NoNodeCollision →
    ∀ hash, blob'.dirNodeByHash hash = blob.dirNodeByHash hash

/-- However the records of the accepted blob in front of `buf` are reordered, the bytes are accepted
again, and the blob they give answers as the first one does. -/
def OrderIndependent (maxInlineBytes : Nat) (buf : Bytes) : Prop :=
  ∀ (records records' : BlobRecords) (blob : MetadataBlob) (tail : Bytes),
    records.Spell maxInlineBytes blob → buf = records.wire ++ tail →
    records'.inodes.Perm records.inodes → records'.dirNodes.Perm records.dirNodes →
    ∃ blob' c, parseMetadataBlob maxInlineBytes (.start (records'.wire ++ tail)) = .ok (blob', c) ∧
      SameAnswers blob blob'

/-- Two inodes with one number can each be brought to the front, where the lookup finds it. -/
theorem OrderIndependent.numbersIdentify {buf : Bytes} (h : OrderIndependent maxInlineBytes buf)
    {c : Cursor} (hparse : parseMetadataBlob maxInlineBytes (.start buf) = .ok (blob, c)) :
    blob.NumbersIdentify := by
  rcases parseMetadataBlob_start_iff.1 ⟨c, hparse⟩ with ⟨records, tail, hspell, rfl⟩
  have hfront : ∀ x ∈ blob.inodes, blob.inodeByNumber x.number = some x := by
    intro x hx
    rcases exists_perm_find? (q := fun inode => decide (inode.number = x.number)) hx (by simp) with
      ⟨inodes, hperm, hfind⟩
    rcases hspell.exists_perm hperm with ⟨records', hinodes, hdirNodes, hspell'⟩
    rcases h records records' blob tail hspell rfl hinodes (hdirNodes ▸ .refl _) with
      ⟨blob', c', hparse', hsame⟩
    -- The reordered bytes give the reordered blob and no other.
    rcases parseMetadataBlob_start_iff.2 ⟨records', tail, hspell', rfl⟩ with ⟨c'', hparse''⟩
    rw [hparse''] at hparse'
    cases hparse'
    exact (hsame.inodeByNumber x.number).symm.trans hfind
  intro x hx y hy hnumber
  have hxy := hfront x hx
  rw [hnumber, hfront y hy] at hxy
  exact (Option.some.inj hxy).symm

/-- The blob in front of the buffer does not depend on the order of its records just when no two
distinct inodes have one number. -/
theorem orderIndependent_iff {buf : Bytes} {c : Cursor}
    (h : parseMetadataBlob maxInlineBytes (.start buf) = .ok (blob, c)) :
    OrderIndependent maxInlineBytes buf ↔ blob.NumbersIdentify := by
  constructor
  · intro horder
    exact horder.numbersIdentify h
  · intro hnum records records' blob' tail hspell hbuf hinodes hdirNodes
    -- The records spell the blob that was parsed.
    rcases parseMetadataBlob_start_iff.2 ⟨records, tail, hspell, hbuf⟩ with ⟨c', hparse⟩
    rw [h] at hparse
    cases hparse
    rcases hspell.of_perm hinodes hdirNodes with ⟨blob', hspell', hperm⟩
    rcases parseMetadataBlob_start_iff.2 ⟨records', tail, hspell', rfl⟩ with ⟨c'', hparse'⟩
    refine ⟨blob', c'', hparse', ?_, ?_, ?_, ?_⟩
    · exact fun number => (MetadataBlob.inodeByNumber_eq_of_perm hperm hnum number).symm
    · exact (MetadataBlob.rootInodeNumber_eq_of_perm hperm).symm
    · exact (MetadataBlob.summary_eq_of_perm hperm hnum).symm
    · exact fun hcol hash => (MetadataBlob.dirNodeByHash_eq_of_perm hperm hspell.dirNodes_inRange
        hcol hash).symm

end Reordered

namespace Reference

/-- A pipe and a socket, and no directory. -/
def pipes (pipe socket : Nat) : MetadataBlob :=
  ⟨[inode pipe sIfifo (.pipe 0) none [], inode socket sIfsock (.pipe 0) none []], []⟩

theorem pipes_inRange {pipe socket : Nat} (hpipe : pipe < 2 ^ 64) (hsocket : socket < 2 ^ 64) :
    (pipes pipe socket).InRange defaultInlineDataMaxBytes where
  inodes_lt := (by decide : 2 < 2 ^ 32)
  inodes := by
    simp only [pipes, List.forall_mem_cons]
    refine ⟨?_, ?_, by simp⟩
    · exact inode_inRange hpipe (by decide) (by simp) (by decide) (by simp)
        ⟨Or.inl (by decide), by decide⟩
    · exact inode_inRange hsocket (by decide) (by simp) (by decide) (by simp)
        ⟨Or.inr (by decide), by decide⟩
  dirNodes_lt := Nat.two_pow_pos 32
  dirNodes := by simp [pipes]

open scoped Reference in
theorem parseMetadataBlob_pipes (pipe socket : Nat) (hpipe : pipe < 2 ^ 64)
    (hsocket : socket < 2 ^ 64) :
    ∃ c, parseMetadataBlob defaultInlineDataMaxBytes (.start (pipes pipe socket).wire) =
      .ok (pipes pipe socket, c) := by
  rcases (parseMetadataBlob_reads (pipes_inRange hpipe hsocket)).whole with ⟨c, hparse, -⟩
  exact ⟨c, hparse⟩

end Reference

open scoped Reference in
/-- A pipe and a socket with different numbers can be written in either order. -/
theorem orderIndependent_iff_pipes :
    OrderIndependent defaultInlineDataMaxBytes (Reference.pipes 1 2).wire ↔
      (Reference.pipes 1 2).NumbersIdentify := by
  rcases Reference.parseMetadataBlob_pipes 1 2 (by decide) (by decide) with
    ⟨c, hparse⟩
  exact orderIndependent_iff hparse

open scoped Reference in
/-- A pipe and a socket with the number 1: the lookup finds whichever comes first. -/
theorem orderIndependent_fails_pipes :
    ¬ OrderIndependent defaultInlineDataMaxBytes (Reference.pipes 1 1).wire := by
  intro horder
  rcases Reference.parseMetadataBlob_pipes 1 1 (by decide) (by decide) with
    ⟨c, hparse⟩
  have hnum := horder.numbersIdentify hparse
  have heq := hnum (Reference.inode 1 sIfifo (.pipe 0) none []) List.mem_cons_self
    (Reference.inode 1 sIfsock (.pipe 0) none []) (List.mem_cons_of_mem _ List.mem_cons_self) rfl
  exact absurd heq (by decide)

end LimniFs
