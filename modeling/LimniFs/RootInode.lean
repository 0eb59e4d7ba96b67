import LimniFs.MetadataHash
import LimniFs.RoundTrip
import LimniFs.Wire.Unique

/-!
# RootInode — the directory that no other directory names

The root is documented as the only directory inode that is not named by the entries of another
directory.  `root_inode_number` does not ask whose entries they are: an inode is out as soon as any
entry of the blob names it, be it one of its own or one of a node that belongs to no directory.
-/

namespace LimniFs

open Wire

namespace MetadataBlob

/-- The places of the inodes of a blob; two records with one number are at two places. -/
abbrev Place (blob : MetadataBlob) : Type :=
  Fin blob.inodes.length

def inodeAt (blob : MetadataBlob) (i : blob.Place) : Inode :=
  blob.inodes.get i

/-- The entries of the node name the inode. -/
def Names (blob : MetadataBlob) (node : DirectoryNode) (i : blob.Place) : Prop :=
  ∃ entry ∈ node.entries, entry.inodeNumber = (blob.inodeAt i).number

/-- The node belongs to the directory inode, which has the hash of its bytes. -/
def Owns [Blake3] (blob : MetadataBlob) (i : blob.Place) (node : DirectoryNode) : Prop :=
  (blob.inodeAt i).isDirectory ∧
    dirNodeHash node.entries = .ok (blob.inodeAt i).contentHandle.directoryHash

/-- The inode is named by an entry of a directory node that belongs to another directory inode. -/
def NamedByOther [Blake3] (blob : MetadataBlob) (i : blob.Place) : Prop :=
  ∃ j, j ≠ i ∧ ∃ node ∈ blob.dirNodes, blob.Owns j node ∧ blob.Names node i

/-- A directory inode that satisfies the documented criterion of the root. -/
def IsRoot [Blake3] (blob : MetadataBlob) (i : blob.Place) : Prop :=
  (blob.inodeAt i).isDirectory ∧ ¬ blob.NamedByOther i

/-- A directory inode that no entry of any node names. -/
def Unnamed (blob : MetadataBlob) (i : blob.Place) : Prop :=
  (blob.inodeAt i).isDirectory ∧ ∀ node ∈ blob.dirNodes, ¬ blob.Names node i

/-- A directory inode that entries name, but none of a node that belongs to another directory. -/
def Stray [Blake3] (blob : MetadataBlob) (i : blob.Place) : Prop :=
  (blob.inodeAt i).isDirectory ∧ (∃ node ∈ blob.dirNodes, blob.Names node i) ∧
    ¬ blob.NamedByOther i

/-- The answer is the number of the only inode that satisfies the criterion, and `None` where there
is none or there are more. -/
def MeetsRootCriterion [Blake3] (blob : MetadataBlob) : Prop :=
  ∀ number, blob.rootInodeNumber = some number ↔
    OnlyAt blob.IsRoot (fun i => (blob.inodeAt i).number) number

variable {blob : MetadataBlob}

theorem rootInodeNumber_eq_some_iff_onlyAt {number : Nat} :
    blob.rootInodeNumber = some number ↔
      OnlyAt blob.Unnamed (fun i => (blob.inodeAt i).number) number := by
  have hcandidate : ∀ i : blob.Place, decide ((blob.inodeAt i).isDirectory ∧
      (blob.inodeAt i).number ∉ blob.referenced) = true ↔ blob.Unnamed i := by
    intro i
    simp [Unnamed, Names, mem_referenced_iff]
  rw [rootInodeNumber_eq_some_iff, rootCandidates, filter_map_eq_singleton_iff]
  have hplaces : (fun i : blob.Place => decide ((blob.inodeAt i).isDirectory ∧
      (blob.inodeAt i).number ∉ blob.referenced) = true) = blob.Unnamed :=
    funext fun i => propext (hcandidate i)
  rw [← hplaces]
  rfl

section Criterion

variable [Blake3]

theorem Unnamed.not_stray {i : blob.Place} (h : blob.Unnamed i) : ¬ blob.Stray i := by
  rintro ⟨-, ⟨node, hnode, hnames⟩, -⟩
  exact h.2 node hnode hnames

/-- What satisfies the criterion is not named at all, or it is named astray. -/
theorem isRoot_iff {i : blob.Place} : blob.IsRoot i ↔ blob.Unnamed i ∨ blob.Stray i := by
  constructor
  · rintro ⟨hdir, hother⟩
    by_cases hnamed : ∃ node ∈ blob.dirNodes, blob.Names node i
    · exact .inr ⟨hdir, hnamed, hother⟩
    · exact .inl ⟨hdir, fun node hnode hnames => hnamed ⟨node, hnode, hnames⟩⟩
  · rintro (⟨hdir, hnone⟩ | ⟨hdir, -, hother⟩)
    · refine ⟨hdir, ?_⟩
      rintro ⟨j, -, node, hnode, -, hnames⟩
      exact hnone node hnode hnames
    · exact ⟨hdir, hother⟩

/-- The criterion is met unless a stray directory makes the difference: beside the only directory
that is not named, or as the only directory that another one does not name. -/
theorem meetsRootCriterion_iff (blob : MetadataBlob) :
    blob.MeetsRootCriterion ↔
      (∀ i, ¬ blob.Stray i) ∨ (∃ i j, i ≠ j ∧ blob.Unnamed i ∧ blob.Unnamed j) ∨
        (∀ i, ¬ blob.Unnamed i) ∧ ∃ i j, i ≠ j ∧ blob.Stray i ∧ blob.Stray j := by
  have hroot : blob.IsRoot = fun i => blob.Unnamed i ∨ blob.Stray i :=
    funext fun i => propext isRoot_iff
  rw [← OnlyAt.or_iff (f := fun i => (blob.inodeAt i).number)
    (fun i (h : blob.Unnamed i) => h.not_stray)]
  unfold MeetsRootCriterion
  simp only [rootInodeNumber_eq_some_iff_onlyAt, hroot]

end Criterion

end MetadataBlob

namespace Reference

/-- One directory, and a node with an entry for the directory itself. -/
def selfNamed : MetadataBlob :=
  ⟨[inode 1 sIfdir (.directory (List.replicate 32 0xBB)) none []], [⟨1, [⟨"a", 1, 2⟩]⟩]⟩

theorem selfNamed_inRange : selfNamed.InRange defaultInlineDataMaxBytes where
  inodes_lt := by decide
  inodes := by
    simp only [selfNamed, List.forall_mem_cons]
    exact ⟨inode_inRange (by decide) (by decide) (by simp) (by decide) (by simp)
      ⟨by decide, by simp⟩, by simp⟩
  dirNodes_lt := by decide
  dirNodes := by
    simp only [selfNamed, List.forall_mem_cons]
    refine ⟨⟨rfl, by decide, ?_, List.pairwise_singleton _ _⟩, by simp⟩
    simp only [List.forall_mem_cons]
    exact ⟨⟨by decide, by decide, by decide, by decide, by decide, by decide⟩, by simp⟩

end Reference

open scoped Reference in
/-- The only directory is named by no other, and yet no root is reported. -/
theorem not_meetsRootCriterion_selfNamed :
    (∃ c, parseMetadataBlob defaultInlineDataMaxBytes (.start Reference.selfNamed.wire) =
      .ok (Reference.selfNamed, c)) ∧ ¬ Reference.selfNamed.MeetsRootCriterion := by
  constructor
  · rcases (parseMetadataBlob_reads Reference.selfNamed_inRange).whole with ⟨c, hparse, -⟩
    exact ⟨c, hparse⟩
  · intro hmeets
    -- There is only one place, so no other directory names what is there.
    let place : Reference.selfNamed.Place := ⟨0, by decide⟩
    have huniq : ∀ j, j = place := fun j => Fin.fin_one_eq_zero j
    have hroot : Reference.selfNamed.IsRoot place := by
      refine ⟨by decide, ?_⟩
      rintro ⟨j, hne, -⟩
      exact hne (huniq j)
    have hsome := (hmeets 1).2 ⟨place, ⟨hroot, rfl⟩, fun j _ => huniq j⟩
    exact absurd hsome (by decide)

end LimniFs
