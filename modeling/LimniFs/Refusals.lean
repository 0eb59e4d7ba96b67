import LimniFs.DirectoryNode
import LimniFs.DmsPolicy
import LimniFs.EcParams
import LimniFs.FeatureFlags
import LimniFs.Reference
import LimniFs.SlabIndex
import LimniFs.Wire.Refuses

/-!
# Refusals — which element of a section is refused

Entries that are each well formed can still be wrong together: names out of order, a key used
twice.  The parsers find the first such place, and their error says where it is.
-/

namespace LimniFs

open Wire

/-! ## Directory nodes -/

/-- The state of the loop is the name of the entry that it has read last. -/
theorem DirEntry.foldl_name (entries : List DirEntry) (entry : DirEntry)
    (prevName : Option String) :
    (entries ++ [entry]).foldl (fun _ entry => some entry.name) prevName = some entry.name := by
  rw [List.foldl_append, List.foldl_cons, List.foldl_nil]

/-- Entries with distinct names can be put in the order of their names. -/
theorem DirEntry.exists_sorted_perm {entries : List DirEntry}
    (hnodup : (entries.map DirEntry.name).Nodup) :
    ∃ sorted : List DirEntry, sorted.Perm entries ∧
      (sorted.map DirEntry.name).Pairwise (· < ·) := by
  have hperm := entries.mergeSort_perm fun a b => decide (a.name ≤ b.name)
  refine ⟨_, hperm, ?_⟩
  have hle : (entries.mergeSort fun a b => decide (a.name ≤ b.name)).Pairwise
      fun a b => decide (a.name ≤ b.name) := by
    apply List.pairwise_mergeSort
    · exact fun a b c hab hbc => by simpa using le_trans (by simpa using hab) (by simpa using hbc)
    · exact fun a b => by simpa using le_total a.name b.name
  -- Names that are distinct and not decreasing are increasing.
  rw [List.pairwise_map]
  have hne := List.pairwise_map.1 ((hperm.map DirEntry.name).nodup_iff.2 hnodup)
  exact (hle.and hne).imp fun hab => lt_of_le_of_ne (by simpa using hab.1) hab.2

section DirectoryNodes

variable [UnicodeData]

/-- `entries not sorted` -/
def notSorted (prev name : String) : Exn :=
  .corrupt ("directory node: entries not sorted (" ++ reprStr prev ++ " >= " ++ reprStr name ++ ")")

theorem parseDirEntry_judges :
    Judges parseDirEntry DirEntry.InRange DirEntry.Follows (fun _ entry => some entry.name)
      DirEntry.wire fun _ prevName entry => notSorted (prevName.getD "") entry.name where
  admits i {prevName entry} hentry hfollows :=
    (parseDirEntry_decodes i prevName).reads (a := (entry, some entry.name)) ⟨hfollows, rfl⟩
  refuses i {prevName entry} hentry hnot := by
    have hge : ∃ prev ∈ prevName, prev ≥ entry.name := by
      by_contra hlt
      refine hnot ⟨hentry, fun prev hprev => ?_⟩
      by_contra hle
      exact hlt ⟨prev, hprev, not_lt.1 hle⟩
    unfold parseDirEntry DirEntry.wire
    simp only [List.append_assoc]
    apply Refuses.bind (readU32Le_decodes.reads hentry.name_lt)
    apply Refuses.bind ((read_decodes (encodeUtf8 entry.name).length).reads rfl)
    apply Refuses.pass (by simpa using hentry.name_ne)
    apply Refuses.pass (by simpa [slash_mem_iff] using hentry.name_slash)
    apply Refuses.pass (by simpa [nul_mem_iff] using hentry.name_nul)
    apply Refuses.lift (decodeText_eq_ok_iff.2 rfl)
    exact Refuses.raiseIf hge

/-- Of well-formed entries with names out of order, the parser names the first two neighbours that
are. -/
theorem parseDirectoryNode_refuses {entries : List DirEntry} (hlen : entries.length < 2 ^ 32)
    (hentries : ∀ entry ∈ entries, entry.InRange)
    (hsorted : ¬ (entries.map DirEntry.name).Pairwise (· < ·)) :
    ∃ before a b after, entries = before ++ a :: b :: after ∧
      ((before ++ [a]).map DirEntry.name).Pairwise (· < ·) ∧ b.name ≤ a.name ∧
        Refuses parseDirectoryNode (DirectoryNode.wire ⟨directoryNodeVersion, entries⟩)
          (notSorted a.name b.name) := by
  rcases admissible_or DirEntry.Follows (fun _ entry => some entry.name) entries none with
    hall | ⟨before, b, after, hsplit, hbefore, hb⟩
  · exact absurd (admissible_follows_iff.1 hall).2.1 hsorted
  have hVb := hentries b (hsplit ▸ List.mem_append_right _ List.mem_cons_self)
  have hVbefore := fun a ha => hentries a (hsplit ▸ List.mem_append_left _ ha)
  have hrefuses := parseDirEntry_judges.collect_refuses hVb after hVbefore 0 none hbefore hb
  -- The first entry follows anything, so there is one before the entry that is refused.
  rcases List.eq_nil_or_concat before with rfl | ⟨before, a, rfl⟩
  · exact absurd ⟨hVb, by simp⟩ hb
  rw [List.concat_eq_append] at hsplit hbefore hb hrefuses
  rw [DirEntry.foldl_name] at hb hrefuses
  refine ⟨before, a, b, after, by simpa using hsplit, (admissible_follows_iff.1 hbefore).2.1,
    ?_, ?_⟩
  · by_contra hlt
    exact hb ⟨hVb, by simpa using hlt⟩
  · unfold parseDirectoryNode DirectoryNode.wire
    rw [List.append_assoc]
    apply Refuses.bind (readU8_decodes.reads (by decide))
    apply Refuses.pass (not_not.2 rfl)
    apply Refuses.bind (readU32Le_decodes.reads hlen)
    rw [← hsplit] at hrefuses
    exact hrefuses.head

/-- A directory node stands for a set: of all the orders of well-formed entries with distinct names
the one with increasing names is read, and every other is refused with the names of the first two
neighbours that stand the wrong way round. -/
theorem parseDirectoryNode_oneOrder {entries : List DirEntry} (hlen : entries.length < 2 ^ 32)
    (hentries : ∀ entry ∈ entries, entry.InRange)
    (hnodup : (entries.map DirEntry.name).Nodup) :
    ∃ sorted : List DirEntry, sorted.Perm entries ∧
      (sorted.map DirEntry.name).Pairwise (· < ·) ∧
      Reads parseDirectoryNode (DirectoryNode.wire ⟨directoryNodeVersion, sorted⟩)
        ⟨directoryNodeVersion, sorted⟩ ∧
      ∀ other : List DirEntry, other.Perm entries → other ≠ sorted →
        ∃ before a b after, other = before ++ a :: b :: after ∧
          ((before ++ [a]).map DirEntry.name).Pairwise (· < ·) ∧ b.name < a.name ∧
          Refuses parseDirectoryNode (DirectoryNode.wire ⟨directoryNodeVersion, other⟩)
            (notSorted a.name b.name) := by
  rcases DirEntry.exists_sorted_perm hnodup with ⟨sorted, hperm, hsorted⟩
  have hrange : ∀ {other : List DirEntry}, other.Perm entries → ∀ entry ∈ other, entry.InRange :=
    fun hother entry hmem => hentries entry (hother.mem_iff.1 hmem)
  refine ⟨sorted, hperm, hsorted, ?_, ?_⟩
  · exact parseDirectoryNode_decodes.reads ⟨rfl, hperm.length_eq ▸ hlen, hrange hperm, hsorted⟩
  · intro other hother hne
    have hnot : ¬ (other.map DirEntry.name).Pairwise (· < ·) := by
      intro hincreasing
      refine hne ((hother.trans hperm.symm).eq_of_pairwise ?_ (List.pairwise_map.1 hincreasing)
        (List.pairwise_map.1 hsorted))
      exact fun a b _ _ hab hba => absurd hab (lt_asymm hba)
    rcases parseDirectoryNode_refuses (hother.length_eq ▸ hlen) (hrange hother) hnot with
      ⟨before, a, b, after, rfl, hbefore, hle, hrefuses⟩
    have hnames := (hother.map DirEntry.name).nodup_iff.2 hnodup
    have hba : b.name ≠ a.name := by
      intro heq
      simp [heq, List.nodup_append] at hnames
    exact ⟨before, a, b, after, rfl, hbefore, lt_of_le_of_ne hle hba, hrefuses⟩

/-- Entries that are each well formed are read when their names increase; otherwise the error names
the first two neighbours whose names do not. -/
theorem parseDirectoryNode_outcome {entries : List DirEntry} (hlen : entries.length < 2 ^ 32)
    (hentries : ∀ entry ∈ entries, entry.InRange) :
    ((entries.map DirEntry.name).Pairwise (· < ·) ∧
        Reads parseDirectoryNode (DirectoryNode.wire ⟨directoryNodeVersion, entries⟩)
          ⟨directoryNodeVersion, entries⟩) ∨
      ∃ before a b after, entries = before ++ a :: b :: after ∧
        ((before ++ [a]).map DirEntry.name).Pairwise (· < ·) ∧ b.name ≤ a.name ∧
          Refuses parseDirectoryNode (DirectoryNode.wire ⟨directoryNodeVersion, entries⟩)
            (notSorted a.name b.name) := by
  by_cases hsorted : (entries.map DirEntry.name).Pairwise (· < ·)
  · exact .inl ⟨hsorted, parseDirectoryNode_decodes.reads ⟨rfl, hlen, hentries, hsorted⟩⟩
  · exact .inr (parseDirectoryNode_refuses hlen hentries hsorted)

end DirectoryNodes

namespace Reference

/-- Two entries, the second of which belongs in front. -/
def unsorted : List DirEntry :=
  [⟨"b", 2, 1⟩, ⟨"a", 1, 1⟩]

theorem unsorted_inRange : ∀ entry ∈ unsorted, entry.InRange := by
  simp only [unsorted, List.forall_mem_cons]
  exact ⟨⟨by decide, by decide, by decide, by decide, by decide, by decide⟩,
    ⟨by decide, by decide, by decide, by decide, by decide, by decide⟩, by simp⟩

end Reference

open Reference in
open scoped Reference in
theorem parseDirectoryNode_outcome_unsorted :
    Refuses parseDirectoryNode (DirectoryNode.wire ⟨directoryNodeVersion, unsorted⟩)
      (notSorted "b" "a") := by
  rcases parseDirectoryNode_outcome (by decide) unsorted_inRange with
    ⟨hsorted, -⟩ | ⟨before, a, b, after, hsplit, hbefore, hle, hrefuses⟩
  · exact absurd hsorted (by decide)
  · have hlen := congrArg List.length hsplit
    simp only [unsorted, List.length_append, List.length_cons, List.length_nil] at hlen
    rcases List.length_eq_zero_iff.1 (by omega : before.length = 0) with rfl
    rcases List.length_eq_zero_iff.1 (by omega : after.length = 0) with rfl
    cases hsplit
    exact hrefuses

open Reference in
open scoped Reference in
theorem parseDirectoryNode_oneOrder_unsorted :
    ∃ sorted : List DirEntry, sorted.Perm unsorted ∧
      Reads parseDirectoryNode (DirectoryNode.wire ⟨directoryNodeVersion, sorted⟩)
        ⟨directoryNodeVersion, sorted⟩ ∧
      ∃ before a b after, unsorted = before ++ a :: b :: after ∧ b.name < a.name ∧
        Refuses parseDirectoryNode (DirectoryNode.wire ⟨directoryNodeVersion, unsorted⟩)
          (notSorted a.name b.name) := by
  rcases parseDirectoryNode_oneOrder (by decide) unsorted_inRange (by decide) with
    ⟨sorted, hperm, hsorted, hreads, hother⟩
  have hne : unsorted ≠ sorted := by
    rintro rfl
    exact absurd hsorted (by decide)
  rcases hother unsorted (.refl _) hne with ⟨before, a, b, after, hsplit, -, hlt, hrefuses⟩
  exact ⟨sorted, hperm, hreads, before, a, b, after, hsplit, hlt, hrefuses⟩

/-! ## Sections with keys -/

/-- Of well-formed elements, the section reads those with distinct keys; of any others it raises
the error of the first whose key has been there, with its index. -/
def NamesFirstDuplicate {α β κ : Type} (p : Parser β) (Fit : List α → Prop) (V : α → Prop)
    (key : α → κ) (make : List α → β) (wire : β → Bytes) (err : Nat → α → Exn) : Prop :=
  ∀ as, Fit as → (∀ a ∈ as, V a) →
    ((as.map key).Nodup → Reads p (wire (make as)) (make as)) ∧
      (¬ (as.map key).Nodup → ∃ before a after, as = before ++ a :: after ∧
        (before.map key).Nodup ∧ key a ∈ before.map key ∧
          Refuses p (wire (make as)) (err before.length a))

/-- The count of the elements fits its field. -/
def Countable {α : Type} (as : List α) : Prop :=
  as.length < 2 ^ 32

/-- `duplicate flag_id` -/
def duplicateFlag (index : Nat) (flag : FeatureFlag) : Exn :=
  .corrupt s!"feature_flags entry {index}: duplicate flag_id 0x{formatHex 4 flag.flagId}"

theorem parseFeatureFlag_judges :
    Judges parseFeatureFlag FeatureFlag.InRange
      (fun seen flag => flag.InRange ∧ flag.flagId ∉ seen) (fun seen flag => flag.flagId :: seen)
      FeatureFlag.wire fun i _ flag => duplicateFlag i flag where
  admits i {seen flag} _ hok :=
    (parseFeatureFlag_decodes i seen).reads (a := (flag, flag.flagId :: seen)) ⟨hok, rfl⟩
  refuses i {seen flag} hflag hnot := by
    have hmem : flag.flagId ∈ seen := by
      by_contra hne
      exact hnot ⟨hflag, hne⟩
    have hwire : flag.wire = toLe 2 flag.flagId ++
        ([UInt8.ofNat (requiredByte flag.required)] ++ []) := by
      cases hrequired : flag.required <;> simp [FeatureFlag.wire, requiredByte, hrequired]
    unfold parseFeatureFlag
    rw [hwire]
    apply Refuses.bind (readU16Le_decodes.reads hflag.flagId_lt)
    apply Refuses.pass hflag.flagId_ne_zero
    apply Refuses.bind (readU8_decodes.reads (by cases flag.required <;> decide))
    apply Refuses.lift (parseRequired_eq_ok_iff.2 rfl)
    exact Refuses.raiseIf hmem

theorem parseFeatureFlagsSection_namesFirstDuplicate :
    NamesFirstDuplicate parseFeatureFlagsSection Countable FeatureFlag.InRange FeatureFlag.flagId
      FeatureFlags.mk FeatureFlags.wire duplicateFlag := by
  intro flags hlen hflags
  refine ⟨fun hnodup => parseFeatureFlagsSection_decodes.reads ⟨hlen, hflags, hnodup⟩, ?_⟩
  intro hdup
  rcases (parseFeatureFlag_judges.collectFresh hflags).2 hdup with
    ⟨before, flag, after, hsplit, hbefore, hmem, hrefuses⟩
  refine ⟨before, flag, after, hsplit, hbefore, hmem, ?_⟩
  unfold parseFeatureFlagsSection FeatureFlags.wire
  rw [List.append_assoc]
  apply Refuses.bind (readU8_decodes.reads (by decide))
  apply Refuses.pass (not_not.2 rfl)
  apply Refuses.bind (readU32Le_decodes.reads hlen)
  apply Refuses.guard
    (Wire.Decodes.length_flatMap_ge fun flag _ => (FeatureFlag.length_wire flag).ge)
  exact hrefuses.head

section SlabIndexes

variable [UnicodeData]

/-- `duplicate slab_id` of the slab index -/
def duplicateSlab (index : Nat) (entry : SlabIndexEntry) : Exn :=
  .corrupt (s!"slab_index entry {index}: duplicate slab_id " ++
    s!"(ordinal {entry.slabId.ordinal}, hash {bytesHex entry.slabId.hash})")

theorem parseSlabIndexEntry_judges (maxLocatorUriBytes : Nat) :
    Judges (parseSlabIndexEntry maxLocatorUriBytes) (SlabIndexEntry.InRange maxLocatorUriBytes)
      (fun seen entry => entry.InRange maxLocatorUriBytes ∧ entry.key ∉ seen)
      (fun seen entry => entry.key :: seen) SlabIndexEntry.wire
      fun i _ entry => duplicateSlab i entry where
  admits i {seen entry} _ hok :=
    (parseSlabIndexEntry_decodes maxLocatorUriBytes i seen).reads
      (a := (entry, entry.key :: seen)) ⟨hok, rfl⟩
  refuses i {seen entry} hentry hnot := by
    have hmem : entry.key ∈ seen := by
      by_contra hne
      exact hnot ⟨hentry, hne⟩
    unfold parseSlabIndexEntry SlabIndexEntry.wire SlabId.toBytes
    simp only [List.append_assoc]
    apply Refuses.bind (readU64Le_decodes.reads entry.slabId.ordinal_lt)
    apply Refuses.bind ((read_decodes 32).reads entry.slabId.length_hash)
    apply Refuses.lift (SlabId.make_eq_ok_iff.2 ⟨rfl, rfl⟩)
    -- The key is looked up before the locators are read.
    exact Refuses.raiseIf hmem

theorem parseSlabIndexSection_namesFirstDuplicate (maxLocatorUriBytes : Nat) :
    NamesFirstDuplicate (parseSlabIndexSection maxLocatorUriBytes) Countable
      (SlabIndexEntry.InRange maxLocatorUriBytes) SlabIndexEntry.key SlabIndex.mk SlabIndex.wire
      duplicateSlab := by
  intro entries hlen hentries
  refine ⟨fun hnodup => (parseSlabIndexSection_decodes maxLocatorUriBytes).reads
    ⟨hlen, hentries, hnodup⟩, ?_⟩
  intro hdup
  rcases ((parseSlabIndexEntry_judges maxLocatorUriBytes).collectFresh hentries).2 hdup with
    ⟨before, entry, after, hsplit, hbefore, hmem, hrefuses⟩
  refine ⟨before, entry, after, hsplit, hbefore, hmem, ?_⟩
  unfold parseSlabIndexSection SlabIndex.wire
  rw [List.append_assoc]
  apply Refuses.bind (readU8_decodes.reads (by decide))
  apply Refuses.pass (not_not.2 rfl)
  apply Refuses.bind (readU32Le_decodes.reads hlen)
  apply Refuses.guard (Wire.Decodes.length_flatMap_ge fun entry _ => entry.length_wire_ge)
  exact hrefuses.head

end SlabIndexes

/-- `duplicate slab_id` of the overrides -/
def duplicateOverride (index : Nat) (entry : EcOverride) : Exn :=
  .corrupt s!"ec_params override {index}: duplicate slab_id (ordinal {entry.slabId.ordinal})"

theorem parseEcOverride_judges :
    Judges parseEcOverride EcOverride.InRange (fun seen entry => entry.InRange ∧ entry.key ∉ seen)
      (fun seen entry => entry.key :: seen) EcOverride.wire
      fun i _ entry => duplicateOverride i entry where
  admits i {seen entry} _ hok :=
    (parseEcOverride_decodes i seen).reads (a := (entry, entry.key :: seen)) ⟨hok, rfl⟩
  refuses i {seen entry} hentry hnot := by
    have hmem : entry.key ∈ seen := by
      by_contra hne
      exact hnot ⟨hentry, hne⟩
    have hshards : ShardsInRange entry.k entry.m := hentry
    have hwire : entry.wire = toLe 8 entry.slabId.ordinal ++ (entry.slabId.hash ++
        ([UInt8.ofNat entry.k] ++ ([UInt8.ofNat entry.m] ++ []))) := by
      simp [EcOverride.wire, SlabId.toBytes]
    unfold parseEcOverride
    rw [hwire]
    apply Refuses.bind (readU64Le_decodes.reads entry.slabId.ordinal_lt)
    apply Refuses.bind ((read_decodes 32).reads entry.slabId.length_hash)
    apply Refuses.lift (SlabId.make_eq_ok_iff.2 ⟨rfl, rfl⟩)
    apply Refuses.bind (readU8_decodes.reads hshards.k_lt)
    apply Refuses.bind (readU8_decodes.reads hshards.m_lt)
    apply Refuses.lift ((validateShards_eq_ok_iff (u := ())).2 hshards)
    exact Refuses.raiseIf hmem

theorem parseEcParamsSection_namesFirstDuplicate {k m : Nat} (hshards : ShardsInRange k m) :
    NamesFirstDuplicate parseEcParamsSection Countable EcOverride.InRange EcOverride.key
      (EcParams.mk k m defaultEcPolynomial) EcParams.wire duplicateOverride := by
  intro overrides hlen hoverrides
  refine ⟨fun hnodup => parseEcParamsSection_decodes.reads
    ⟨hshards, rfl, hlen, hoverrides, hnodup⟩, ?_⟩
  intro hdup
  rcases (parseEcOverride_judges.collectFresh hoverrides).2 hdup with
    ⟨before, entry, after, hsplit, hbefore, hmem, hrefuses⟩
  refine ⟨before, entry, after, hsplit, hbefore, hmem, ?_⟩
  unfold parseEcParamsSection EcParams.wire
  simp only [List.append_assoc]
  apply Refuses.bind (readU8_decodes.reads (by decide))
  apply Refuses.pass (not_not.2 rfl)
  apply Refuses.bind (readU8_decodes.reads hshards.k_lt)
  apply Refuses.bind (readU8_decodes.reads hshards.m_lt)
  apply Refuses.lift ((validateShards_eq_ok_iff (u := ())).2 hshards)
  apply Refuses.bind (readU16Le_decodes.reads (by decide))
  apply Refuses.pass (not_not.2 rfl)
  apply Refuses.bind (readU32Le_decodes.reads hlen)
  apply Refuses.guard (Wire.Decodes.length_flatMap_ge fun entry _ => entry.length_wire.ge)
  exact hrefuses.head

section DmsPolicies

variable [UnicodeData]

/-- `duplicate custodian_id` -/
def duplicateCustodian (index : Nat) (share : ShareRecord) : Exn :=
  .corrupt s!"dms_policy share {index}: duplicate custodian_id {reprStr share.custodianId}"

theorem parseShareRecord_judges (maxShareDataBytes maxHintBytes : Nat) :
    Judges (parseShareRecord maxShareDataBytes maxHintBytes)
      (ShareRecord.InRange maxShareDataBytes maxHintBytes)
      (fun seen share => share.InRange maxShareDataBytes maxHintBytes ∧ share.custodianId ∉ seen)
      (fun seen share => share.custodianId :: seen) ShareRecord.wire
      fun i _ share => duplicateCustodian i share where
  admits i {seen share} _ hok :=
    (parseShareRecord_decodes maxShareDataBytes maxHintBytes i seen).reads
      (a := (share, share.custodianId :: seen)) ⟨hok, rfl⟩
  refuses i {seen share} hshare hnot := by
    have hmem : share.custodianId ∈ seen := by
      by_contra hne
      exact hnot ⟨hshare, hne⟩
    unfold parseShareRecord ShareRecord.wire
    simp only [List.append_assoc]
    apply Refuses.bind (readU32Le_decodes.reads hshare.custodianId_lt)
    apply Refuses.pass (Nat.not_lt.2 hshare.custodianId_le)
    apply Refuses.bind ((read_decodes (encodeUtf8 share.custodianId).length).reads rfl)
    apply Refuses.lift (decodeText_eq_ok_iff.2 rfl)
    apply Refuses.pass hshare.custodianId_ne
    exact Refuses.raiseIf hmem

/-- As many shares as a policy with threshold `k` can have. -/
def SharesFit (k : Nat) (shares : List ShareRecord) : Prop :=
  k ≤ shares.length ∧ shares.length < 2 ^ 8

theorem parseDmsPolicySection_namesFirstDuplicate (maxShareDataBytes maxHintBytes : Nat) {k : Nat}
    (hk : k ≠ 0) {hint : Option String} (hne : ∀ text ∈ hint, text ≠ "")
    (hlt : (DmsPolicy.hintBytes hint).length < 2 ^ 32)
    (hle : (DmsPolicy.hintBytes hint).length ≤ maxHintBytes) :
    NamesFirstDuplicate (parseDmsPolicySection maxShareDataBytes maxHintBytes) (SharesFit k)
      (ShareRecord.InRange maxShareDataBytes maxHintBytes) ShareRecord.custodianId
      (fun shares => ⟨k, shares.length, shares, hint⟩) DmsPolicy.wire duplicateCustodian := by
  intro shares hfit hshares
  refine ⟨fun hnodup => (parseDmsPolicySection_decodes maxShareDataBytes maxHintBytes).reads
    ⟨hk, hfit.1, hfit.2, rfl, hshares, hnodup, hne, hlt, hle⟩, ?_⟩
  intro hdup
  rcases ((parseShareRecord_judges maxShareDataBytes maxHintBytes).collectFresh hshares).2 hdup
    with ⟨before, share, after, hsplit, hbefore, hmem, hrefuses⟩
  refine ⟨before, share, after, hsplit, hbefore, hmem, ?_⟩
  have hpos : shares.length ≠ 0 := by
    have := hfit.1
    omega
  unfold parseDmsPolicySection DmsPolicy.wire
  simp only [List.append_assoc]
  apply Refuses.bind (readU8_decodes.reads (by decide))
  apply Refuses.pass (not_not.2 rfl)
  apply Refuses.bind (readU8_decodes.reads (by decide))
  apply Refuses.pass (by decide)
  apply Refuses.pass (not_not.2 rfl)
  apply Refuses.bind (readU8_decodes.reads (Nat.lt_of_le_of_lt hfit.1 hfit.2))
  apply Refuses.bind (readU8_decodes.reads hfit.2)
  apply Refuses.pass hk
  apply Refuses.pass hpos
  apply Refuses.pass (Nat.not_lt.2 hfit.1)
  apply Refuses.bind (readU32Le_decodes.reads (Nat.lt_trans hfit.2 (by decide)))
  apply Refuses.pass (not_not.2 rfl)
  exact (hrefuses.append _).head

/-- All four sections with keys name the first element whose key has been there. -/
theorem sections_nameFirstDuplicate :
    NamesFirstDuplicate parseFeatureFlagsSection Countable FeatureFlag.InRange FeatureFlag.flagId
        FeatureFlags.mk FeatureFlags.wire duplicateFlag ∧
      (∀ maxLocatorUriBytes, NamesFirstDuplicate (parseSlabIndexSection maxLocatorUriBytes)
        Countable (SlabIndexEntry.InRange maxLocatorUriBytes) SlabIndexEntry.key SlabIndex.mk
        SlabIndex.wire duplicateSlab) ∧
      (∀ k m, ShardsInRange k m → NamesFirstDuplicate parseEcParamsSection Countable
        EcOverride.InRange EcOverride.key (EcParams.mk k m defaultEcPolynomial) EcParams.wire
        duplicateOverride) ∧
      ∀ maxShareDataBytes maxHintBytes k hint, k ≠ 0 → (∀ text ∈ hint, text ≠ "") →
        (DmsPolicy.hintBytes hint).length < 2 ^ 32 →
        (DmsPolicy.hintBytes hint).length ≤ maxHintBytes →
        NamesFirstDuplicate (parseDmsPolicySection maxShareDataBytes maxHintBytes) (SharesFit k)
          (ShareRecord.InRange maxShareDataBytes maxHintBytes) ShareRecord.custodianId
          (fun shares => ⟨k, shares.length, shares, hint⟩) DmsPolicy.wire duplicateCustodian :=
  ⟨parseFeatureFlagsSection_namesFirstDuplicate, parseSlabIndexSection_namesFirstDuplicate,
    fun _ _ hshards => parseEcParamsSection_namesFirstDuplicate hshards,
    fun maxShareDataBytes maxHintBytes _ _ hk hne hlt hle =>
      parseDmsPolicySection_namesFirstDuplicate maxShareDataBytes maxHintBytes hk hne hlt hle⟩

end DmsPolicies

end LimniFs
