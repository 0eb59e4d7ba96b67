import LimniFs.FeatureFlags
import LimniFs.SlabIndex
import LimniFs.Wire.Keyed

/-!
# KeyedSections — the feature flags and the slab index as maps

Both sections refuse a repeated key, so a lookup that returns the first match returns the only one.
What is looked up in a section depends on the set of its entries, in whatever order these are
written.
-/

namespace LimniFs

open Wire

/-! ## Feature flags -/

namespace FeatureFlags

/-- The version byte and the count. -/
def head (entryCount : Nat) : Bytes :=
  [UInt8.ofNat featureFlagsSectionVersion] ++ toLe 4 entryCount

/-- The two sections give one answer to every lookup. -/
structure SameLookups (flags flags' : FeatureFlags) : Prop where
  get : ∀ flagId, flags'.get flagId = flags.get flagId
  isRequired : ∀ flagId, flags'.isRequired flagId = flags.isRequired flagId

/-- What makes the section a map from flag ids to flags. -/
structure IsMap (flags : FeatureFlags) : Prop where
  nodup : (flags.entries.map FeatureFlag.flagId).Nodup
  get_iff : ∀ flagId flag, flags.get flagId = some flag ↔
    flag ∈ flags.entries ∧ flag.flagId = flagId
  isRequired_iff : ∀ flagId, flags.isRequired flagId ↔
    ∃ flag ∈ flags.entries, flag.flagId = flagId ∧ flag.required

/-- `is_required` asks nothing but `get`. -/
theorem isRequired_iff_get {flags : FeatureFlags} {flagId : Nat} :
    flags.isRequired flagId ↔ ∃ flag, flags.get flagId = some flag ∧ flag.required := by
  unfold isRequired
  cases flags.get flagId <;> simp

theorem InRange.isMap {flags : FeatureFlags} (h : flags.InRange) : flags.IsMap := by
  have hget : ∀ flagId flag, flags.get flagId = some flag ↔
      flag ∈ flags.entries ∧ flag.flagId = flagId :=
    fun _ _ => find?_key_eq_some_iff h.nodup
  refine ⟨h.nodup, hget, ?_⟩
  intro flagId
  rw [isRequired_iff_get]
  simp only [hget, and_assoc]

theorem InRange.of_perm {flags : FeatureFlags} (h : flags.InRange) {entries : List FeatureFlag}
    (hperm : entries.Perm flags.entries) : (FeatureFlags.mk entries).InRange where
  length_lt := hperm.length_eq ▸ h.length_lt
  entries flag hflag := h.entries flag (hperm.mem_iff.1 hflag)
  nodup := (hperm.map FeatureFlag.flagId).nodup_iff.2 h.nodup

theorem InRange.sameLookups {flags : FeatureFlags} (h : flags.InRange)
    {entries : List FeatureFlag} (hperm : entries.Perm flags.entries) :
    flags.SameLookups ⟨entries⟩ := by
  have hget : ∀ flagId, (FeatureFlags.mk entries).get flagId = flags.get flagId :=
    fun flagId => (find?_key_eq_of_perm_nodup hperm.symm h.nodup flagId).symm
  refine ⟨hget, ?_⟩
  intro flagId
  rw [isRequired, isRequired, hget]

theorem reorders : Reorders parseFeatureFlagsSection entries head FeatureFlag.wire
    SameLookups := by
  apply parseFeatureFlagsSection_decodes.reorders
  · exact fun _ => rfl
  · intro flags hflags entries hperm
    exact ⟨⟨entries⟩, rfl, hflags.of_perm hperm, hflags.sameLookups hperm⟩

end FeatureFlags

/-! ## Slab index -/

namespace SlabIndex

/-- The version byte and the count. -/
def head (entryCount : Nat) : Bytes :=
  [UInt8.ofNat slabIndexSectionVersion] ++ toLe 4 entryCount

/-- The two sections give one answer to every lookup. -/
def SameLookups (index index' : SlabIndex) : Prop :=
  ∀ slabId, index'.find slabId = index.find slabId

/-- What makes the section a map from slab ids to entries. -/
structure IsMap (index : SlabIndex) : Prop where
  nodup : (index.entries.map SlabIndexEntry.key).Nodup
  find_iff : ∀ slabId entry, index.find slabId = some entry ↔
    entry ∈ index.entries ∧ entry.key = (slabId.ordinal, slabId.hash)

section Lookups

variable [UnicodeData] {maxLocatorUriBytes : Nat}

theorem InRange.nodup_slabId {index : SlabIndex} (h : index.InRange maxLocatorUriBytes) :
    (index.entries.map SlabIndexEntry.slabId).Nodup := by
  -- The key is computed from the id, so ids with distinct keys are distinct.
  apply List.Nodup.of_map fun slabId : SlabId => (slabId.ordinal, slabId.hash)
  rw [List.map_map]
  exact h.nodup

theorem InRange.isMap {index : SlabIndex} (h : index.InRange maxLocatorUriBytes) :
    index.IsMap := by
  refine ⟨h.nodup, ?_⟩
  intro slabId entry
  have hkey : entry.key = (slabId.ordinal, slabId.hash) ↔ entry.slabId = slabId := by
    rw [SlabIndexEntry.key, Prod.mk.injEq, SlabId.ext_iff']
  rw [hkey]
  exact find?_key_eq_some_iff h.nodup_slabId

theorem InRange.of_perm {index : SlabIndex} (h : index.InRange maxLocatorUriBytes)
    {entries : List SlabIndexEntry} (hperm : entries.Perm index.entries) :
    (SlabIndex.mk entries).InRange maxLocatorUriBytes where
  length_lt := hperm.length_eq ▸ h.length_lt
  entries entry hentry := h.entries entry (hperm.mem_iff.1 hentry)
  nodup := (hperm.map SlabIndexEntry.key).nodup_iff.2 h.nodup

theorem reorders (maxLocatorUriBytes : Nat) :
    Reorders (parseSlabIndexSection maxLocatorUriBytes) entries head SlabIndexEntry.wire
      SameLookups := by
  apply (parseSlabIndexSection_decodes maxLocatorUriBytes).reorders
  · exact fun _ => rfl
  · intro index hindex entries hperm
    refine ⟨⟨entries⟩, rfl, hindex.of_perm hperm, ?_⟩
    exact fun slabId => (find?_key_eq_of_perm_nodup hperm.symm hindex.nodup_slabId slabId).symm

end Lookups

end SlabIndex

/-- Accepted sections are maps, and reordering their entries changes neither that they are accepted
nor their length nor what is looked up in them. -/
theorem keyedSections_orderIndependent [UnicodeData] (maxLocatorUriBytes : Nat) :
    ((∀ c flags c', parseFeatureFlagsSection c = .ok (flags, c') → flags.IsMap) ∧
      Reorders parseFeatureFlagsSection FeatureFlags.entries FeatureFlags.head FeatureFlag.wire
        FeatureFlags.SameLookups) ∧
    ((∀ c index c', parseSlabIndexSection maxLocatorUriBytes c = .ok (index, c') →
        index.IsMap) ∧
      Reorders (parseSlabIndexSection maxLocatorUriBytes) SlabIndex.entries SlabIndex.head
        SlabIndexEntry.wire SlabIndex.SameLookups) := by
  refine ⟨⟨?_, FeatureFlags.reorders⟩, ?_, SlabIndex.reorders maxLocatorUriBytes⟩
  · intro c flags c' hparse
    exact (parseFeatureFlagsSection_decodes.sound hparse).1.isMap
  · intro c index c' hparse
    exact ((parseSlabIndexSection_decodes maxLocatorUriBytes).sound hparse).1.isMap

end LimniFs
