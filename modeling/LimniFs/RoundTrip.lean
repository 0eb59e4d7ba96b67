import LimniFs.BuilderFormat
import LimniFs.Reference

/-!
# RoundTrip — what the builder writes, the verifier reads back

For specs that declare neither optional section the two agree on every byte.  A spec that declares
one is written without the section its flag announces, and the verifier then reads the history as
that section.
-/

namespace LimniFs

open Wire

section Builder

variable [Blake3]

/-- A flag that is not declared is not found. -/
theorem get_eq_none {spec : ManifestSpec} {sections : Sections} {flagId : Nat}
    (hd : spec.Describes sections) (h : ¬ spec.Declares flagId) :
    sections.flags.get flagId = none := by
  unfold FeatureFlags.get
  rw [hd.flags, List.find?_eq_none]
  intro flag hflag
  rcases List.mem_map.1 hflag with ⟨entry, hentry, rfl⟩
  simp only [decide_eq_true_eq]
  exact fun heq => h ⟨entry, hentry, heq⟩

theorem get_isSome {spec : ManifestSpec} {sections : Sections} {flagId : Nat}
    (hd : spec.Describes sections) (h : spec.Declares flagId) :
    (sections.flags.get flagId).isSome := by
  rcases h with ⟨entry, hentry, hid⟩
  unfold FeatureFlags.get
  rw [hd.flags, List.find?_isSome]
  exact ⟨entry.toFlag, List.mem_map_of_mem hentry, decide_eq_true hid⟩

variable [UnicodeData]

/-- Without a declared optional section, the sections of a spec are in range as they are. -/
theorem inRange_of_describes {spec : ManifestSpec} {sections : Sections}
    (hd : spec.Describes sections) (hr : sections.RequiredInRange)
    (hec : ¬ spec.Declares flagEc) (hdms : ¬ spec.Declares flagDms) : sections.InRange where
  toRequiredInRange := hr
  ecParams_isSome := by
    simp [hd.ecParams, FeatureFlags.hasEc, get_eq_none hd hec]
  ecParams := by
    simp [hd.ecParams]
  dmsPolicy_isSome := by
    simp [hd.dmsPolicy, FeatureFlags.hasDms, get_eq_none hd hdms]
  dmsPolicy := by
    simp [hd.dmsPolicy]

/-- Building a spec in range and verifying the bytes gives back the spec and the root. -/
theorem build_verify_roundTrip {spec : ManifestSpec} (h : spec.InRange)
    (hec : ¬ spec.Declares flagEc) (hdms : ¬ spec.Declares flagDms) :
    ∃ artifact sections cursor report,
      buildManifest spec = .ok artifact ∧
      parseSections (.start artifact.bytes) = .ok ((sections, sections.slices), cursor) ∧
      spec.Describes sections ∧ cursor.remaining = [] ∧
      verifyBytes artifact.bytes = .ok report ∧
      report.extraBytesAfterHistory = 0 ∧
      sections.root = artifact.merkleRoot ∧
      report.merkleRoot = artifact.merkleRoot.toText := by
  rcases h.exists_sections with ⟨sections, hd, hr⟩
  -- Without the two flags nothing is missing between the slab index and the history.
  have hrange := inRange_of_describes hd hr hec hdms
  obtain ⟨cursor, hparse, hrem⟩ :=
    parseSections_decodes.decode_append (a := (sections, sections.slices)) ⟨hrange, rfl⟩ []
  have hverify := verifyBytes_append hrange []
  simp only [List.append_nil] at hparse hverify
  exact ⟨_, sections, cursor, _, buildManifest_eq_ok h hd, hparse, hd, hrem, hverify, rfl, rfl, rfl⟩

end Builder

/-- `minimal_v0_1_spec()` -/
def minimalV01Spec : ManifestSpec where
  featureFlags := []
  metadataReference := some (.external (List.replicate 32 0xAA)
    ["file:///var/lib/limnifs/metadata.bin"])
  slabIndex := [{ slabId := ⟨0, List.replicate 32 0x00, Nat.two_pow_pos 64, List.length_replicate⟩
                  locators := ["file:///var/lib/limnifs/slab-0.bin"] }]
  history := [{ op := .build }]

theorem isScheme_file : IsScheme "file" := by
  have hall : ['f', 'i', 'l', 'e'].all Char.isAlphanum := by decide
  exact ⟨'f', ['i', 'l', 'e'], rfl, rfl, fun d hd => Or.inl (List.all_eq_true.1 hall d hd)⟩

theorem uriInRange_file {uri : String} (rest : String) (huri : uri = "file" ++ ":" ++ rest)
    (hne : rest ≠ "") (hmin : 4 ≤ (encodeUtf8 uri).length)
    (hmax : (encodeUtf8 uri).length ≤ 4096) : UriInRange uri :=
  ⟨⟨"file", rest, huri, isScheme_file, hne⟩, hmin, hmax⟩

theorem minimalV01Spec_inRange : minimalV01Spec.InRange where
  header := ⟨by decide, by decide, by decide⟩
  flags_lt := by decide
  flags := by simp [minimalV01Spec]
  flags_nodup := by simp [minimalV01Spec]
  metadataReference := by
    refine ⟨_, rfl, by simp, by simp, by simp, ?_⟩
    rintro _ (_ | ⟨_, ⟨⟩⟩)
    exact uriInRange_file "///var/lib/limnifs/metadata.bin" (by decide) (by decide)
      (by decide) (by decide)
  slabIndex_lt := by decide
  slabIndex := by
    rintro _ (_ | ⟨_, ⟨⟩⟩)
    refine ⟨by simp, by simp, ?_⟩
    rintro _ (_ | ⟨_, ⟨⟩⟩)
    exact uriInRange_file "///var/lib/limnifs/slab-0.bin" (by decide) (by decide)
      (by decide) (by decide)
  slabIndex_nodup := by simp [minimalV01Spec]
  history_ne := by simp [minimalV01Spec]
  history_lt := by decide
  history := by
    rintro _ (_ | ⟨_, ⟨⟩⟩)
    exact ⟨by simp, by simp, by simp⟩

open scoped Reference in
theorem build_verify_roundTrip_minimal :
    ∃ artifact sections cursor report,
      buildManifest minimalV01Spec = .ok artifact ∧
      parseSections (.start artifact.bytes) = .ok ((sections, sections.slices), cursor) ∧
      minimalV01Spec.Describes sections ∧ cursor.remaining = [] ∧
      verifyBytes artifact.bytes = .ok report ∧
      report.extraBytesAfterHistory = 0 ∧
      sections.root = artifact.merkleRoot ∧
      report.merkleRoot = artifact.merkleRoot.toText :=
  build_verify_roundTrip minimalV01Spec_inRange (by rintro ⟨flag, ⟨⟩, -⟩)
    (by rintro ⟨flag, ⟨⟩, -⟩)

/-! ## Declared optional sections -/

/-- The bytes of a history with fewer than 256 entries are no erasure coding section: its version
byte fits, and the entry count is read as `k` and a zero `m`. -/
theorem parseEcParamsSection_history {history : History}
    (h : history.InRange defaultHistoryParamsMaxBytes) (hlt : history.entries.length < 256)
    {c : Cursor} {tail : Bytes} (hc : c.remaining = history.wire ++ tail) :
    parseEcParamsSection c = .error (.corrupt "ec_params default: m must be >= 1, got 0") := by
  have hzero : history.entries.length / 256 = 0 :=
    Nat.div_eq_of_lt hlt
  have hk : (UInt8.ofNat history.entries.length).toNat = history.entries.length :=
    UInt8.toNat_ofNat_of_lt' hlt
  have hpos : ¬ history.entries.length < 1 := by
    have hne := h.length_ne
    omega
  -- `01 nn 00`: the section version, the low byte of the count and its second byte.
  simp only [History.wire, toLe, hzero, List.cons_append, List.nil_append] at hc
  rcases readU8_cons hc with ⟨c₁, hversion, hc₁⟩
  rcases readU8_cons hc₁ with ⟨c₂, hreadK, hc₂⟩
  rcases readU8_cons hc₂ with ⟨c₃, hreadM, hc₃⟩
  rw [hk] at hreadK
  unfold parseEcParamsSection
  rw [Wire.Decodes.bind_ok hversion, raiseIf_bind_of_not (by decide),
    Wire.Decodes.bind_ok hreadK, Wire.Decodes.bind_ok hreadM]
  -- `k` is the count and passes; `m` is the second byte of the count and is zero.
  apply Wire.Decodes.bind_error
  simp only [UInt8.toNat_ofNat', Nat.zero_mod, validateShards, hpos, if_false]
  rfl

section Flagged

variable [UnicodeData]

/-- When the erasure coding flag is declared and no such section can be read behind the slab index,
the error of its parser is the error of the manifest. -/
theorem parseSections_error_of_ec {sections : Sections} (h : sections.RequiredInRange)
    (hec : sections.flags.hasEc) {c : Cursor} {rest : Bytes} {e : Exn}
    (hc : c.remaining = sections.header.wire ++ (sections.flags.wire ++
      (sections.metadataReference.wire ++ (sections.slabIndex.wire ++ rest))))
    (he : ∀ c' : Cursor, c'.remaining = rest → parseEcParamsSection c' = .error e) :
    parseSections c = .error e := by
  obtain ⟨c₁, h₁, hc₁⟩ := parseManifestHeader_decodes.withSlice.run
    (a := (sections.header, sections.header.wire)) ⟨h.header, rfl⟩ hc
  obtain ⟨c₂, h₂, hc₂⟩ := parseFeatureFlagsSection_decodes.withSlice.run
    (a := (sections.flags, sections.flags.wire)) ⟨h.flags, rfl⟩ hc₁
  obtain ⟨c₃, h₃, hc₃⟩ := (parseMetadataReferenceSection_decodes _ _).withSlice.run
    (a := (sections.metadataReference, sections.metadataReference.wire))
    ⟨h.metadataReference, rfl⟩ hc₂
  obtain ⟨c₄, h₄, hc₄⟩ := (parseSlabIndexSection_decodes _).withSlice.run
    (a := (sections.slabIndex, sections.slabIndex.wire)) ⟨h.slabIndex, rfl⟩ hc₃
  -- The flag is declared, so the parser of the section runs on what is left.
  have hsection : withSlice (parseOptional sections.flags.hasEc parseEcParamsSection) c₄ =
      .error e := by
    unfold parseOptional withSlice
    rw [if_pos hec, map_eq_pure_bind, Wire.Decodes.bind_error (he c₄ hc₄)]
    rfl
  unfold parseSections
  apply (Wire.Decodes.bind_ok h₁).trans
  apply (Wire.Decodes.bind_ok h₂).trans
  apply (Wire.Decodes.bind_ok h₃).trans
  apply (Wire.Decodes.bind_ok h₄).trans
  exact Wire.Decodes.bind_error hsection

/-- Two manifests that begin alike have the same flags. -/
theorem flags_eq_of_wire_eq {a b : Sections} (ha : a.RequiredInRange) (hb : b.RequiredInRange)
    (h : a.wire = b.wire) : a.flags = b.flags := by
  simp only [Sections.wire, Slices.concat, List.append_assoc] at h
  -- Headers have one width, so the flag sections start at the same place.
  rcases parseManifestHeader_decodes.append_inj ha.header hb.header h with ⟨-, htail⟩
  exact (parseFeatureFlagsSection_decodes.append_inj ha.flags hb.flags htail).1

theorem ecParams_slice_ne_nil {sections : Sections} (h : sections.InRange)
    (hec : sections.flags.hasEc) : sections.slices.ecParams ≠ [] := by
  have hsome := h.ecParams_isSome.trans hec
  rcases Option.isSome_iff_exists.1 hsome with ⟨params, hparams⟩
  simp [Sections.slices, hparams, optionWire, EcParams.wire]

theorem dmsPolicy_slice_ne_nil {sections : Sections} (h : sections.InRange)
    (hdms : sections.flags.hasDms) : sections.slices.dmsPolicy ≠ [] := by
  have hsome := h.dmsPolicy_isSome.trans hdms
  rcases Option.isSome_iff_exists.1 hsome with ⟨policy, hpolicy⟩
  simp [Sections.slices, hpolicy, optionWire, DmsPolicy.wire]

variable [Blake3]

/-- The verifier accepts what the builder wrote, with the builder's root and nothing left over. -/
def BuilderAgrees (spec : ManifestSpec) : Prop :=
  ∀ artifact, buildManifest spec = .ok artifact →
    ∃ report, verifyBytes artifact.bytes = .ok report ∧
      report.merkleRoot = artifact.merkleRoot.toText ∧ report.extraBytesAfterHistory = 0

/-- On a spec that declares an optional section, builder and verifier do not agree: the builder
hashes the empty string in its slot and the verifier a non-empty section, so an agreement would
need two distinct inputs of BLAKE3 with one digest, and it names them. -/
theorem not_builderAgrees_of_declares {spec : ManifestSpec} (h : spec.InRange)
    (hdecl : spec.Declares flagEc ∨ spec.Declares flagDms) :
    ¬ BuilderAgrees spec ∨
      ∃ artifact sections cursor, buildManifest spec = .ok artifact ∧
        parseSections (.start artifact.bytes) = .ok ((sections, sections.slices), cursor) ∧
        (Collision Blake3.digest sections.slices.ecParams [] ∨
          Collision Blake3.digest sections.slices.dmsPolicy [] ∨
          Collision Blake3.digest (merkleInput sections.hashes)
            (merkleInput artifact.sectionHashes)) := by
  rw [or_iff_not_imp_left, not_not]
  intro hagrees
  rcases h.exists_sections with ⟨built, hd, hr⟩
  have hbuild := buildManifest_eq_ok h hd
  rcases hagrees _ hbuild with ⟨report, hverify, hroot, hextra⟩
  -- An accepted buffer is the encoding of sections, here with the flags the builder wrote.
  rcases verifyBytes_eq_ok_iff.1 hverify with ⟨sections, tail, hrange, hbytes, rfl⟩
  obtain rfl : tail = [] := List.length_eq_zero_iff.1 hextra
  rw [List.append_nil] at hbytes
  obtain ⟨cursor, hparse, -⟩ :=
    parseSections_decodes.decode_append (a := (sections, sections.slices)) ⟨hrange, rfl⟩ []
  rw [List.append_nil, ← hbytes] at hparse
  refine ⟨_, sections, cursor, hbuild, hparse, ?_⟩
  have hflags : sections.flags = built.flags :=
    flags_eq_of_wire_eq hrange.toRequiredInRange hr hbytes.symm
  have hdigest : Blake3.digest (merkleInput sections.hashes) =
      Blake3.digest (merkleInput built.hashes) :=
    congrArg ManifestRoot.bytes (ManifestRoot.toText_inj hroot)
  -- Equal roots: the slots agree, the one of the declared section included, or the inputs collide.
  rcases merkleInput_binds hdigest with hslots | hcol
  · simp only [SectionHashes.slots, List.cons.injEq, and_true] at hslots
    rcases hslots with ⟨-, -, -, -, -, -, hec, hdms, -, -⟩
    rcases hdecl with hdecl | hdecl
    · have hhas : sections.flags.hasEc := hflags ▸ get_isSome hd hdecl
      have hempty : built.slices.ecParams = [] := by
        simp [Sections.slices, hd.ecParams, optionWire]
      have hslot : hashSection sections.slices.ecParams = hashSection built.slices.ecParams := hec
      exact Or.inl ⟨ecParams_slice_ne_nil hrange hhas, hempty ▸ hslot⟩
    · have hhas : sections.flags.hasDms := hflags ▸ get_isSome hd hdecl
      have hempty : built.slices.dmsPolicy = [] := by
        simp [Sections.slices, hd.dmsPolicy, optionWire]
      have hslot : hashSection sections.slices.dmsPolicy = hashSection built.slices.dmsPolicy :=
        hdms
      exact Or.inr (Or.inl ⟨dmsPolicy_slice_ne_nil hrange hhas, hempty ▸ hslot⟩)
  · exact Or.inr (Or.inr hcol)

/-- A spec with the erasure coding flag and fewer than 256 history entries is built, and what was
built is refused. -/
theorem verifyBytes_of_declares_ec {spec : ManifestSpec} (h : spec.InRange)
    (hdecl : spec.Declares flagEc) (hlt : spec.history.length < 256) :
    ∃ artifact, buildManifest spec = .ok artifact ∧
      verifyBytes artifact.bytes =
        .error (.corrupt "ec_params default: m must be >= 1, got 0") := by
  rcases h.exists_sections with ⟨sections, hd, hr⟩
  refine ⟨_, buildManifest_eq_ok h hd, ?_⟩
  have hentries : sections.history.entries.length < 256 := by
    rw [hd.history, List.length_map]
    exact hlt
  have hrem : (Wire.Cursor.start sections.wire).remaining = sections.header.wire ++
      (sections.flags.wire ++ (sections.metadataReference.wire ++ (sections.slabIndex.wire ++
        (sections.history.wire ++ [])))) := by
    simp [Sections.wire, Slices.concat, Sections.slices, hd.ecParams, hd.dmsPolicy, optionWire]
  have hparse := parseSections_error_of_ec hr (get_isSome hd hdecl) hrem
    fun c' hc' => parseEcParamsSection_history hr.history hentries hc'
  unfold verifyBytes
  rw [hparse]
  rfl

end Flagged

/-- `minimal_v0_1_with_flags_spec()` -/
def minimalV01WithFlagsSpec : ManifestSpec :=
  { minimalV01Spec with
    featureFlags := [⟨0x0001, true⟩, ⟨0x0012, false⟩] }

theorem minimalV01WithFlagsSpec_inRange : minimalV01WithFlagsSpec.InRange :=
  { minimalV01Spec_inRange with
    flags_lt := by decide
    flags := by simp [minimalV01WithFlagsSpec]
    flags_nodup := by simp [minimalV01WithFlagsSpec] }

theorem minimalV01WithFlagsSpec_declares : minimalV01WithFlagsSpec.Declares flagEc :=
  ⟨⟨0x0001, true⟩, List.mem_cons_self, rfl⟩

open scoped Reference in
theorem not_builderAgrees_of_declares_minimal :
    ¬ BuilderAgrees minimalV01WithFlagsSpec ∨
      ∃ artifact sections cursor, buildManifest minimalV01WithFlagsSpec = .ok artifact ∧
        parseSections (.start artifact.bytes) = .ok ((sections, sections.slices), cursor) ∧
        (Collision Blake3.digest sections.slices.ecParams [] ∨
          Collision Blake3.digest sections.slices.dmsPolicy [] ∨
          Collision Blake3.digest (merkleInput sections.hashes)
            (merkleInput artifact.sectionHashes)) :=
  not_builderAgrees_of_declares minimalV01WithFlagsSpec_inRange
    (Or.inl minimalV01WithFlagsSpec_declares)

open scoped Reference in
/-- The spec of the tests with two flags: it is built, and the verifier refuses it. -/
theorem builderAgrees_fails_minimal :
    ¬ ∀ spec : ManifestSpec, spec.InRange → spec.Declares flagEc ∨ spec.Declares flagDms →
      BuilderAgrees spec := by
  intro hall
  obtain ⟨artifact, hbuild, hverify⟩ := verifyBytes_of_declares_ec minimalV01WithFlagsSpec_inRange
    minimalV01WithFlagsSpec_declares (by decide)
  obtain ⟨report, hreport, -⟩ := hall minimalV01WithFlagsSpec minimalV01WithFlagsSpec_inRange
    (Or.inl minimalV01WithFlagsSpec_declares) artifact hbuild
  rw [hverify] at hreport
  cases hreport

/-! ## Metadata blobs -/

/-- Every blob in range, written in the documented layout with anything behind it, is read back,
and the cursor stops where the layout ends. -/
theorem parseMetadataBlob_roundTrip [UnicodeData] {blob : MetadataBlob}
    (hblob : blob.InRange defaultInlineDataMaxBytes) (tail : Bytes) :
    ∀ c : Cursor, c.remaining = blob.wire ++ tail →
      ∃ c', parseMetadataBlob defaultInlineDataMaxBytes c = .ok (blob, c') ∧
        c'.pos = c.pos + blob.wire.length ∧ c'.remaining = tail := by
  intro c hc
  -- The layout fixes the flags, so reading it back is a matter of completeness.
  rcases Wire.Cursor.Consumes.of_append hc with ⟨c', hconsumes, hrem⟩
  exact ⟨c', parseMetadataBlob_reads hblob c c' hconsumes, hconsumes.pos_eq, hrem⟩

namespace Reference

/-- An inode with the given number, mode, content, access time and attributes. -/
def inode (number mode : Nat) (contentHandle : ContentHandle) (atimeNs : Option Nat)
    (xattrs : List XAttr) : Inode :=
  { number, mode, uid := 0, gid := 0, mtimeNs := 0, ctimeNs := 0, nlink := 1, contentHandle,
    atimeNs, xattrs }

theorem inode_inRange {number mode maxInlineBytes : Nat} {contentHandle : ContentHandle}
    {atimeNs : Option Nat} {xattrs : List XAttr} (hnumber : number < 2 ^ 64) (hmode : mode < 2 ^ 32)
    (hatime : ∀ ns ∈ atimeNs, ns < 2 ^ 64) (hlen : xattrs.length < 2 ^ 32)
    (hxattrs : ∀ attr ∈ xattrs, attr.InRange)
    (hcontent : contentHandle.InRange maxInlineBytes (mode &&& sIfmt)) :
    (inode number mode contentHandle atimeNs xattrs).InRange maxInlineBytes :=
  ⟨hnumber, hmode, by simp [inode], by simp [inode], by simp [inode], by simp [inode],
    by simp [inode], hatime, hlen, hxattrs, hcontent⟩

/-- A directory, a file in a drop, an inline file, a symlink, a device and a pipe. -/
def blob : MetadataBlob where
  inodes := [
    inode 1 0x41ED (.directory (List.replicate 32 0xBB)) none [],
    inode 2 0x81A4 (.sliceMap [⟨0, 5, ⟨List.replicate 32 0xAA, by simp⟩, 0, 5⟩]) none [],
    inode 3 0x81A4 (.inlineData [0x68, 0x69]) (some 7) [⟨0, "user.k", [1]⟩],
    inode 4 0xA1FF (.symlink "target") none [],
    inode 5 0x21B6 (.device 259) none [],
    inode 6 0x11B6 (.pipe 0) none []]
  dirNodes := [⟨1, [⟨"a", 2, 1⟩, ⟨"b", 3, 1⟩]⟩]

theorem blob_inRange : blob.InRange defaultInlineDataMaxBytes where
  inodes_lt := by decide
  inodes := by
    have hattr : ∀ attr ∈ [XAttr.mk 0 "user.k" [1]], attr.InRange := by
      rintro _ (_ | ⟨_, ⟨⟩⟩)
      exact ⟨by decide, by decide, by decide, by decide⟩
    have hslice : ∀ ref ∈ [SliceRef.mk 0 5 ⟨List.replicate 32 0xAA, by simp⟩ 0 5],
        ref.InRange := by
      rintro _ (_ | ⟨_, ⟨⟩⟩)
      exact ⟨by decide, by decide, by decide, by decide⟩
    simp only [blob, List.forall_mem_cons]
    refine ⟨?_, ?_, ?_, ?_, ?_, ?_, by simp⟩
    · exact inode_inRange (by decide) (by decide) (by simp) (by decide) (by simp)
        ⟨by decide, by simp⟩
    · exact inode_inRange (by decide) (by decide) (by simp) (by decide) (by simp)
        ⟨by decide, by decide, hslice⟩
    · exact inode_inRange (by decide) (by decide) (by simp) (by decide) hattr
        ⟨by decide, by decide, by decide⟩
    · exact inode_inRange (by decide) (by decide) (by simp) (by decide) (by simp)
        ⟨by decide, by decide⟩
    · exact inode_inRange (by decide) (by decide) (by simp) (by decide) (by simp)
        ⟨Or.inr (by decide), by decide⟩
    · exact inode_inRange (by decide) (by decide) (by simp) (by decide) (by simp)
        ⟨Or.inl (by decide), by decide⟩
  dirNodes_lt := by decide
  dirNodes := by
    rintro _ (_ | ⟨_, ⟨⟩⟩)
    refine ⟨rfl, by decide, ?_, ?_⟩
    · simp only [List.forall_mem_cons]
      refine ⟨?_, ?_, by simp⟩
      · exact ⟨by decide, by decide, by decide, by decide, by decide, by decide⟩
      · exact ⟨by decide, by decide, by decide, by decide, by decide, by decide⟩
    · have hlt : "a" < "b" := String.lt_iff_toList_lt.2 (by decide)
      exact List.pairwise_pair.2 hlt

end Reference

open scoped Reference in
theorem parseMetadataBlob_roundTrip_blob :
    ∃ c', parseMetadataBlob defaultInlineDataMaxBytes (.start (Reference.blob.wire ++ [0xFF])) =
        .ok (Reference.blob, c') ∧
      c'.pos = Reference.blob.wire.length ∧ c'.remaining = [0xFF] := by
  obtain ⟨c', hparse, hpos, hrem⟩ := parseMetadataBlob_roundTrip Reference.blob_inRange [0xFF]
    (.start (Reference.blob.wire ++ [0xFF])) (Wire.Cursor.remaining_start _)
  have hstart : (Wire.Cursor.start (Reference.blob.wire ++ [0xFF])).pos = 0 := rfl
  rw [hstart, Nat.zero_add] at hpos
  exact ⟨c', hparse, hpos, hrem⟩

end LimniFs
