import LimniFs.Reference

/-!
# Binding — truncation, tails, and what the `ManifestRoot` commits to

The verifier reads one format from the front of the buffer, so a shortened buffer is reported as
truncated and bytes behind the history only change the count of extra bytes.  The section slices
cover the consumed bytes without a gap, so equal roots mean equal consumed bytes, unless two
distinct inputs of BLAKE3 have one digest.
-/

namespace LimniFs

open Wire

/-- The number of bytes up to the end of the history section. -/
def consumedLen (buf : Bytes) (report : Report) : Nat :=
  buf.length - report.extraBytesAfterHistory

def consumed (buf : Bytes) (report : Report) : Bytes :=
  buf.take (consumedLen buf report)

section Verify

variable [UnicodeData] [Blake3]

/-- An accepted buffer consumes the encoding of its sections. -/
theorem exists_sections_of_verifyBytes {buf : Bytes} {report : Report}
    (h : verifyBytes buf = .ok report) :
    ∃ (sections : Sections) (tail : Bytes) (cursor : Cursor), sections.InRange ∧
      buf = sections.wire ++ tail ∧ report = sections.report tail.length ∧
      consumedLen buf report = sections.wire.length ∧ consumed buf report = sections.wire ∧
      parseSections (.start buf) = .ok ((sections, sections.slices), cursor) ∧
      cursor.pos = sections.wire.length := by
  rcases verifyBytes_eq_ok_iff.1 h with ⟨sections, tail, hrange, rfl, rfl⟩
  rcases Wire.Cursor.Consumes.of_append (Wire.Cursor.remaining_start (sections.wire ++ tail)) with
    ⟨cursor, hc, -⟩
  have hlen : consumedLen (sections.wire ++ tail) (sections.report tail.length) =
      sections.wire.length := by
    simp [consumedLen, Sections.report]
  have hparse := parseSections_decodes.complete (a := (sections, sections.slices))
    ⟨hrange, rfl⟩ hc
  have hpos : cursor.pos = sections.wire.length := by
    simpa [Wire.Cursor.start] using hc.pos_eq
  exact ⟨sections, tail, cursor, hrange, rfl, rfl, hlen, by simp [consumed, hlen], hparse, hpos⟩

/-! ## Truncation and tails -/

/-- Every proper part of the consumed bytes is reported as truncated, and whatever follows them
only changes the count of extra bytes. -/
theorem verifyBytes_truncation_tail {buf : Bytes} {report : Report}
    (h : verifyBytes buf = .ok report) :
    (∃ r cursor, parseSections (.start buf) = .ok (r, cursor) ∧
      cursor.pos = consumedLen buf report) ∧
    (∀ k < consumedLen buf report, ∃ avail need,
      verifyBytes (buf.take k) = .error (.truncated avail need)) ∧
    ∀ t, verifyBytes (buf.take (consumedLen buf report) ++ t) =
      .ok { report with extraBytesAfterHistory := t.length } := by
  rcases exists_sections_of_verifyBytes h with
    ⟨sections, tail, cursor, hrange, rfl, rfl, hlen, -, hparse, hpos⟩
  rw [hlen]
  refine ⟨⟨_, cursor, hparse, hpos⟩, ?_, ?_⟩
  -- A cut inside the consumed part is a cut of the encoding itself.
  · intro k hk
    rw [List.take_append_of_le_length (Nat.le_of_lt hk)]
    exact verifyBytes_truncated hrange hk
  · intro t
    rw [List.take_left]
    exact verifyBytes_append hrange t

end Verify

open scoped Reference in
theorem verifyBytes_truncation_tail_small :
    verifyBytes Reference.small.wire = .ok (Reference.small.report 0) ∧
      ((∃ r cursor, parseSections (.start Reference.small.wire) = .ok (r, cursor) ∧
        cursor.pos = consumedLen Reference.small.wire (Reference.small.report 0)) ∧
      (∀ k < consumedLen Reference.small.wire (Reference.small.report 0), ∃ avail need,
        verifyBytes (Reference.small.wire.take k) = .error (.truncated avail need)) ∧
      ∀ t, verifyBytes (Reference.small.wire.take
          (consumedLen Reference.small.wire (Reference.small.report 0)) ++ t) =
        .ok { Reference.small.report 0 with extraBytesAfterHistory := t.length }) := by
  have hverify := verifyBytes_append Reference.small_inRange []
  rw [List.append_nil] at hverify
  exact ⟨hverify, verifyBytes_truncation_tail hverify⟩

/-! ## What the root commits to -/

/-- The section slices, with the empty string for the sections that v0.1 does not have. -/
def Slices.toList (slices : Slices) : List Bytes :=
  [slices.header, slices.flags, slices.metadataReference, slices.slabIndex, [], slices.ecParams,
    slices.dmsPolicy, [], slices.history]

theorem Slices.toList_inj {a b : Slices} (h : a.toList = b.toList) : a = b := by
  cases a
  cases b
  simp only [toList, List.cons.injEq, and_true, true_and] at h
  rcases h with ⟨rfl, rfl, rfl, rfl, rfl, rfl, rfl⟩
  rfl

section Binding

variable [Blake3]

/-- Everything that is hashed on the way to the root: the 330-byte input and the slices. -/
def hashInputs (hashes : SectionHashes) (slices : Slices) : List Bytes :=
  merkleInput hashes :: slices.toList

theorem hashes_slots (sections : Sections) : sections.hashes.slots =
    sections.metadataReference.metadataHash :: sections.slices.toList.map Blake3.digest :=
  rfl

/-- Sections with one root are equal, or two inputs at the same place of the computation collide. -/
theorem sections_eq_of_root_eq [UnicodeData] {a b : Sections} (ha : a.InRange) (hb : b.InRange)
    (h : a.root = b.root) :
    a = b ∨ ∃ p ∈ (hashInputs a.hashes a.slices).zip (hashInputs b.hashes b.slices),
      Collision Blake3.digest p.1 p.2 := by
  rcases merkleInput_binds (congrArg ManifestRoot.bytes h) with hslots | hcol
  · rw [hashes_slots, hashes_slots, List.cons.injEq] at hslots
    -- Nine of the ten slots are digests of slices; the tenth is a field of the reference slice.
    rcases map_digest_eq hslots.2 with heq | ⟨p, hp, hcol⟩
    -- Equal slices are equal encodings, and an encoding determines its sections.
    · have hslices : a.slices = b.slices := Slices.toList_inj heq
      have hwire : a.wire = b.wire := congrArg Slices.concat hslices
      have hpair := parseSections_decodes.wire_inj (a := (a, a.slices)) (b := (b, b.slices))
        ⟨ha, rfl⟩ ⟨hb, rfl⟩ hwire
      exact Or.inl (congrArg Prod.fst hpair)
    · exact Or.inr ⟨p, List.mem_cons_of_mem _ hp, hcol⟩
  · exact Or.inr ⟨_, List.mem_cons_self, hcol⟩

variable [UnicodeData]

/-- Two inputs of the hash that the verifier computes, one from each buffer, collide. -/
def RootCollision (bufA bufB : Bytes) : Prop :=
  ∃ sectionsA slicesA cursorA hashesA sectionsB slicesB cursorB hashesB,
    parseSections (.start bufA) = .ok ((sectionsA, slicesA), cursorA) ∧
    sectionHashesOf sectionsA slicesA = .ok hashesA ∧
    parseSections (.start bufB) = .ok ((sectionsB, slicesB), cursorB) ∧
    sectionHashesOf sectionsB slicesB = .ok hashesB ∧
    ∃ p ∈ (hashInputs hashesA slicesA).zip (hashInputs hashesB slicesB),
      Collision Blake3.digest p.1 p.2

theorem consumed_eq_of_root_eq {bufA bufB : Bytes} {reportA reportB : Report}
    (hA : verifyBytes bufA = .ok reportA) (hB : verifyBytes bufB = .ok reportB)
    (hroot : reportA.merkleRoot = reportB.merkleRoot) :
    (consumed bufA reportA = consumed bufB reportB ∧ ∃ r cursorA cursorB,
      parseSections (.start bufA) = .ok (r, cursorA) ∧
      parseSections (.start bufB) = .ok (r, cursorB)) ∨ RootCollision bufA bufB := by
  rcases exists_sections_of_verifyBytes hA with
    ⟨a, tailA, cursorA, ha, -, rfl, -, hconA, hparseA, -⟩
  rcases exists_sections_of_verifyBytes hB with
    ⟨b, tailB, cursorB, hb, -, rfl, -, hconB, hparseB, -⟩
  rcases sections_eq_of_root_eq ha hb (ManifestRoot.toText_inj hroot) with rfl | hcol
  · exact Or.inl ⟨hconA.trans hconB.symm, _, cursorA, cursorB, hparseA, hparseB⟩
  · exact Or.inr ⟨a, a.slices, cursorA, a.hashes, b, b.slices, cursorB, b.hashes, hparseA,
      sectionHashesOf_eq_ok ha, hparseB, sectionHashesOf_eq_ok hb, hcol⟩

/-- The root binds every consumed byte: equal roots come from equal consumed bytes, hence equal
section values, or name a collision; and a buffer whose bytes differ inside the consumed part is
refused, has another root, or names a collision. -/
theorem merkleRoot_binds {bufA : Bytes} {reportA : Report} (hA : verifyBytes bufA = .ok reportA) :
    (∀ bufB reportB, verifyBytes bufB = .ok reportB → reportA.merkleRoot = reportB.merkleRoot →
      (consumed bufA reportA = consumed bufB reportB ∧ ∃ r cursorA cursorB,
        parseSections (.start bufA) = .ok (r, cursorA) ∧
        parseSections (.start bufB) = .ok (r, cursorB)) ∨ RootCollision bufA bufB) ∧
    ∀ bufB : Bytes, bufB.take (consumedLen bufA reportA) ≠ consumed bufA reportA →
      (∃ pe, verifyBytes bufB = .error (.parse pe)) ∨
      ∃ reportB, verifyBytes bufB = .ok reportB ∧
        (reportA.merkleRoot ≠ reportB.merkleRoot ∨ RootCollision bufA bufB) := by
  refine ⟨fun bufB reportB hB hroot => consumed_eq_of_root_eq hA hB hroot, ?_⟩
  intro bufB hdiff
  cases hB : verifyBytes bufB with
  | error e =>
      rcases verifyBytes_raises hB with ⟨pe, rfl⟩
      exact Or.inl ⟨pe, rfl⟩
  | ok reportB =>
      refine Or.inr ⟨reportB, rfl, ?_⟩
      -- The roots are compared only once the second buffer has been accepted.
      rw [or_iff_not_imp_left, not_not]
      intro hroot
      rcases consumed_eq_of_root_eq hA hB hroot with ⟨hcon, -⟩ | hcol
      · -- The consumed bytes of the second buffer are those of the first, so it begins with them.
        exfalso
        rcases exists_sections_of_verifyBytes hA with ⟨a, tailA, -, -, -, -, hlenA, hconA, -⟩
        rcases exists_sections_of_verifyBytes hB with ⟨b, tailB, -, -, hbufB, -, -, hconB, -⟩
        have hwire : b.wire = a.wire := by
          calc
            b.wire = consumed bufB reportB := hconB.symm
            _ = consumed bufA reportA := hcon.symm
            _ = a.wire := hconA
        apply hdiff
        rw [hlenA, hconA, hbufB, hwire, List.take_left]
      · exact hcol

end Binding

open scoped Reference in
theorem merkleRoot_binds_small :
    verifyBytes Reference.small.wire = .ok (Reference.small.report 0) ∧
      ((∀ bufB reportB, verifyBytes bufB = .ok reportB →
        (Reference.small.report 0).merkleRoot = reportB.merkleRoot →
        (consumed Reference.small.wire (Reference.small.report 0) = consumed bufB reportB ∧
          ∃ r cursorA cursorB, parseSections (.start Reference.small.wire) = .ok (r, cursorA) ∧
            parseSections (.start bufB) = .ok (r, cursorB)) ∨
        RootCollision Reference.small.wire bufB) ∧
      ∀ bufB : Bytes, bufB.take (consumedLen Reference.small.wire (Reference.small.report 0)) ≠
          consumed Reference.small.wire (Reference.small.report 0) →
        (∃ pe, verifyBytes bufB = .error (.parse pe)) ∨
        ∃ reportB, verifyBytes bufB = .ok reportB ∧
          ((Reference.small.report 0).merkleRoot ≠ reportB.merkleRoot ∨
            RootCollision Reference.small.wire bufB)) := by
  have hverify := verifyBytes_append Reference.small_inRange []
  rw [List.append_nil] at hverify
  exact ⟨hverify, merkleRoot_binds hverify⟩

end LimniFs
