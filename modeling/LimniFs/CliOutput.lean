import LimniFs.Binding
import LimniFs.Wire.Json

/-!
# CliOutput — what `limni-py verify` prints of a report

The report goes out as one JSON line or as lines for people.  Both are compared across
implementations, so what matters is what an output says about the image: the JSON line determines
the whole report, and the other output determines it up to a collision of BLAKE3.
-/

namespace LimniFs

open Wire

/-! ## `_print_json` -/

def FeatureFlag.toJson (flag : FeatureFlag) : Json :=
  .object [("flag_id", .number flag.flagId), ("required", .bool flag.required)]

def InodeSummary.toJson (inode : InodeSummary) : Json :=
  .object [("number", .number inode.number), ("mode", .number inode.mode),
    ("kind", .number inode.kind)]

def DirNodeSummary.toJson (node : DirNodeSummary) : Json :=
  .object [("entries", .number node.entries), ("first", .string (utf16 node.first))]

def rootInodeJson : Option Nat → Json
  | none => .null
  | some number => .number number

/-- The entries that `report.update` adds. -/
def MetadataSummary.members (summary : MetadataSummary) : List (String × Json) :=
  [("metadata_inode_count", .number summary.metadataInodeCount),
    ("metadata_dir_node_count", .number summary.metadataDirNodeCount),
    ("metadata_root_inode", rootInodeJson summary.metadataRootInode),
    ("metadata_inodes", .array (summary.metadataInodes.map InodeSummary.toJson)),
    ("metadata_dir_nodes", .array (summary.metadataDirNodes.map DirNodeSummary.toJson))]

def Report.members (report : Report) : List (String × Json) :=
  [("magic", .string (utf16 report.magic)),
    ("drop_store_version", .number report.dropStoreVersion),
    ("metadata_version", .number report.metadataVersion),
    ("manifest_version", .number report.manifestVersion),
    ("feature_flags", .array (report.featureFlags.map FeatureFlag.toJson)),
    ("metadata_inlined", .bool report.metadataInlined),
    ("slab_index_entries", .number report.slabIndexEntries),
    ("history_entries", .number report.historyEntries),
    ("extra_bytes_after_history", .number report.extraBytesAfterHistory),
    ("merkle_root", .string (utf16 report.merkleRoot))] ++
  match report.metadata with
  | none => []
  | some summary => summary.members

/-- The text of a path.  Bytes of a file name that are not UTF-8 stand in it as lone surrogates. -/
abbrev PathText : Type :=
  List CodePoint

/-- `{"path": str(path), **report}` -/
def payload (path : PathText) (report : Report) : Json :=
  .object (("path", .string (path.flatMap CodePoint.utf16)) :: report.members)

def printJson (path : PathText) (report : Report) : String :=
  String.ofList ((payload path report).text ++ ['\n'])

/-! ## `_print_human` -/

/-- `print(f"{label}{value}")` -/
def humanLine (label : String) (value : List Char) : List Char :=
  label.toList ++ (value ++ ['\n'])

def humanFlag (flag : FeatureFlag) : List Char :=
  humanLine "    0x" ((formatHex 4 flag.flagId).toList ++ ("            ".toList ++
    if flag.required then "required".toList else "optional".toList))

def humanFlags (flags : List FeatureFlag) : List Char :=
  if flags = [] then
    humanLine "  feature flags:       0 entries" []
  else
    humanLine "  feature flags:       " (decimal flags.length ++ " entries".toList) ++
      flags.flatMap humanFlag

/-- The warning about bytes that were not parsed. -/
def humanWarning (extra : Nat) : List Char :=
  if extra > 0 then
    humanLine "  warning:             " (decimal extra ++
      (" extra bytes after history (optional sections present, not parsed)").toList)
  else
    []

/-- The lines for a path without lone surrogates; with one, no line can be encoded. -/
def printHuman (path : String) (report : Report) : String :=
  String.ofList (path.toList ++ (humanLine ": valid LimniFS manifest" [] ++
    (humanLine "  magic:               LMFS" [] ++
    (humanLine "  drop store version:  " (decimal report.dropStoreVersion) ++
    (humanLine "  metadata version:    " (decimal report.metadataVersion) ++
    (humanLine "  manifest version:    " (decimal report.manifestVersion) ++
    (humanFlags report.featureFlags ++
    (humanLine "  metadata:            "
      (if report.metadataInlined then "inlined".toList else "external".toList) ++
    (humanLine "  slab index:          " (decimal report.slabIndexEntries ++ " entries".toList) ++
    (humanLine "  history:             " (decimal report.historyEntries ++ " entries".toList) ++
    (humanWarning report.extraBytesAfterHistory ++
      humanLine "  merkle root:         " report.merkleRoot.toList)))))))))))

/-! ## What the JSON line says -/

theorem FeatureFlag.toJson_injective : Function.Injective FeatureFlag.toJson := by
  rintro ⟨_, _⟩ ⟨_, _⟩ h
  simpa [FeatureFlag.toJson] using h

theorem InodeSummary.toJson_injective : Function.Injective InodeSummary.toJson := by
  rintro ⟨_, _, _⟩ ⟨_, _, _⟩ h
  simpa [InodeSummary.toJson] using h

theorem DirNodeSummary.toJson_injective : Function.Injective DirNodeSummary.toJson := by
  rintro ⟨_, _⟩ ⟨_, _⟩ h
  simpa [DirNodeSummary.toJson] using h

theorem rootInodeJson_injective : Function.Injective rootInodeJson := by
  rintro (_ | m) (_ | n) h
  · rfl
  · cases h
  · cases h
  · cases h
    rfl

theorem MetadataSummary.members_inj {a b : MetadataSummary} (h : a.members = b.members) :
    a = b := by
  rcases a with ⟨_, _, _, _, _⟩
  rcases b with ⟨_, _, _, _, _⟩
  simpa [members, InodeSummary.toJson_injective.list_map.eq_iff,
    DirNodeSummary.toJson_injective.list_map.eq_iff, rootInodeJson_injective.eq_iff] using h

theorem Report.members_inj {a b : Report} (h : a.members = b.members) : a = b := by
  rcases a with ⟨_, _, _, _, _, _, _, _, _, _, metadata⟩
  rcases b with ⟨_, _, _, _, _, _, _, _, _, _, metadata'⟩
  -- The keys of the metadata summary are there in both reports or in neither.
  rcases metadata with _ | summary <;> rcases metadata' with _ | summary'
  · simpa [members, FeatureFlag.toJson_injective.list_map.eq_iff] using h
  · simp [members, MetadataSummary.members] at h
  · simp [members, MetadataSummary.members] at h
  · simp only [members, List.cons_append, List.nil_append, List.cons.injEq, Prod.mk.injEq,
      true_and, Json.string.injEq, utf16_inj, Json.number.injEq, Json.bool.injEq, Json.array.injEq,
      FeatureFlag.toJson_injective.list_map.eq_iff] at h
    rcases h with ⟨rfl, rfl, rfl, rfl, rfl, rfl, rfl, rfl, rfl, rfl, hsummary⟩
    rw [MetadataSummary.members_inj hsummary]

theorem payload_inj {path path' : PathText} {report report' : Report}
    (h : payload path report = payload path' report') :
    path.flatMap CodePoint.utf16 = path'.flatMap CodePoint.utf16 ∧ report = report' := by
  simp only [payload, Json.object.injEq, List.cons.injEq, Prod.mk.injEq, true_and,
    Json.string.injEq] at h
  exact ⟨h.1, Report.members_inj h.2⟩

/-- A printed line in front of anything determines the code units of the path, and the report. -/
theorem printJson_append_inj {path path' : PathText} {report report' : Report} {xs ys : List Char}
    (h : (printJson path report).toList ++ xs = (printJson path' report').toList ++ ys) :
    (path.flatMap CodePoint.utf16 = path'.flatMap CodePoint.utf16 ∧ report = report') ∧
      xs = ys := by
  simp only [printJson, String.toList_ofList, List.append_assoc] at h
  rcases Json.text_append_inj _ _ (stopsAt_cons (by decide)) (stopsAt_cons (by decide)) h with
    ⟨hpayload, hrest⟩
  exact ⟨payload_inj hpayload, (List.cons.inj hrest).2⟩

theorem printJson_inj {path path' : PathText} {report report' : Report}
    (h : printJson path report = printJson path' report') : report = report' :=
  (printJson_append_inj (congrArg (· ++ []) (congrArg String.toList h))).1.2

theorem decimal_prefixCode {stop : Char} (hstop : stop.isDigit = false) :
    PrefixCode (fun _ : Nat => True) fun n => decimal n ++ [stop] := by
  intro m n xs ys _ _ h
  rw [List.append_assoc, List.append_assoc] at h
  rcases decimal_append_inj (stopsAt_cons hstop) (stopsAt_cons hstop) h with ⟨rfl, hrest⟩
  exact ⟨rfl, (List.cons.inj hrest).2⟩

/-- A line that ends in a number and perhaps its unit. -/
theorem humanLine_prefixCode (label : String) :
    PrefixCode (fun _ : Nat => True) fun n => humanLine label (decimal n) := by
  apply PrefixCode.marked
  exact decimal_prefixCode (by decide)

theorem toList_entries : " entries".toList = [' '] ++ "entries".toList := by
  decide

theorem toList_blanks : "            ".toList = [' '] ++ "           ".toList := by
  decide

theorem toList_extra :
    (" extra bytes after history (optional sections present, not parsed)").toList =
    [' '] ++ ("extra bytes after history (optional sections present, not parsed)").toList := by
  decide

theorem humanLine_entries_prefixCode (label : String) : PrefixCode (fun _ : Nat => True)
    fun n => humanLine label (decimal n ++ " entries".toList) := by
  apply PrefixCode.congr (fun n =>
    label.toList ++ (decimal n ++ [' '] ++ ("entries".toList ++ ['\n'])))
  · exact ((decimal_prefixCode (by decide)).followed _).marked _
  · intro n _
    simp only [humanLine, toList_entries, List.append_assoc]

theorem hexValue_formatHex (width n : Nat) : hexValue (formatHex width n).toList = n := by
  unfold formatHex
  rw [String.toList_ofList, hexValue_pad, hexValue_map_toDigits hexVal_toUpper_digitChar]

theorem formatHex_ne_space (width n : Nat) : ∀ c ∈ (formatHex width n).toList, c ≠ ' ' := by
  have hdigit : ∀ d < 16, (Nat.digitChar d).toUpper ≠ ' ' := by
    decide
  unfold formatHex
  rw [String.toList_ofList, List.forall_mem_append]
  refine ⟨fun c hc => ?_, fun c hc => ?_⟩
  · rw [List.eq_of_mem_replicate hc]
    decide
  · rcases List.mem_map.1 hc with ⟨c', hc', rfl⟩
    rcases exists_digitChar c' hc' with ⟨d, hd, rfl⟩
    exact hdigit d hd

/-- A padded number ends where a blank follows. -/
theorem formatHex_prefixCode (width : Nat) :
    PrefixCode (fun _ : Nat => True) fun n => (formatHex width n).toList ++ [' '] := by
  intro m n xs ys _ _ h
  rw [List.append_assoc, List.append_assoc] at h
  have hrun : ∀ k, ∀ c ∈ (formatHex width k).toList, decide (c ≠ ' ') := by
    exact fun k c hc => decide_eq_true (formatHex_ne_space width k c hc)
  rcases run_append_inj (hrun m) (hrun n) (stopsAt_cons (by decide)) (stopsAt_cons (by decide)) h
    with ⟨hdigits, hrest⟩
  have hvalue : m = n := by
    calc
      m = hexValue (formatHex width m).toList := (hexValue_formatHex width m).symm
      _ = hexValue (formatHex width n).toList := by rw [hdigits]
      _ = n := hexValue_formatHex width n
  exact ⟨hvalue, (List.cons.inj hrest).2⟩

theorem required_ne_optional (xs ys : List Char) :
    "required".toList ++ xs ≠ "optional".toList ++ ys :=
  fun h => absurd (List.cons.inj h).1 (by decide)

theorem inlined_ne_external (xs ys : List Char) :
    "inlined".toList ++ xs ≠ "external".toList ++ ys :=
  fun h => absurd (List.cons.inj h).1 (by decide)

theorem humanFlag_prefixCode : PrefixCode (fun _ : FeatureFlag => True) humanFlag := by
  apply PrefixCode.congr (fun flag : FeatureFlag => "    0x".toList ++
    ((formatHex 4 flag.flagId).toList ++ [' '] ++ ("           ".toList ++
      ((if flag.required then "required".toList else "optional".toList) ++ ['\n']))))
  · apply PrefixCode.marked
    apply PrefixCode.field FeatureFlag.flagId (formatHex_prefixCode 4) fun _ _ => trivial
    intro flagId
    apply PrefixCode.marked
    apply PrefixCode.followed
    apply PrefixCode.comap FeatureFlag.required (PrefixCode.bool required_ne_optional)
      fun _ _ => trivial
    rintro ⟨_, _⟩ ⟨_, _⟩ ⟨-, rfl⟩ ⟨-, rfl⟩ hrequired
    exact congrArg (FeatureFlag.mk _) hrequired
  · intro flag _
    simp only [humanFlag, humanLine, toList_blanks, List.append_assoc]

theorem humanFlags_prefixCode : PrefixCode (fun _ : List FeatureFlag => True) humanFlags := by
  apply PrefixCode.congr (fun flags : List FeatureFlag =>
    humanLine "  feature flags:       " (decimal flags.length ++ " entries".toList) ++
      flags.flatMap humanFlag)
  · apply PrefixCode.field List.length (humanLine_entries_prefixCode _) fun _ _ => trivial
    intro n
    exact (humanFlag_prefixCode.each n).mono fun flags h => ⟨h.2, fun _ _ => trivial⟩
  -- The empty list has a line of its own, which reads as the others do.
  · intro flags _
    cases flags with
    | nil =>
        decide
    | cons flag flags =>
        exact if_neg (List.cons_ne_nil _ _)

theorem humanWarning_prefixCode : PrefixCode (fun _ : Nat => True)
    fun extra => humanWarning extra ++ "  merkle root:         ".toList := by
  have hwarning : ∀ n, 0 < n → humanWarning n ++ "  merkle root:         ".toList =
      "  warning:             ".toList ++ (decimal n ++ [' '] ++
        (("extra bytes after history (optional sections present, not parsed)").toList ++
          (['\n'] ++ "  merkle root:         ".toList))) := by
    intro n hn
    rw [humanWarning, if_pos hn]
    simp only [humanLine, toList_extra, List.append_assoc]
  -- A warning and the line of the root part at their third character.
  have hne : ∀ xs ys, "  merkle root:         ".toList ++ xs ≠
      "  warning:             ".toList ++ ys := fun xs ys h =>
    absurd (List.cons.inj (List.cons.inj (List.cons.inj h).2).2).1 (by decide)
  intro m n xs ys _ _ h
  rcases Nat.eq_zero_or_pos m with rfl | hm <;> rcases Nat.eq_zero_or_pos n with rfl | hn
  · exact ⟨rfl, List.append_cancel_left h⟩
  · dsimp only at h
    rw [hwarning n hn, List.append_assoc] at h
    exact absurd h (hne _ _)
  · dsimp only at h
    rw [hwarning m hm, List.append_assoc] at h
    exact absurd h.symm (hne _ _)
  · have hcode := ((decimal_prefixCode (show Char.isDigit ' ' = false by decide)).followed
      (("extra bytes after history (optional sections present, not parsed)").toList ++
          (['\n'] ++ "  merkle root:         ".toList))).marked "  warning:             ".toList
    dsimp only at h
    rw [hwarning m hm, hwarning n hn] at h
    exact hcode trivial trivial h

theorem humanKind_prefixCode : PrefixCode (fun _ : Bool => True) fun inlined =>
    humanLine "  metadata:            "
      (if inlined then "inlined".toList else "external".toList) := by
  apply PrefixCode.marked
  apply PrefixCode.followed
  exact PrefixCode.bool inlined_ne_external

/-- The fields of a report that stand in front of the root in the lines for people. -/
def Report.front (report : Report) : Report :=
  { report with magic := "LMFS", merkleRoot := "", metadata := none }

def humanFront (report : Report) : List Char :=
  humanLine "  drop store version:  " (decimal report.dropStoreVersion) ++
    (humanLine "  metadata version:    " (decimal report.metadataVersion) ++
    (humanLine "  manifest version:    " (decimal report.manifestVersion) ++
    (humanFlags report.featureFlags ++
    (humanLine "  metadata:            "
      (if report.metadataInlined then "inlined".toList else "external".toList) ++
    (humanLine "  slab index:          " (decimal report.slabIndexEntries ++ " entries".toList) ++
    (humanLine "  history:             " (decimal report.historyEntries ++ " entries".toList) ++
    (humanWarning report.extraBytesAfterHistory ++ "  merkle root:         ".toList)))))))

theorem humanFront_prefixCode : PrefixCode (fun report : Report => report.front = report)
    humanFront := by
  apply PrefixCode.field Report.dropStoreVersion (humanLine_prefixCode _) fun _ _ => trivial
  intro dropStoreVersion
  apply PrefixCode.field Report.metadataVersion (humanLine_prefixCode _) fun _ _ => trivial
  intro metadataVersion
  apply PrefixCode.field Report.manifestVersion (humanLine_prefixCode _) fun _ _ => trivial
  intro manifestVersion
  apply PrefixCode.field Report.featureFlags humanFlags_prefixCode fun _ _ => trivial
  intro featureFlags
  apply PrefixCode.field Report.metadataInlined humanKind_prefixCode fun _ _ => trivial
  intro metadataInlined
  apply PrefixCode.field Report.slabIndexEntries (humanLine_entries_prefixCode _)
    fun _ _ => trivial
  intro slabIndexEntries
  apply PrefixCode.field Report.historyEntries (humanLine_entries_prefixCode _) fun _ _ => trivial
  intro historyEntries
  apply PrefixCode.comap Report.extraBytesAfterHistory humanWarning_prefixCode fun _ _ => trivial
  rintro a b ⟨⟨⟨⟨⟨⟨⟨ha, h₁⟩, h₂⟩, h₃⟩, h₄⟩, h₅⟩, h₆⟩, h₇⟩
    ⟨⟨⟨⟨⟨⟨⟨hb, h₁'⟩, h₂'⟩, h₃'⟩, h₄'⟩, h₅'⟩, h₆'⟩, h₇'⟩ hextra
  rw [← ha, ← hb]
  simp [Report.front, h₁, h₁', h₂, h₂', h₃, h₃', h₄, h₄', h₅, h₅', h₆, h₆', h₇, h₇', hextra]

/-- For one path the lines determine every field of the report but the metadata summary. -/
theorem printHuman_inj {path : String} {report report' : Report}
    (h : printHuman path report = printHuman path report') :
    report.front = report'.front ∧ report.merkleRoot = report'.merkleRoot := by
  have hsplit : ∀ report : Report, (printHuman path report).toList = path.toList ++
      (humanLine ": valid LimniFS manifest" [] ++ (humanLine "  magic:               LMFS" [] ++
        (humanFront report.front ++ (report.merkleRoot.toList ++ ['\n'])))) := by
    intro report
    simp only [printHuman, humanFront, Report.front, humanLine, String.toList_ofList,
      List.append_assoc]
    rfl
  have htext := congrArg String.toList h
  rw [hsplit, hsplit] at htext
  have hfront := List.append_cancel_left (List.append_cancel_left (List.append_cancel_left htext))
  rcases humanFront_prefixCode rfl rfl hfront with ⟨hfields, hroot⟩
  exact ⟨hfields, String.toList_inj.1 (List.append_cancel_right hroot)⟩

/-! ## Two reports -/

section Reports

variable [UnicodeData] [Blake3]

/-- Accepted manifests with the same consumed bytes and as many bytes behind them are reported
alike. -/
theorem report_eq_of_consumed_eq {bufA bufB : Bytes} {reportA reportB : Report}
    (hA : verifyBytes bufA = .ok reportA) (hB : verifyBytes bufB = .ok reportB)
    (hconsumed : consumed bufA reportA = consumed bufB reportB)
    (hextra : reportA.extraBytesAfterHistory = reportB.extraBytesAfterHistory) :
    reportA = reportB := by
  rcases exists_sections_of_verifyBytes hA with ⟨a, tailA, -, ha, -, rfl, -, hconA, -⟩
  rcases exists_sections_of_verifyBytes hB with ⟨b, tailB, -, hb, -, rfl, -, hconB, -⟩
  have hwire : a.wire = b.wire := hconA.symm.trans (hconsumed.trans hconB)
  have hpair := parseSections_decodes.wire_inj (a := (a, a.slices)) (b := (b, b.slices))
    ⟨ha, rfl⟩ ⟨hb, rfl⟩ hwire
  have hab : a = b := congrArg Prod.fst hpair
  have hlen : tailA.length = tailB.length := hextra
  rw [hab, hlen]

/-- For accepted images and one path the two kinds of output say the same: one of them agrees on two
images exactly when the reports do, and that is when the consumed bytes and the number of bytes
behind them agree, unless two inputs of the hash collide. -/
theorem outputs_agree {bufA bufB : Bytes} {reportA reportB : Report}
    (hA : verifyBytes bufA = .ok reportA) (hB : verifyBytes bufB = .ok reportB) (path : String) :
    ((printHuman path reportA = printHuman path reportB ↔ reportA = reportB) ∧
      (printJson (points path) reportA = printJson (points path) reportB ↔ reportA = reportB) ∧
      (reportA = reportB ↔ consumed bufA reportA = consumed bufB reportB ∧
        reportA.extraBytesAfterHistory = reportB.extraBytesAfterHistory)) ∨
    RootCollision bufA bufB := by
  by_cases hroot : reportA.merkleRoot = reportB.merkleRoot
  · rcases consumed_eq_of_root_eq hA hB hroot with ⟨hconsumed, -⟩ | hcol
    · refine Or.inl ⟨⟨fun h => ?_, fun h => h ▸ rfl⟩,
        ⟨printJson_inj, fun h => h ▸ rfl⟩,
        ⟨fun h => ⟨hconsumed, h ▸ rfl⟩, fun h => report_eq_of_consumed_eq hA hB h.1 h.2⟩⟩
      -- The lines for people show the number of extra bytes.
      have hextra := congrArg Report.extraBytesAfterHistory (printHuman_inj h).1
      exact report_eq_of_consumed_eq hA hB hconsumed hextra
    · exact Or.inr hcol
  -- Images with two roots differ in all respects.
  · have hne : reportA ≠ reportB := fun h => hroot (h ▸ rfl)
    refine Or.inl ⟨⟨fun h => absurd (printHuman_inj h).2 hroot, fun h => absurd h hne⟩,
      ⟨printJson_inj, fun h => absurd h hne⟩, ⟨fun h => absurd h hne, fun h => ?_⟩⟩
    exact report_eq_of_consumed_eq hA hB h.1 h.2

end Reports

open scoped Reference in
theorem outputs_agree_small :
    verifyBytes Reference.small.wire = .ok (Reference.small.report 0) ∧
      verifyBytes (Reference.small.wire ++ [0]) = .ok (Reference.small.report 1) ∧
      (((printHuman "a" (Reference.small.report 0) = printHuman "a" (Reference.small.report 1) ↔
          Reference.small.report 0 = Reference.small.report 1) ∧
        (printJson (points "a") (Reference.small.report 0) =
            printJson (points "a") (Reference.small.report 1) ↔
          Reference.small.report 0 = Reference.small.report 1) ∧
        (Reference.small.report 0 = Reference.small.report 1 ↔
          consumed Reference.small.wire (Reference.small.report 0) =
              consumed (Reference.small.wire ++ [0]) (Reference.small.report 1) ∧
            (Reference.small.report 0).extraBytesAfterHistory =
              (Reference.small.report 1).extraBytesAfterHistory)) ∨
      RootCollision Reference.small.wire (Reference.small.wire ++ [0])) := by
  have hA := verifyBytes_append Reference.small_inRange []
  have hB := verifyBytes_append Reference.small_inRange [0]
  rw [List.append_nil] at hA
  exact ⟨hA, hB, outputs_agree hA hB "a"⟩

end LimniFs
