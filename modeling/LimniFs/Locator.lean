import LimniFs.FormatTypes

/-!
# Locator — length-prefixed URIs

A locator is a u32 length and that many bytes of UTF-8, of the form `scheme ":" rest`.  The scheme
is tested with `str.isalpha` and `str.isalnum`, that is, over all of Unicode.
-/

namespace LimniFs

open Wire

def locatorLengthPrefixLen : Nat := 4
def defaultLocatorMaxUriBytes : Nat := 4 * 1024
def minLocatorUriBytes : Nat := 4

structure LocatorEntry where
  uri : String
  deriving DecidableEq

/-- The two halves of `uri.split(":", 1)`. -/
def uriScheme (uri : String) : String :=
  String.ofList (uri.toList.takeWhile (· ≠ ':'))

def uriRest (uri : String) : String :=
  String.ofList ((uri.toList.dropWhile (· ≠ ':')).drop 1)

section Parser

variable [UnicodeData]

/-- `_is_valid_scheme`: `ALPHA *( ALPHA / DIGIT / "+" / "-" / "." )` -/
def isValidScheme (scheme : String) : Bool :=
  match scheme.toList with
  | [] => false
  | c :: cs => isalpha c && (c :: cs).all fun c => isalnum c || c ∈ ['+', '-', '.']

def parseLocatorEntry (maxUriBytes : Nat) : Parser LocatorEntry := do
  let rawLength ← readU32Le
  raiseIf (rawLength < minLocatorUriBytes)
    (.corrupt s!"locator length {rawLength} is below minimum {minLocatorUriBytes}")
  raiseIf (rawLength > maxUriBytes)
    (.corrupt s!"locator length {rawLength} exceeds ceiling {maxUriBytes}")
  -- Both bounds are on the byte length; the tests below are on the decoded text.
  let uriBytes ← read rawLength
  let uri ← decodeText uriBytes s!"locator URI is not valid UTF-8 ({rawLength} bytes)"
  raiseIf (':' ∉ uri.toList) (.corrupt s!"locator URI {reprStr uri} missing scheme separator ':'")
  raiseIf (uriScheme uri = "") (.corrupt s!"locator URI {reprStr uri} has empty scheme")
  raiseIf (¬ isValidScheme (uriScheme uri))
    (.corrupt (s!"locator URI {reprStr uri} scheme {reprStr (uriScheme uri)} " ++
      "does not match RFC 3986 grammar"))
  raiseIf (uriRest uri = "") (.corrupt s!"locator URI {reprStr uri} has empty scheme-specific part")
  return { uri }

/-- The `except (CorruptError, UnsupportedFeatureError)` around one entry: it names the index. -/
def annotateLocatorError (index : Nat) : Exn → Exn
  | .parse (.corrupt reason) =>
      .corrupt s!"locator entry {index}: {ParseError.str (.corrupt reason)}"
  | .parse (.unsupportedFeature feature) =>
      .corrupt s!"locator entry {index}: {ParseError.str (.unsupportedFeature feature)}"
  -- A truncated entry keeps its error and its byte counts.
  | e => e

def parseLocatorEntries (count maxUriBytes : Nat) : Parser (List LocatorEntry) := do
  -- No entry is shorter than its length field and the least URI.
  requireRemaining (count * (locatorLengthPrefixLen + minLocatorUriBytes))
  repeatIndexed
    (fun index => mapError (annotateLocatorError index) (parseLocatorEntry maxUriBytes)) 0 count

end Parser

/-! ## Wire format -/

namespace LocatorEntry

/-- What the parser accepts as a locator. -/
structure Accepted [UnicodeData] (maxUriBytes : Nat) (entry : LocatorEntry) : Prop where
  length_lt : (encodeUtf8 entry.uri).length < 2 ^ 32
  min_le : minLocatorUriBytes ≤ (encodeUtf8 entry.uri).length
  le_max : (encodeUtf8 entry.uri).length ≤ maxUriBytes
  separator : ':' ∈ entry.uri.toList
  scheme_ne : uriScheme entry.uri ≠ ""
  scheme : isValidScheme (uriScheme entry.uri)
  rest_ne : uriRest entry.uri ≠ ""

def wire (entry : LocatorEntry) : Bytes :=
  toLe 4 (encodeUtf8 entry.uri).length ++ encodeUtf8 entry.uri

theorem length_wire (entry : LocatorEntry) :
    entry.wire.length = locatorLengthPrefixLen + (encodeUtf8 entry.uri).length := by
  simp [wire, locatorLengthPrefixLen]

end LocatorEntry

/-- Naming the index of an entry turns a `ParseError` into a `ParseError`. -/
theorem annotateLocatorError_isParseError (index : Nat) (e : Exn) (he : e.IsParseError) :
    (annotateLocatorError index e).IsParseError := by
  rcases he with ⟨pe, rfl⟩
  cases pe with
  | truncated avail need =>
      exact Exn.isParseError_parse _
  | badMagic found expected =>
      exact Exn.isParseError_parse _
  | corrupt reason =>
      exact Exn.isParseError_parse _
  | unsupportedFeature feature =>
      exact Exn.isParseError_parse _

section Decodes

variable [UnicodeData]

theorem parseLocatorEntry_decodes (maxUriBytes : Nat) :
    Decodes (parseLocatorEntry maxUriBytes) (LocatorEntry.Accepted maxUriBytes)
      LocatorEntry.wire := by
  apply Wire.Decodes.record
  · apply Wire.Decodes.field (fun entry : LocatorEntry => (encodeUtf8 entry.uri).length)
      readU32Le_decodes
    · exact fun entry hentry _ => hentry.length_lt
    intro rawLength hraw
    apply Wire.Decodes.check
    · rintro entry hentry ⟨-, rfl⟩
      exact Nat.not_lt.2 hentry.min_le
    intro hmin
    apply Wire.Decodes.check
    · rintro entry hentry ⟨-, rfl⟩
      exact Nat.not_lt.2 hentry.le_max
    intro hmax
    apply Wire.Decodes.field (fun entry : LocatorEntry => encodeUtf8 entry.uri)
      (read_decodes rawLength)
    · rintro entry - ⟨-, hlen⟩
      exact hlen
    intro uriBytes hlen
    apply Wire.Decodes.field LocatorEntry.uri Wire.Decodes.lift
    · rintro entry - ⟨-, hbytes⟩
      exact decodeText_eq_ok_iff.2 hbytes.symm
    intro uri huri
    -- From here on the bytes and their length are those of the text.
    rcases decodeText_eq_ok_iff.1 huri with rfl
    subst hlen
    apply Wire.Decodes.check
    · rintro entry hentry ⟨-, rfl⟩
      simpa using hentry.separator
    intro hsep
    apply Wire.Decodes.check
    · rintro entry hentry ⟨-, rfl⟩
      exact hentry.scheme_ne
    intro hscheme
    apply Wire.Decodes.check
    · rintro entry hentry ⟨-, rfl⟩
      simpa using hentry.scheme
    intro hvalid
    apply Wire.Decodes.check
    · rintro entry hentry ⟨-, rfl⟩
      exact hentry.rest_ne
    intro hrest
    apply Wire.Decodes.done
    · exact ⟨hraw, Nat.not_lt.1 hmin, Nat.not_lt.1 hmax, not_not.1 hsep, hscheme, not_not.1 hvalid,
        hrest⟩
    · exact ⟨⟨⟨trivial, rfl⟩, rfl⟩, rfl⟩
    · rintro ⟨_⟩ - ⟨-, rfl⟩
      rfl
  · intro entry _
    simp [LocatorEntry.wire]

theorem parseLocatorEntries_decodes (count maxUriBytes : Nat) :
    Decodes (parseLocatorEntries count maxUriBytes)
      (fun entries => entries.length = count ∧
        ∀ entry ∈ entries, entry.Accepted maxUriBytes)
      (fun entries => entries.flatMap LocatorEntry.wire) := by
  -- Annotating the index changes no value and keeps truncation what it is.
  have hentry : ∀ index, Decodes
      (mapError (annotateLocatorError index) (parseLocatorEntry maxUriBytes))
      (LocatorEntry.Accepted maxUriBytes) LocatorEntry.wire := by
    intro index
    refine Wire.Decodes.mapError ?_ (parseLocatorEntry_decodes maxUriBytes)
    rintro _ ⟨avail, need, rfl⟩
    exact Exn.isTruncated_truncated avail need
  apply Wire.Decodes.guard (Exn.isTruncated_truncated · _)
  · exact Wire.Decodes.repeatIndexed hentry count 0
  · rintro entries ⟨rfl, hentries⟩
    apply Wire.Decodes.length_flatMap_ge
    intro entry hmem
    have hmin := (hentries entry hmem).min_le
    rw [LocatorEntry.length_wire]
    omega

theorem parseLocatorEntry_ensures (maxUriBytes : Nat) :
    Ensures (LocatorEntry.Accepted maxUriBytes) (parseLocatorEntry maxUriBytes) := by
  refine Wire.Ensures.valid (P := fun _ => True) ?_ (parseLocatorEntry_decodes maxUriBytes)
  apply Wire.Ensures.bind readU32Le_ensures
  intro rawLength _
  apply Wire.Ensures.raiseIf (fun _ => Exn.isParseError_parse _)
  intro _
  apply Wire.Ensures.raiseIf (fun _ => Exn.isParseError_parse _)
  intro _
  apply Wire.Ensures.bind (read_ensures rawLength)
  intro uriBytes _
  apply Wire.Ensures.bind (decodeText_ensures uriBytes _)
  intro uri _
  apply Wire.Ensures.raiseIf (fun _ => Exn.isParseError_parse _)
  intro _
  apply Wire.Ensures.raiseIf (fun _ => Exn.isParseError_parse _)
  intro _
  apply Wire.Ensures.raiseIf (fun _ => Exn.isParseError_parse _)
  intro _
  apply Wire.Ensures.raiseIf (fun _ => Exn.isParseError_parse _)
  intro _
  exact Wire.Ensures.pure trivial

theorem parseLocatorEntries_ensures (count maxUriBytes : Nat) :
    Ensures (fun entries => ∀ entry ∈ entries, entry.Accepted maxUriBytes)
      (parseLocatorEntries count maxUriBytes) := by
  apply Wire.Ensures.guard (fun _ => Exn.isParseError_parse _)
  exact Wire.Ensures.repeatIndexed (fun index => Wire.Ensures.mapError
    (annotateLocatorError_isParseError index) (parseLocatorEntry_ensures maxUriBytes)) count 0

end Decodes

/-! ## The grammar of RFC 3986 -/

/-- `ALPHA *( ALPHA / DIGIT / "+" / "-" / "." )` over ASCII. -/
def IsScheme (scheme : String) : Prop :=
  ∃ c cs, scheme.toList = c :: cs ∧ c.isAlpha ∧
    ∀ d ∈ c :: cs, d.isAlphanum ∨ d ∈ ['+', '-', '.']

/-- A locator that the format admits: `scheme ":" rest` in 4 to 4096 bytes. -/
structure UriInRange (uri : String) : Prop where
  form : ∃ scheme rest, uri = scheme ++ ":" ++ rest ∧ IsScheme scheme ∧ rest ≠ ""
  min_le : 4 ≤ (encodeUtf8 uri).length
  le_max : (encodeUtf8 uri).length ≤ 4096

theorem lt_128_of_isAlphanum {c : Char} (h : c.isAlphanum) : c.toNat < 128 := by
  have hval : c.toNat = c.val.toNat := rfl
  have halnum : c.isAlphanum = (decide (c.val ≥ 'A'.val ∧ c.val ≤ 'Z'.val) ||
      (decide (c.val ≥ 'a'.val) && decide (c.val ≤ 'z'.val)) ||
      (decide (c.val ≥ '0'.val) && decide (c.val ≤ '9'.val))) := rfl
  -- Each of the three ranges ends below 128.
  simp only [halnum, Bool.or_eq_true, Bool.and_eq_true, decide_eq_true_eq, ge_iff_le,
    UInt32.le_iff_toNat_le] at h
  simp at h
  omega

theorem IsScheme.separator_notMem {scheme : String} (h : IsScheme scheme) :
    ':' ∉ scheme.toList := by
  rcases h with ⟨c, cs, hscheme, -, hall⟩
  rw [hscheme]
  intro hmem
  have hcolon : (':').isAlphanum = true ∨ ':' ∈ ['+', '-', '.'] := hall ':' hmem
  exact absurd hcolon (by decide)

theorem IsScheme.valid [UnicodeData] {scheme : String} (h : IsScheme scheme) :
    isValidScheme scheme := by
  rcases h with ⟨c, cs, hscheme, halpha, hall⟩
  -- The grammar is over ASCII, where `isalpha` and `isalnum` of any Unicode version agree with it.
  have hfirst : isalpha c = true := by
    rw [isalpha_ascii (lt_128_of_isAlphanum (by simp [Char.isAlphanum, halpha]))]
    exact halpha
  have hrest : (c :: cs).all fun d => isalnum d || d ∈ ['+', '-', '.'] := by
    rw [List.all_eq_true]
    intro d hd
    rcases hall d hd with halnum | hmark
    · simp [isalnum_ascii (lt_128_of_isAlphanum halnum), halnum]
    · simp [hmark]
  simp only [isValidScheme, hscheme, hfirst, hrest, Bool.and_self]

/-- Splitting `scheme ":" rest` at the first colon gives the scheme and the rest. -/
theorem uriScheme_append {scheme : String} (rest : String) (h : ':' ∉ scheme.toList) :
    uriScheme (scheme ++ ":" ++ rest) = scheme ∧ uriRest (scheme ++ ":" ++ rest) = rest := by
  have hlist : (scheme ++ ":" ++ rest).toList = scheme.toList ++ ':' :: rest.toList := by
    simp
  -- The scheme has no colon, so the first colon of the URI is the separator.
  have hne : ∀ c ∈ scheme.toList, decide (c ≠ ':') = true := by
    intro c hc
    simp only [decide_eq_true_eq]
    rintro rfl
    exact h hc
  unfold uriScheme uriRest
  rw [hlist, List.takeWhile_append_of_pos hne, List.dropWhile_append_of_pos hne]
  simp

/-- The parser accepts the form when the length is in bounds. -/
theorem LocatorEntry.accepted_of_form [UnicodeData] {maxUriBytes : Nat} {scheme rest : String}
    (hscheme : IsScheme scheme) (hrest : rest ≠ "")
    (hlt : (encodeUtf8 (scheme ++ ":" ++ rest)).length < 2 ^ 32)
    (hmin : 4 ≤ (encodeUtf8 (scheme ++ ":" ++ rest)).length)
    (hmax : (encodeUtf8 (scheme ++ ":" ++ rest)).length ≤ maxUriBytes) :
    (LocatorEntry.mk (scheme ++ ":" ++ rest)).Accepted maxUriBytes := by
  rcases uriScheme_append rest hscheme.separator_notMem with ⟨hleft, hright⟩
  refine ⟨hlt, hmin, hmax, by simp, ?_, ?_, ?_⟩
  · rcases hscheme with ⟨c, cs, hlist, -⟩
    rw [hleft]
    rintro rfl
    simp at hlist
  · rw [hleft]
    exact hscheme.valid
  · rw [hright]
    exact hrest

theorem UriInRange.accepted [UnicodeData] {uri : String} (h : UriInRange uri) :
    (LocatorEntry.mk uri).Accepted defaultLocatorMaxUriBytes := by
  rcases h with ⟨⟨scheme, rest, rfl, hscheme, hrest⟩, hmin, hmax⟩
  exact LocatorEntry.accepted_of_form hscheme hrest (Nat.lt_of_le_of_lt hmax (by decide)) hmin hmax

end LimniFs
