import LimniFs.UriScheme
import LimniFs.UrlParse

/-!
# LocatorAccess — the scheme of a locator as its accessors give it

The parser splits a locator at the first colon.  The accessors of the entry do not keep that split
and ask `urlparse` for another one.  The two agree when the scheme is ASCII and the network
location is one that `urlparse` takes.
-/

namespace LimniFs

open Wire

section Accessors

variable [UrlChecks]

namespace LocatorEntry

def scheme (entry : LocatorEntry) : Except Exn (Option String) := do
  let parse ← urlparse entry.uri
  return if parse.scheme = "" then none else some parse.scheme

def schemeSpecificPart (entry : LocatorEntry) : Except Exn (Option String) := do
  let parse ← urlparse entry.uri
  if parse.scheme = "" then
    return none
  -- The length is that of the scheme as `urlparse` has it, and the text is the one it was given.
  return some (String.ofList (entry.uri.toList.drop (parse.scheme.length + 1)))

/-- What the accessors make of a scheme that `urlparse` has found. -/
theorem accessors_eq {entry : LocatorEntry} {parse : ParseResult}
    (hparse : urlparse entry.uri = .ok parse) (hne : parse.scheme ≠ "") :
    entry.scheme = .ok (some parse.scheme) ∧ entry.schemeSpecificPart =
      .ok (some (String.ofList (entry.uri.toList.drop (parse.scheme.length + 1)))) := by
  unfold scheme schemeSpecificPart
  rw [hparse]
  constructor
  · show Except.ok (if parse.scheme = "" then none else some parse.scheme) = _
    rw [if_neg hne]
  · show (if parse.scheme = "" then _ else _) = _
    rw [if_neg hne]
    rfl

/-- The accessors give the halves that the parser has tested, the scheme in either case. -/
structure AccessorsAgree (entry : LocatorEntry) : Prop where
  scheme : ∃ s, entry.scheme = .ok (some s) ∧
    s.toList.map Char.toLower = (uriScheme entry.uri).toList.map Char.toLower
  schemeSpecificPart : entry.schemeSpecificPart = .ok (some (uriRest entry.uri))

end LocatorEntry

/-- The network location of a text `scheme ":" rest`, of which `urlparse` first removes tabs and
line ends. -/
def uriNetloc (uri : String) : List Char :=
  splitNetloc (removeUnsafeUrlBytes (uriRest uri).toList)

/-- A text that `urlparse` splits at the colon of the parser. -/
structure UrlSplits (uri : String) : Prop where
  ascii : ∀ c ∈ (uriScheme uri).toList, c.toNat < 128
  netloc : NetlocAccepted (uriNetloc uri)

end Accessors

/-! ## The two splits -/

private theorem toLower_toLower_ascii {c : Char} (hc : c.toNat < 128) :
    c.toLower.toLower = c.toLower := by
  refine ascii_cases (P := fun c => c.toLower.toLower = c.toLower) ?_ hc
  decide

private theorem lt_toNat_of_isAlphanum_ascii {c : Char} (hc : c.toNat < 128)
    (h : c.isAlphanum) : 0x20 < c.toNat := by
  revert h
  refine ascii_cases (P := fun c => c.isAlphanum = true → 0x20 < c.toNat) ?_ hc
  decide

theorem isSchemeChar_ascii {c : Char} (h : isSchemeChar c) : c.toNat < 128 := by
  simp only [isSchemeChar, Bool.or_eq_true, decide_eq_true_eq] at h
  exact lt_128_of_schemeChar h

theorem separator_notMem_uriScheme (uri : String) : ':' ∉ (uriScheme uri).toList := by
  intro hmem
  rw [uriScheme, String.toList_ofList] at hmem
  have hne := List.mem_takeWhile_imp hmem
  simp at hne

theorem toList_uri {uri : String} (hsep : ':' ∈ uri.toList) :
    uri.toList = (uriScheme uri).toList ++ ':' :: (uriRest uri).toList := by
  calc
    uri.toList = (uriScheme uri ++ ":" ++ uriRest uri).toList := by
      rw [uriScheme_append_uriRest hsep]
    _ = (uriScheme uri).toList ++ ':' :: (uriRest uri).toList := by
      simp

section Schemes

variable [UnicodeData]

/-- A scheme of the parser is a letter and further characters, none of them a control character
or a space. -/
theorem isValidScheme_cases {scheme : String} (h : isValidScheme scheme) :
    ∃ c cs, scheme.toList = c :: cs ∧ isalpha c ∧ ∀ d ∈ c :: cs, 0x20 < d.toNat := by
  unfold isValidScheme at h
  cases hlist : scheme.toList with
  | nil =>
      simp [hlist] at h
  | cons c cs =>
      simp only [hlist, Bool.and_eq_true, List.all_eq_true, Bool.or_eq_true,
        decide_eq_true_eq] at h
      refine ⟨c, cs, rfl, h.1, ?_⟩
      intro d hd
      by_cases hascii : d.toNat < 128
      · rcases h.2 d hd with halnum | hmark
        · rw [isalnum_ascii hascii] at halnum
          exact lt_toNat_of_isAlphanum_ascii hascii halnum
        · have hmarks : ∀ m ∈ ['+', '-', '.'], 0x20 < m.toNat := by
            simp
          exact hmarks d hmark
      · omega

theorem ne_slash_of_isalpha {c : Char} (h : isalpha c) : c ≠ '/' := by
  rintro rfl
  have hslash : isalpha '/' = false := isalpha_ascii (by decide)
  rw [hslash] at h
  cases h

/-- The cleaning leaves the scheme and the colon alone. -/
theorem clean_uri {uri : String} (hsep : ':' ∈ uri.toList)
    (hvalid : isValidScheme (uriScheme uri)) :
    removeUnsafeUrlBytes (lstripC0ControlOrSpace uri.toList) =
      (uriScheme uri).toList ++ ':' :: removeUnsafeUrlBytes (uriRest uri).toList := by
  rcases isValidScheme_cases hvalid with ⟨c, cs, hlist, -, hlt⟩
  have huri : uri.toList = c :: (cs ++ ':' :: (uriRest uri).toList) := by
    rw [toList_uri hsep, hlist, List.cons_append]
  have hlt' : ∀ d ∈ c :: cs ++ [':'], 0x20 < d.toNat := by
    intro d hd
    rcases List.mem_append.1 hd with hd | hd
    · exact hlt d hd
    · rw [List.mem_singleton.1 hd]
      decide
  have happend : c :: (cs ++ ':' :: (uriRest uri).toList) =
      c :: cs ++ [':'] ++ (uriRest uri).toList := by
    simp
  rw [huri, lstripC0ControlOrSpace_cons _ (hlt c List.mem_cons_self), happend,
    removeUnsafeUrlBytes_append _ hlt', hlist]
  simp

/-- On a text that the parser has accepted, `urlparse` finds the same scheme when it is ASCII. -/
theorem splitScheme_of_ascii {uri : String} (hsep : ':' ∈ uri.toList)
    (hvalid : isValidScheme (uriScheme uri))
    (hascii : ∀ c ∈ (uriScheme uri).toList, c.toNat < 128) :
    splitScheme (removeUnsafeUrlBytes (lstripC0ControlOrSpace uri.toList)) =
      ((uriScheme uri).toList.map Char.toLower, removeUnsafeUrlBytes (uriRest uri).toList) := by
  rcases isScheme_iff.2 ⟨hvalid, hascii⟩ with ⟨c, cs, hlist, halpha, hall⟩
  have hcolon := separator_notMem_uriScheme uri
  rw [clean_uri hsep hvalid]
  rw [hlist] at hcolon ⊢
  rw [splitScheme_append _ hcolon, if_pos]
  refine ⟨halpha, List.all_eq_true.2 ?_⟩
  intro d hd
  simpa [isSchemeChar] using hall d hd

/-- It finds none when there is a character from outside ASCII in it. -/
theorem splitScheme_of_not_ascii {uri : String} (hsep : ':' ∈ uri.toList)
    (hvalid : isValidScheme (uriScheme uri))
    (hunicode : ¬ ∀ c ∈ (uriScheme uri).toList, c.toNat < 128) :
    splitScheme (removeUnsafeUrlBytes (lstripC0ControlOrSpace uri.toList)) =
      ([], (uriScheme uri).toList ++ ':' :: removeUnsafeUrlBytes (uriRest uri).toList) := by
  rcases isValidScheme_cases hvalid with ⟨c, cs, hlist, -⟩
  have hcolon := separator_notMem_uriScheme uri
  rw [clean_uri hsep hvalid]
  rw [hlist] at hcolon hunicode ⊢
  rw [splitScheme_append _ hcolon, if_neg]
  rintro ⟨-, hall⟩
  exact hunicode fun d hd => isSchemeChar_ascii (List.all_eq_true.1 hall d hd)

variable [UrlChecks]

/-- Without an ASCII scheme, the accessors find none. -/
theorem LocatorEntry.scheme_eq_none {entry : LocatorEntry} (hsep : ':' ∈ entry.uri.toList)
    (hvalid : isValidScheme (uriScheme entry.uri))
    (hunicode : ¬ ∀ c ∈ (uriScheme entry.uri).toList, c.toNat < 128) :
    entry.scheme = .ok none ∧ entry.schemeSpecificPart = .ok none := by
  have hsplit := splitScheme_of_not_ascii hsep hvalid hunicode
  -- The text begins with a letter, so there is no network location either.
  have hnetloc : splitNetloc ((uriScheme entry.uri).toList ++
      ':' :: removeUnsafeUrlBytes (uriRest entry.uri).toList) = [] := by
    rcases isValidScheme_cases hvalid with ⟨c, cs, hlist, hc, -⟩
    rw [hlist]
    exact splitNetloc_cons _ (ne_slash_of_isalpha hc)
  have hparse : urlparse entry.uri = .ok { scheme := "", netloc := "" } := by
    rw [urlparse_eq_ok_iff hsplit, hnetloc]
    exact ⟨netlocAccepted_nil, rfl⟩
  constructor
  · rw [LocatorEntry.scheme, hparse]
    rfl
  · rw [LocatorEntry.schemeSpecificPart, hparse]
    rfl

/-- With an ASCII scheme, the accessors return when the network location is accepted, and then with
the halves of the parser. -/
theorem LocatorEntry.accessorsAgree_of_splits {entry : LocatorEntry}
    (hsep : ':' ∈ entry.uri.toList) (hvalid : isValidScheme (uriScheme entry.uri))
    (h : UrlSplits entry.uri) : entry.AccessorsAgree := by
  have hsplit := splitScheme_of_ascii hsep hvalid h.ascii
  have hparse := (urlparse_eq_ok_iff hsplit).2 ⟨h.netloc, rfl⟩
  have hne : String.ofList ((uriScheme entry.uri).toList.map Char.toLower) ≠ "" := by
    rcases isValidScheme_cases hvalid with ⟨c, cs, hlist, -⟩
    rw [hlist]
    simp
  have hdrop : entry.uri.toList.drop ((uriScheme entry.uri).toList.length + 1) =
      (uriRest entry.uri).toList := by
    have huri : entry.uri.toList =
        (uriScheme entry.uri).toList ++ [':'] ++ (uriRest entry.uri).toList := by
      simpa using toList_uri hsep
    rw [huri]
    exact List.drop_left' (by simp)
  rcases LocatorEntry.accessors_eq hparse hne with ⟨hscheme, hpart⟩
  refine ⟨⟨_, hscheme, ?_⟩, ?_⟩
  · rw [String.toList_ofList, List.map_map]
    exact List.map_congr_left fun c hc => toLower_toLower_ascii (h.ascii c hc)
  · rw [hpart, String.length_ofList, List.length_map, hdrop, String.ofList_toList]

theorem LocatorEntry.splits_of_accessorsAgree {entry : LocatorEntry}
    (hsep : ':' ∈ entry.uri.toList) (hvalid : isValidScheme (uriScheme entry.uri))
    (h : entry.AccessorsAgree) : UrlSplits entry.uri := by
  rcases h.scheme with ⟨s, hscheme, -⟩
  have hascii : ∀ c ∈ (uriScheme entry.uri).toList, c.toNat < 128 := by
    by_contra hunicode
    rw [(LocatorEntry.scheme_eq_none hsep hvalid hunicode).1] at hscheme
    cases hscheme
  have hsplit := splitScheme_of_ascii hsep hvalid hascii
  rcases bind_eq_ok_iff.1 hscheme with ⟨parse, hparse, -⟩
  exact ⟨hascii, ((urlparse_eq_ok_iff hsplit).1 hparse).1⟩

/-- The accessors agree with the parser on exactly the texts that `urlparse` splits like it. -/
theorem accessorsAgree_iff {maxUriBytes : Nat} {c c' : Cursor} {entry : LocatorEntry}
    (h : parseLocatorEntry maxUriBytes c = .ok (entry, c')) :
    entry.AccessorsAgree ↔ UrlSplits entry.uri := by
  have haccepted := ((parseLocatorEntry_decodes maxUriBytes).sound h).1
  constructor
  · exact LocatorEntry.splits_of_accessorsAgree haccepted.separator haccepted.scheme
  · exact LocatorEntry.accessorsAgree_of_splits haccepted.separator haccepted.scheme

end Schemes

namespace Reference.Latin

/-- The first releases of 3.11, with NFKC on the texts of ASCII, which it leaves alone. -/
scoped instance urlChecks : UrlChecks where
  checkBracketedNetloc := fun _ => .ok ()
  nfkc := id

end Reference.Latin

open scoped Reference.Latin in
/-- The accessors on `a:bc`. -/
theorem accessorsAgree_abc : (LocatorEntry.mk "a:bc").AccessorsAgree := by
  have haccepted : (LocatorEntry.mk "a:bc").Accepted defaultLocatorMaxUriBytes := by
    refine ⟨?_, ?_, ?_, ?_, ?_, ?_, ?_⟩
    all_goals decide
  rcases (parseLocatorEntry_decodes defaultLocatorMaxUriBytes).decode_append haccepted [] with
    ⟨c', hparse, -⟩
  refine (accessorsAgree_iff hparse).2 ⟨?_, ?_⟩
  · simp [uriScheme]
  · exact netlocAccepted_nil

open scoped Reference.Latin in
/-- `a://[` is accepted, and its accessors raise a `ValueError`. -/
theorem not_accessorsAgree_bracket :
    ¬ ∀ entry c', parseLocatorEntry defaultLocatorMaxUriBytes
      (.start [5, 0, 0, 0, 0x61, 0x3A, 0x2F, 0x2F, 0x5B]) = .ok (entry, c') →
        entry.AccessorsAgree := by
  have haccepted : (LocatorEntry.mk "a://[").Accepted defaultLocatorMaxUriBytes := by
    refine ⟨?_, ?_, ?_, ?_, ?_, ?_, ?_⟩
    all_goals decide
  have hwire : (LocatorEntry.mk "a://[").wire ++ [] =
      [5, 0, 0, 0, 0x61, 0x3A, 0x2F, 0x2F, 0x5B] := by
    rfl
  have hnetloc : uriNetloc "a://[" = ['['] := by
    rfl
  rcases (parseLocatorEntry_decodes defaultLocatorMaxUriBytes).decode_append haccepted [] with
    ⟨c', hparse, -⟩
  rw [hwire] at hparse
  intro hagree
  -- The network location has an opening bracket and no closing one.
  have hsplits := LocatorEntry.splits_of_accessorsAgree haccepted.separator haccepted.scheme
    (hagree _ c' hparse)
  have hbrackets := hsplits.netloc.brackets
  rw [hnetloc] at hbrackets
  simp at hbrackets

end LimniFs
