import LimniFs.Locator

/-!
# UriScheme — the scheme of a locator and the grammar it is tested against

The parser tests the scheme with `str.isalpha` and `str.isalnum`, which know the letters and numbers
of all of Unicode; the grammar knows those of ASCII.  The two agree on ASCII schemes and on no
others.
-/

namespace LimniFs

open Wire

/-- A length from 4 to `maxUriBytes` and that many bytes of UTF-8 for a text `scheme ":" rest`, with
a scheme of the grammar and a rest. -/
def IsLocator (maxUriBytes : Nat) (xs : Bytes) : Prop :=
  ∃ raw scheme rest, xs = toLe 4 raw.length ++ raw ∧ raw.length < 2 ^ 32 ∧ 4 ≤ raw.length ∧
    raw.length ≤ maxUriBytes ∧ decodeUtf8 raw = some (scheme ++ ":" ++ rest) ∧ IsScheme scheme ∧
    rest ≠ ""

/-- The characters of a scheme are ASCII. -/
theorem lt_128_of_schemeChar {c : Char} (h : c.isAlphanum ∨ c ∈ ['+', '-', '.']) :
    c.toNat < 128 := by
  rcases h with halnum | hmark
  · exact lt_128_of_isAlphanum halnum
  · have hmarks : ∀ m ∈ ['+', '-', '.'], m.toNat < 128 := by
      simp
    exact hmarks c hmark

theorem IsScheme.ascii {scheme : String} (h : IsScheme scheme) :
    ∀ c ∈ scheme.toList, c.toNat < 128 := by
  rcases h with ⟨c, cs, hscheme, -, hall⟩
  rw [hscheme]
  exact fun d hd => lt_128_of_schemeChar (hall d hd)

/-- A text with a colon is its scheme, the colon and its rest. -/
theorem uriScheme_append_uriRest {uri : String} (h : ':' ∈ uri.toList) :
    uriScheme uri ++ ":" ++ uriRest uri = uri := by
  -- Behind the scheme comes the first colon, since there is one.
  have hdrop : ∃ cs, uri.toList.dropWhile (· ≠ ':') = ':' :: cs := by
    cases hd : uri.toList.dropWhile (· ≠ ':') with
    | nil =>
        have hall := List.dropWhile_eq_nil_iff.1 hd ':' h
        simp at hall
    | cons c cs =>
        have hhead := List.head?_dropWhile_not (· ≠ ':') uri.toList
        rw [hd] at hhead
        have hc : c = ':' := by
          simpa using hhead
        exact ⟨cs, by rw [hc]⟩
  rcases hdrop with ⟨cs, hcs⟩
  have hlist : (uriScheme uri ++ ":" ++ uriRest uri).toList = uri.toList := by
    calc
      (uriScheme uri ++ ":" ++ uriRest uri).toList
          = uri.toList.takeWhile (· ≠ ':') ++ ':' :: (uri.toList.dropWhile (· ≠ ':')).drop 1 := by
            simp [uriScheme, uriRest]
      _ = uri.toList.takeWhile (· ≠ ':') ++ uri.toList.dropWhile (· ≠ ':') := by
            rw [hcs, List.drop_one, List.tail_cons]
      _ = uri.toList := List.takeWhile_append_dropWhile
  exact String.toList_inj.1 hlist

section Schemes

variable [UnicodeData]

/-- The schemes of the grammar are the ASCII ones among those that pass the test. -/
theorem isScheme_iff {scheme : String} :
    IsScheme scheme ↔ isValidScheme scheme ∧ ∀ c ∈ scheme.toList, c.toNat < 128 := by
  constructor
  · exact fun h => ⟨h.valid, h.ascii⟩
  · rintro ⟨hvalid, hascii⟩
    unfold isValidScheme at hvalid
    cases hlist : scheme.toList with
    | nil =>
        simp [hlist] at hvalid
    | cons c cs =>
        rw [hlist] at hascii
        simp only [hlist, Bool.and_eq_true, List.all_eq_true] at hvalid
        -- In the ASCII range the predicates of Python are those of the grammar.
        refine ⟨c, cs, hlist, ?_, ?_⟩
        · rw [← isalpha_ascii (hascii c List.mem_cons_self)]
          exact hvalid.1
        · intro d hd
          rw [← isalnum_ascii (hascii d hd)]
          simpa using hvalid.2 d hd

/-- The locators of the grammar are the accepted ones with an ASCII scheme. -/
theorem isLocator_iff {maxUriBytes : Nat} {xs : Bytes} :
    IsLocator maxUriBytes xs ↔ ∃ entry : LocatorEntry, entry.Accepted maxUriBytes ∧
      (∀ c ∈ (uriScheme entry.uri).toList, c.toNat < 128) ∧ xs = entry.wire := by
  constructor
  · rintro ⟨raw, scheme, rest, rfl, hlt, hmin, hmax, hraw, hscheme, hrest⟩
    rcases decodeUtf8_eq_some_iff.1 hraw with rfl
    refine ⟨⟨scheme ++ ":" ++ rest⟩,
      LocatorEntry.accepted_of_form hscheme hrest hlt hmin hmax, ?_, rfl⟩
    rw [(uriScheme_append rest hscheme.separator_notMem).1]
    exact hscheme.ascii
  · rintro ⟨⟨uri⟩, hentry, hascii, rfl⟩
    refine ⟨encodeUtf8 uri, uriScheme uri, uriRest uri, rfl, hentry.length_lt, hentry.min_le,
      hentry.le_max, ?_, isScheme_iff.2 ⟨hentry.scheme, hascii⟩, hentry.rest_ne⟩
    rw [uriScheme_append_uriRest hentry.separator]
    exact decodeUtf8_encodeUtf8 uri

/-- What the locator at the cursor should be accepted for: the grammar, and a text that is spelled
by the bytes consumed. -/
structure FollowsGrammar (maxUriBytes : Nat) (c : Cursor) : Prop where
  accepts : (∃ entry c', parseLocatorEntry maxUriBytes c = .ok (entry, c')) ↔
    ∃ xs tail, IsLocator maxUriBytes xs ∧ c.remaining = xs ++ tail
  encodes : ∀ entry c', parseLocatorEntry maxUriBytes c = .ok (entry, c') →
    c.Consumes (toLe 4 (encodeUtf8 entry.uri).length ++ encodeUtf8 entry.uri) c'

/-- The locator at the cursor has a scheme with a letter or number from outside ASCII, and nothing
else is wrong with it. -/
def HasUnicodeScheme (maxUriBytes : Nat) (c : Cursor) : Prop :=
  ∃ uri tail, c.remaining = toLe 4 (encodeUtf8 uri).length ++ encodeUtf8 uri ++ tail ∧
    (encodeUtf8 uri).length < 2 ^ 32 ∧ 4 ≤ (encodeUtf8 uri).length ∧
    (encodeUtf8 uri).length ≤ maxUriBytes ∧ ':' ∈ uri.toList ∧ isValidScheme (uriScheme uri) ∧
    uriRest uri ≠ "" ∧ ∃ d ∈ (uriScheme uri).toList, 128 ≤ d.toNat

/-- Such a locator is accepted, and it is none of the grammar. -/
theorem HasUnicodeScheme.not_followsGrammar {maxUriBytes : Nat} {c : Cursor}
    (h : HasUnicodeScheme maxUriBytes c) : ¬ FollowsGrammar maxUriBytes c := by
  rcases h with ⟨uri, tail, hc, hlt, hmin, hmax, hsep, hscheme, hrest, d, hd, hunicode⟩
  have hne : uriScheme uri ≠ "" := by
    intro hempty
    simp [hempty, isValidScheme] at hscheme
  have hentry : (LocatorEntry.mk uri).Accepted maxUriBytes :=
    ⟨hlt, hmin, hmax, hsep, hne, hscheme, hrest⟩
  intro hfollows
  rcases (parseLocatorEntry_decodes maxUriBytes).run hentry hc with ⟨c', hparse, -⟩
  rcases hfollows.accepts.1 ⟨_, c', hparse⟩ with ⟨xs, tail', hlocator, hc'⟩
  rcases isLocator_iff.1 hlocator with ⟨entry, hentry', hascii, rfl⟩
  -- Both encodings are at the front of the same bytes, so they are of one locator.
  have heq : (LocatorEntry.mk uri).wire ++ tail = entry.wire ++ tail' := hc.symm.trans hc'
  rcases (parseLocatorEntry_decodes maxUriBytes).append_inj hentry hentry' heq with ⟨rfl, -⟩
  exact absurd (hascii d hd) (Nat.not_lt.2 hunicode)

/-- Locators are accepted by the grammar, except for those with a Unicode scheme. -/
theorem followsGrammar_iff (maxUriBytes : Nat) (c : Cursor) :
    FollowsGrammar maxUriBytes c ↔ ¬ HasUnicodeScheme maxUriBytes c := by
  constructor
  · exact fun hfollows hunicode => hunicode.not_followsGrammar hfollows
  · intro hnone
    refine ⟨⟨?_, ?_⟩, ?_⟩
    · rintro ⟨entry, c', hparse⟩
      rcases (parseLocatorEntry_decodes maxUriBytes).sound hparse with ⟨hentry, hc⟩
      refine ⟨entry.wire, c'.remaining, isLocator_iff.2 ⟨entry, hentry, ?_, rfl⟩, hc.2⟩
      intro d hd
      by_contra hge
      exact hnone ⟨entry.uri, c'.remaining, hc.2, hentry.length_lt, hentry.min_le, hentry.le_max,
        hentry.separator, hentry.scheme, hentry.rest_ne, d, hd, Nat.not_lt.1 hge⟩
    · rintro ⟨xs, tail, hlocator, hc⟩
      rcases isLocator_iff.1 hlocator with ⟨entry, hentry, -, rfl⟩
      rcases (parseLocatorEntry_decodes maxUriBytes).run hentry hc with ⟨c', hparse, -⟩
      exact ⟨entry, c', hparse⟩
    · intro entry c' hparse
      exact ((parseLocatorEntry_decodes maxUriBytes).sound hparse).2

end Schemes

namespace Reference.Latin

/-- The letters of Latin-1 beside the ASCII range. -/
def latinCategory (c : Char) : GeneralCategory :=
  if c.toNat < 128 then asciiCategory c
  else if c.toNat ∈ [0xAA, 0xBA] then .Lo
  else if c.toNat = 0xB5 then .Ll
  else if c.toNat < 0xC0 ∨ c.toNat ∈ [0xD7, 0xF7] ∨ 0xFF < c.toNat then .Cn
  else if c.toNat < 0xDF then .Lu
  else .Ll

def latinNumericType (c : Char) : NumericType :=
  if c.toNat < 128 then asciiNumericType c else .none

theorem latinCategory_ascii (c : Char) (hc : c.toNat < 128) :
    latinCategory c = asciiCategory c :=
  if_pos hc

theorem latinNumericType_ascii (c : Char) (hc : c.toNat < 128) :
    latinNumericType c = asciiNumericType c :=
  if_pos hc

scoped instance unicodeData : UnicodeData where
  category := latinCategory
  numericType := latinNumericType
  category_ascii := latinCategory_ascii
  numericType_ascii := latinNumericType_ascii

end Reference.Latin

open scoped Reference.Latin in
/-- `é:xy` is accepted, although the grammar has no such scheme. -/
theorem not_followsGrammar_latin :
    ¬ FollowsGrammar defaultLocatorMaxUriBytes
      (.start [5, 0, 0, 0, 0xC3, 0xA9, 0x3A, 0x78, 0x79]) := by
  apply HasUnicodeScheme.not_followsGrammar
  refine ⟨String.ofList [Char.ofNat 0xE9, ':', 'x', 'y'], [], ?_, ?_, ?_, ?_, ?_, ?_, ?_,
    Char.ofNat 0xE9, ?_, ?_⟩
  all_goals decide

end LimniFs
