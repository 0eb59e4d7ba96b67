import LimniFs.Error
import LimniFs.Wire.Decodes

/-!
# UrlParse — the URL splitter of the standard library

`urllib.parse.urlparse` as far as the scheme and the network location go.  It has its own idea of a
scheme, which is that of ASCII, and it raises a `ValueError` on a network location that it does not
like.  The path, the query and the fragment are cut off behind these two and have no part here.
-/

namespace LimniFs

open Wire

/-- What differs between the releases of Python: the test of a network location with a host in
brackets, which the first ones of 3.11 do not make, and the NFKC form of a text. -/
class UrlChecks where
  checkBracketedNetloc : List Char → Except String Unit
  nfkc : List Char → List Char

structure ParseResult where
  scheme : String
  netloc : String
  deriving DecidableEq

/-- `url.lstrip(_WHATWG_C0_CONTROL_OR_SPACE)` -/
def lstripC0ControlOrSpace (url : List Char) : List Char :=
  url.dropWhile fun c => c.toNat ≤ 0x20

/-- A tab, a carriage return or a line feed. -/
def isUnsafeUrlByte (c : Char) : Bool :=
  c.toNat = 0x09 || c.toNat = 0x0D || c.toNat = 0x0A

def removeUnsafeUrlBytes (url : List Char) : List Char :=
  url.filter fun c => !isUnsafeUrlByte c

/-- `c in scheme_chars` -/
def isSchemeChar (c : Char) : Bool :=
  c.isAlphanum || c ∈ ['+', '-', '.']

/-- The scheme in lower case and what is behind its colon, or no scheme and the whole text. -/
def splitScheme (url : List Char) : List Char × List Char :=
  let before := url.takeWhile (· ≠ ':')
  if ':' ∈ url ∧ before.head?.any Char.isAlpha ∧ before.all isSchemeChar then
    (before.map Char.toLower, url.drop (before.length + 1))
  else
    ([], url)

/-- The network location: what is between `//` and the path, the query or the fragment. -/
def splitNetloc (url : List Char) : List Char :=
  if url.take 2 = ['/', '/'] then
    (url.drop 2).takeWhile fun c => c ∉ ['/', '?', '#']
  else
    []

/-- The characters of a network location that are not its own delimiters. -/
def withoutDelimiters (netloc : List Char) : List Char :=
  netloc.filter fun c => c ∉ ['@', ':', '#', '?']

theorem lstripC0ControlOrSpace_cons {c : Char} (cs : List Char) (h : 0x20 < c.toNat) :
    lstripC0ControlOrSpace (c :: cs) = c :: cs :=
  List.dropWhile_cons_of_neg (by simpa using h)

/-- Only control characters are removed. -/
theorem removeUnsafeUrlBytes_append {before : List Char} (rest : List Char)
    (h : ∀ c ∈ before, 0x20 < c.toNat) :
    removeUnsafeUrlBytes (before ++ rest) = before ++ removeUnsafeUrlBytes rest := by
  have hbefore : before.filter (fun c => !isUnsafeUrlByte c) = before := by
    rw [List.filter_eq_self]
    intro c hc
    have hlt := h c hc
    simp only [isUnsafeUrlByte, Bool.not_eq_true', Bool.or_eq_false_iff, decide_eq_false_iff_not]
    omega
  rw [removeUnsafeUrlBytes, List.filter_append, hbefore, removeUnsafeUrlBytes]

theorem splitScheme_append {c : Char} {cs : List Char} (rest : List Char)
    (hcolon : ':' ∉ c :: cs) :
    splitScheme (c :: cs ++ ':' :: rest) =
      if c.isAlpha ∧ (c :: cs).all isSchemeChar then ((c :: cs).map Char.toLower, rest)
      else ([], c :: cs ++ ':' :: rest) := by
  have hne : ∀ d ∈ c :: cs, decide (d ≠ ':') = true := by
    intro d hd
    simp only [decide_eq_true_eq]
    rintro rfl
    exact hcolon hd
  have htake : (c :: cs ++ ':' :: rest).takeWhile (· ≠ ':') = c :: cs := by
    rw [List.takeWhile_append_of_pos hne]
    simp
  have hdrop : (c :: cs ++ ':' :: rest).drop ((c :: cs).length + 1) = rest := by
    rw [List.drop_append, List.drop_of_length_le (Nat.le_succ _)]
    simp
  have hmem : ':' ∈ c :: cs ++ ':' :: rest := by
    simp
  simp only [splitScheme, htake, hdrop, hmem, true_and, List.head?_cons, Option.any_some]

/-- A network location comes only behind two slashes. -/
theorem splitNetloc_cons {c : Char} (cs : List Char) (h : c ≠ '/') : splitNetloc (c :: cs) = [] := by
  refine if_neg ?_
  rw [List.take_succ_cons]
  intro htake
  exact h (List.cons.inj htake).1

section Checks

variable [UrlChecks]

def checkBrackets (netloc : List Char) : Except Exn Unit :=
  if ('[' ∈ netloc ∧ ']' ∉ netloc) ∨ (']' ∈ netloc ∧ '[' ∉ netloc) then
    .error (.valueError "Invalid IPv6 URL")
  else if '[' ∈ netloc ∧ ']' ∈ netloc then
    (UrlChecks.checkBracketedNetloc netloc).mapError .valueError
  else
    .ok ()

/-- `_checknetloc`: no character may turn into a delimiter in the NFKC form. -/
def checkNetloc (netloc : List Char) : Except Exn Unit :=
  if netloc.all fun c => c.toNat < 128 then
    .ok ()
  else
    let n := withoutDelimiters netloc
    let netloc2 := UrlChecks.nfkc n
    if n = netloc2 ∨ ['/', '?', '#', '@', ':'].all fun c => c ∉ netloc2 then
      .ok ()
    else
      .error (.valueError ("netloc '" ++ String.ofList netloc ++ "' contains invalid " ++
        "characters under NFKC normalization"))

def urlparse (url : String) : Except Exn ParseResult := do
  let url := removeUnsafeUrlBytes (lstripC0ControlOrSpace url.toList)
  let split := splitScheme url
  -- A text without `//` has an empty network location, and both checks let that one pass.
  let netloc := splitNetloc split.2
  checkBrackets netloc
  checkNetloc netloc
  return { scheme := String.ofList split.1, netloc := String.ofList netloc }

/-- A network location that passes both checks. -/
structure NetlocAccepted (netloc : List Char) : Prop where
  brackets : '[' ∈ netloc ↔ ']' ∈ netloc
  host : '[' ∈ netloc → UrlChecks.checkBracketedNetloc netloc = .ok ()
  nfkc : (∃ c ∈ netloc, 128 ≤ c.toNat) →
    withoutDelimiters netloc = UrlChecks.nfkc (withoutDelimiters netloc) ∨
      ∀ c ∈ ['/', '?', '#', '@', ':'], c ∉ UrlChecks.nfkc (withoutDelimiters netloc)

theorem checkBrackets_eq_ok_iff {netloc : List Char} :
    checkBrackets netloc = .ok () ↔ ('[' ∈ netloc ↔ ']' ∈ netloc) ∧
      ('[' ∈ netloc → UrlChecks.checkBracketedNetloc netloc = .ok ()) := by
  have hmap : ∀ {x : Except String Unit}, x.mapError Exn.valueError = .ok () ↔ x = .ok () := by
    intro x
    cases x <;> simp [Except.mapError]
  unfold checkBrackets
  by_cases hopen : '[' ∈ netloc <;> by_cases hclose : ']' ∈ netloc
  · simp [hopen, hclose, hmap]
  · simp [hopen, hclose]
  · simp [hopen, hclose]
  · simp [hopen, hclose]

theorem checkNetloc_eq_ok_iff {netloc : List Char} :
    checkNetloc netloc = .ok () ↔ ((∃ c ∈ netloc, 128 ≤ c.toNat) →
      withoutDelimiters netloc = UrlChecks.nfkc (withoutDelimiters netloc) ∨
        ∀ c ∈ ['/', '?', '#', '@', ':'], c ∉ UrlChecks.nfkc (withoutDelimiters netloc)) := by
  unfold checkNetloc
  split
  · rename_i hascii
    rw [List.all_eq_true] at hascii
    refine iff_of_true rfl ?_
    rintro ⟨c, hc, hge⟩
    exact absurd (of_decide_eq_true (hascii c hc)) (Nat.not_lt.2 hge)
  · rename_i hunicode
    have hex : ∃ c ∈ netloc, 128 ≤ c.toNat := by
      simpa using hunicode
    simp only [hex, true_implies]
    split
    · rename_i hclean
      simp only [List.all_eq_true, decide_eq_true_eq] at hclean
      exact iff_of_true rfl hclean
    · rename_i hclean
      simp only [List.all_eq_true, decide_eq_true_eq] at hclean
      exact iff_of_false (by simp) hclean

theorem netlocAccepted_iff {netloc : List Char} :
    NetlocAccepted netloc ↔ checkBrackets netloc = .ok () ∧ checkNetloc netloc = .ok () := by
  rw [checkBrackets_eq_ok_iff, checkNetloc_eq_ok_iff]
  constructor
  · exact fun h => ⟨⟨h.brackets, h.host⟩, h.nfkc⟩
  · rintro ⟨⟨hbrackets, hhost⟩, hnfkc⟩
    exact ⟨hbrackets, hhost, hnfkc⟩

/-- A text without a network location passes. -/
theorem netlocAccepted_nil : NetlocAccepted [] := by
  refine ⟨by simp, ?_, ?_⟩
  · intro h
    simp at h
  · rintro ⟨c, hc, -⟩
    simp at hc

theorem urlparse_eq_ok_iff {url : String} {scheme rest : List Char} {parse : ParseResult}
    (h : splitScheme (removeUnsafeUrlBytes (lstripC0ControlOrSpace url.toList)) = (scheme, rest)) :
    urlparse url = .ok parse ↔ NetlocAccepted (splitNetloc rest) ∧
      parse = { scheme := String.ofList scheme, netloc := String.ofList (splitNetloc rest) } := by
  simp only [urlparse, h, netlocAccepted_iff]
  constructor
  · intro hrun
    rcases bind_eq_ok_iff.1 hrun with ⟨_, hbrackets, hrun⟩
    rcases bind_eq_ok_iff.1 hrun with ⟨_, hnetloc, hrun⟩
    cases hrun
    exact ⟨⟨hbrackets, hnetloc⟩, rfl⟩
  · rintro ⟨⟨hbrackets, hnetloc⟩, rfl⟩
    exact bind_eq_ok_iff.2 ⟨_, hbrackets, bind_eq_ok_iff.2 ⟨_, hnetloc, rfl⟩⟩

end Checks

end LimniFs
