import LimniFs.Wire.LittleEndian

/-!
# Python — the text primitives the sources lean on

`str.isalpha`, `str.isalnum`, `str.upper`, `repr` and the hexadecimal formats, as the Python
documentation describes them.  The Unicode character database and its case mapping are parameters,
since each Python release carries its own; what every release agrees on, the ASCII range, is part
of the classes.
-/

namespace LimniFs

open Wire

/-! ## The Unicode character database -/

inductive GeneralCategory
  | Lu | Ll | Lt | Lm | Lo
  | Mn | Mc | Me
  | Nd | Nl | No
  | Pc | Pd | Ps | Pe | Pi | Pf | Po
  | Sm | Sc | Sk | So
  | Zs | Zl | Zp
  | Cc | Cf | Cs | Co | Cn
  deriving DecidableEq, Repr

inductive NumericType
  | none
  | decimal
  | digit
  | numeric
  deriving DecidableEq, Repr

def asciiCategory (c : Char) : GeneralCategory :=
  if c.toNat < 0x20 ∨ c.toNat = 0x7F then .Cc
  else if c.isUpper then .Lu
  else if c.isLower then .Ll
  else if c.isDigit then .Nd
  else if c.toNat = 0x20 then .Zs
  else if c.toNat ∈ [0x28, 0x5B, 0x7B] then .Ps
  else if c.toNat ∈ [0x29, 0x5D, 0x7D] then .Pe
  else if c.toNat ∈ [0x2B, 0x3C, 0x3D, 0x3E, 0x7C, 0x7E] then .Sm
  else if c.toNat ∈ [0x5E, 0x60] then .Sk
  else if c.toNat = 0x24 then .Sc
  else if c.toNat = 0x2D then .Pd
  else if c.toNat = 0x5F then .Pc
  else .Po

def asciiNumericType (c : Char) : NumericType :=
  if c.isDigit then .decimal else .none

class UnicodeData where
  category : Char → GeneralCategory
  numericType : Char → NumericType
  category_ascii : ∀ c : Char, c.toNat < 128 → category c = asciiCategory c
  numericType_ascii : ∀ c : Char, c.toNat < 128 → numericType c = asciiNumericType c

/-- A fact about the ASCII characters is one about 128 code points. -/
theorem ascii_cases {P : Char → Prop} (h : ∀ n < 128, P (Char.ofNat n)) {c : Char}
    (hc : c.toNat < 128) : P c := by
  have hP := h c.toNat hc
  rwa [Char.ofNat_toNat] at hP

section Predicates

variable [UnicodeData]

/-- `c.isalpha()`: the character is a letter. -/
def isalpha (c : Char) : Bool :=
  UnicodeData.category c ∈ [.Lm, .Lt, .Lu, .Ll, .Lo]

/-- `c.isalnum()`: `c.isalpha() or c.isdecimal() or c.isdigit() or c.isnumeric()`. -/
def isalnum (c : Char) : Bool :=
  isalpha c || UnicodeData.numericType c ≠ .none

/-- `c.isprintable()`: neither "Other" nor "Separator", the space excepted. -/
def isprintable (c : Char) : Bool :=
  c.toNat = 0x20 || UnicodeData.category c ∉ [.Cc, .Cf, .Cs, .Co, .Cn, .Zl, .Zp, .Zs]

theorem isalpha_ascii {c : Char} (hc : c.toNat < 128) : isalpha c = c.isAlpha := by
  unfold isalpha
  rw [UnicodeData.category_ascii c hc]
  -- In the ASCII range both sides are functions of 128 code points.
  refine ascii_cases (P := fun c =>
    decide (asciiCategory c ∈ [.Lm, .Lt, .Lu, .Ll, .Lo]) = c.isAlpha) ?_ hc
  decide

theorem isalnum_ascii {c : Char} (hc : c.toNat < 128) : isalnum c = c.isAlphanum := by
  unfold isalnum
  rw [isalpha_ascii hc, UnicodeData.numericType_ascii c hc]
  unfold asciiNumericType Char.isAlphanum
  -- An ASCII digit is numeric, and nothing else in that range is.
  cases c.isDigit <;> simp

end Predicates

/-! ## Case -/

/-- The full upper-case mapping, which may turn one character into several. -/
class UnicodeCase where
  upper : Char → List Char
  upper_ascii : ∀ c : Char, c.toNat < 128 → upper c = [c.toUpper]

/-- `s.upper()` -/
def strUpper [UnicodeCase] (s : String) : String :=
  String.ofList (s.toList.flatMap UnicodeCase.upper)

/-! ## Formats -/

/-- `f"{n:0{width}X}"` -/
def formatHex (width n : Nat) : String :=
  -- The width is a minimum: a longer number is printed in full.
  let digits := (Nat.toDigits 16 n).map Char.toUpper
  String.ofList (List.replicate (width - digits.length) '0' ++ digits)

/-- `bs.hex()` -/
def bytesHex (bs : Bytes) : String :=
  String.ofList (bs.flatMap fun b => hexByte b.toNat)
where
  hexByte (n : Nat) : List Char :=
    [Nat.digitChar (n / 16), Nat.digitChar (n % 16)]

private def backslash : Char := Char.ofNat 0x5C
private def singleQuote : Char := Char.ofNat 0x27
private def doubleQuote : Char := Char.ofNat 0x22

/-- The quote `repr` puts around a text: single, unless only single quotes occur in it. -/
def reprQuote (cs : List Char) : Char :=
  if singleQuote ∈ cs ∧ doubleQuote ∉ cs then doubleQuote else singleQuote

/-- `\x`, `\u` or `\U` and the code in `width` lowercase digits. -/
def escapeHex (tag : Char) (width n : Nat) : List Char :=
  -- `digits` is already lower case, as Python prints it.
  let digits := Nat.toDigits 16 n
  backslash :: tag :: (List.replicate (width - digits.length) '0' ++ digits)

def reprAsciiChar (quote c : Char) : List Char :=
  if c = quote ∨ c = backslash then [backslash, c]
  -- Three control characters have an escape of their own; every other one is in hex.
  else if c.toNat = 0x09 then [backslash, 't']
  else if c.toNat = 0x0A then [backslash, 'n']
  else if c.toNat = 0x0D then [backslash, 'r']
  else if c.toNat < 0x20 ∨ c.toNat = 0x7F then escapeHex 'x' 2 c.toNat
  else [c]

/-- `repr(s)` of a text. -/
def reprStr [UnicodeData] (s : String) : String :=
  let quote := reprQuote s.toList
  String.ofList ([quote] ++ s.toList.flatMap (reprChar quote) ++ [quote])
where
  reprChar (quote c : Char) : List Char :=
    if c.toNat < 0x80 then reprAsciiChar quote c
    else if isprintable c then [c]
    else if c.toNat < 0x100 then escapeHex 'x' 2 c.toNat
    else if c.toNat < 0x10000 then escapeHex 'u' 4 c.toNat
    else escapeHex 'U' 8 c.toNat

/-- `repr(bs)` of a byte string. -/
def reprBytes (bs : Bytes) : String :=
  let cs := bs.map fun b => Char.ofNat b.toNat
  let quote := reprQuote cs
  String.ofList (['b', quote] ++ cs.flatMap (reprByte quote) ++ [quote])
where
  reprByte (quote c : Char) : List Char :=
    if c.toNat < 0x80 then reprAsciiChar quote c else escapeHex 'x' 2 c.toNat

end LimniFs
