import LimniFs.Python

/-!
# Error — the exceptions of the reader

The `ParseError` hierarchy, and beside it the other exceptions that the Python code can raise
while it parses or builds: the `ValueError` guards of the value types, `struct.error`,
`IndexError`, `OverflowError` and the Unicode errors.  They are kept apart so that "only
`ParseError` escapes" is a statement about the code and not about the type.
-/

namespace LimniFs

open Wire

/-- The subclasses of `ParseError`, with the attributes they carry. -/
inductive ParseError
  | truncated (avail need : Nat)
  | badMagic (found expected : Bytes)
  | corrupt (reason : String)
  | unsupportedFeature (feature : String)
  deriving DecidableEq

/-- `str(e)` -/
def ParseError.str : ParseError → String
  | .truncated avail need =>
      s!"truncated input: have {avail} bytes, need {need}"
  | .badMagic found expected =>
      s!"bad magic: expected {reprBytes expected}, found {reprBytes found}"
  | .corrupt reason =>
      s!"corrupt: {reason}"
  | .unsupportedFeature feature =>
      s!"unsupported feature: {feature}"

inductive Exn
  | parse (e : ParseError)
  | valueError (message : String)
  | structError
  | indexError
  | overflowError
  | unicodeDecodeError
  | unicodeEncodeError
  deriving DecidableEq

namespace Exn

def truncated (avail need : Nat) : Exn :=
  .parse (.truncated avail need)

def badMagic (found expected : Bytes) : Exn :=
  .parse (.badMagic found expected)

def corrupt (reason : String) : Exn :=
  .parse (.corrupt reason)

def unsupportedFeature (feature : String) : Exn :=
  .parse (.unsupportedFeature feature)

/-- The exception is an instance of `ParseError`. -/
def IsParseError (e : Exn) : Prop :=
  ∃ pe, e = .parse pe

@[simp]
theorem isParseError_parse (pe : ParseError) : IsParseError (.parse pe) :=
  ⟨pe, rfl⟩

/-- The exception is a `TruncatedError`. -/
def IsTruncated (e : Exn) : Prop :=
  ∃ avail need, e = .truncated avail need

/-- The exception is a `CorruptError`. -/
def IsCorrupt (e : Exn) : Prop :=
  ∃ reason, e = .corrupt reason

theorem isCorrupt_corrupt (reason : String) : IsCorrupt (.corrupt reason) :=
  ⟨reason, rfl⟩

theorem IsCorrupt.isParseError {e : Exn} (h : e.IsCorrupt) : e.IsParseError := by
  rcases h with ⟨reason, rfl⟩
  exact isParseError_parse _

theorem isTruncated_truncated (avail need : Nat) : IsTruncated (.truncated avail need) :=
  ⟨avail, need, rfl⟩

@[simp]
theorem not_isTruncated_corrupt (reason : String) : ¬ IsTruncated (.corrupt reason) := by
  rintro ⟨_, _, h⟩
  cases h

theorem IsCorrupt.not_isTruncated {e : Exn} (h : e.IsCorrupt) : ¬ e.IsTruncated := by
  rcases h with ⟨reason, rfl⟩
  exact not_isTruncated_corrupt reason

@[simp]
theorem not_isTruncated_valueError (message : String) : ¬ IsTruncated (.valueError message) := by
  rintro ⟨_, _, h⟩
  cases h

@[simp]
theorem not_isTruncated_structError : ¬ IsTruncated .structError := by
  rintro ⟨_, _, h⟩
  cases h

@[simp]
theorem not_isTruncated_indexError : ¬ IsTruncated .indexError := by
  rintro ⟨_, _, h⟩
  cases h

end Exn

end LimniFs
