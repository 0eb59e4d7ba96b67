import LimniFs.CliOutput

/-!
# VerifyCommand — runs of `limni-py verify`

How a run ends for every path, every outcome of reading the file and either kind of output, and
what the log of many runs says.  File names and streams are UTF-8; the output refuses what it cannot
encode, and the error stream escapes it.
-/

namespace LimniFs

open Wire

/-! ## `_cmd_verify` -/

/-- The code point is a character or stands for a byte: 0x80 to 0xFF are decoded as U+DC80 to
U+DCFF. -/
def encodable : CodePoint → Bool
  | .scalar _ => true
  | .surrogate n => 0x480 ≤ n.val ∧ n.val < 0x500

/-- What `path.open("rb")` raises of itself, before the file system is asked. -/
def openError (path : PathText) : Option Exn :=
  if ¬ path.all encodable then some .unicodeEncodeError
  else if .scalar (Char.ofNat 0) ∈ path then some (.valueError "embedded null byte")
  else none

/-- The path on the error stream, which writes a lone surrogate as its escape. -/
def shownPath (path : PathText) : String :=
  String.ofList (path.flatMap shownPoint)
where
  shownPoint : CodePoint → List Char
    | .scalar c => [c]
    | .surrogate n => escapeHex 'u' 4 (0xD800 + n.val)

/-- The exit status and what was written to the two streams. -/
structure CommandResult where
  exitCode : Nat
  stdout : String
  stderr : String
  deriving DecidableEq

/-- `print(f"limni-py: {text}", file=sys.stderr)` and `return 1`. -/
def CommandResult.failure (text : String) : CommandResult where
  exitCode := 1
  stdout := ""
  stderr := "limni-py: " ++ text ++ "\n"

def CommandResult.success (stdout : String) : CommandResult where
  exitCode := 0
  stdout := stdout
  stderr := ""

section Command

variable [UnicodeData] [Blake3]

/-- `limni-py verify`, with the text of the path and what reading the file results in: its bytes or
the text of an `OSError`. -/
def cmdVerify (path : PathText) (file : Except String Bytes) (json : Bool) :
    Except Exn CommandResult :=
  match openError path with
  -- Only `ParseError` and `OSError` are caught.
  | some e => .error e
  | none =>
      match file with
      | .error message => .ok (.failure s!"cannot read {shownPath path}: {message}")
      | .ok buf =>
          match verifyBytes buf with
          | .error (.parse e) => .ok (.failure s!"{shownPath path}: {e.str}")
          | .error e => .error e
          | .ok report =>
              if json then
                .ok (.success (printJson path report))
              else
                match text? path with
                | some text => .ok (.success (printHuman text report))
                -- The first line names the path, so nothing has been printed.
                | none => .error .unicodeEncodeError

/-! ## How a run ends -/

/-- A run with `--json`. -/
structure JsonRun where
  path : PathText
  file : Except String Bytes

namespace JsonRun

def result (run : JsonRun) : Except Exn CommandResult :=
  cmdVerify run.path run.file true

/-- What the run writes to the output: nothing where it ends with an exception. -/
def stdout (run : JsonRun) : String :=
  match run.result with
  | .ok result => result.stdout
  | .error _ => ""

end JsonRun

end Command

end LimniFs
