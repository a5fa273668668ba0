import Std.Time.DateTime.Timestamp
import Typestate.CommandLine.Execute
import Typestate.Files.Tree

/-!
# The program

Reads its arguments, runs the invocation they stand for against the real file system, prints what it
leaves behind and ends with its code.
-/

namespace Typestate.CommandLine

/-- The number of a system error; some calls report it negated. -/
def systemNumber (code : UInt32) : UInt32 := if code < 0x80000000 then code else 0 - code

/-- The reason of the system for an input or output error. -/
def systemReason (e : IO.Error) : String :=
  let fault := match e with
    | .noFileOrDirectory _ code _ => ReadFault.ofNumber? (systemNumber code)
    | .inappropriateType _ code _ => ReadFault.ofNumber? (systemNumber code)
    | .invalidArgument _ code _ => ReadFault.ofNumber? (systemNumber code)
    | _ => none
  match fault, e with
  | some fault, _ => fault.message
  | none, .permissionDenied .. => "Permission denied (os error 13)"
  | none, e => toString e

/-- The bytes of a file, or the reason why there are none. -/
def readBytes (path : Path) : IO (Except String ByteArray) := do
  try
    pure (.ok (← IO.FS.readBinFile path.toString))
  catch e =>
    pure (.error (systemReason e))

/-- The real file system, current directory and clock. -/
def realHost : Host IO where
  read path := do
    match ← readBytes path with
    | .error reason => pure (.error reason)
    | .ok bytes =>
      match String.fromUTF8? bytes with
      | some text => pure (.ok text)
      | none => pure (.error "stream did not contain valid UTF-8")
  isFile path := do pure (match ← readBytes path with
    | .ok _ => true
    | .error _ => false)
  currentDirectory := do
    try
      pure (.ok (Path.ofString (← IO.currentDir).toString))
    catch e =>
      pure (.error (systemReason e))
  now := do
    let time ← Std.Time.Timestamp.now
    pure ⟨time.toSecondsSinceUnixEpoch.val, (time.toNanosecondsSinceUnixEpoch.val % 1000000000).toNat⟩

/-- What is printed when the arguments ask for help or make no command. -/
def usageText : String :=
  "Find use-after-free and double-free around raw pointers in Rust programs\n\n" ++
  "Usage: unsafe-drop <COMMAND>\n\n" ++
  "Commands:\n" ++
  "  analyze   Analyze a program and report findings\n" ++
  "  classify  Show how call targets are classified\n" ++
  "  delta     Print the transition table for both construct modes\n" ++
  "  help      Print this message\n"

/-- Why arguments make no command. -/
def UsageFault.message : UsageFault → String
  | helpRequested | nothingRequested => usageText
  | versionRequested => "unsafe-drop 0.1.0\n"
  | unknownCommand => "error: unrecognized subcommand\n\n" ++ usageText
  | unknownArgument => "error: unexpected argument\n\n" ++ usageText
  | invalidValue => "error: invalid or missing value\n\n" ++ usageText
  | missingArgument => "error: a required argument was not provided\n\n" ++ usageText
  | repeatedArgument => "error: an argument cannot be used multiple times\n\n" ++ usageText
  | unexpectedValue => "error: unexpected value for a flag\n\n" ++ usageText

end Typestate.CommandLine

open Typestate.CommandLine in
/-- Runs the command line. -/
def main (args : List String) : IO UInt32 := do
  match Invocation.ofArguments args with
  | .error fault =>
    if fault.exitCode == 0 then IO.print fault.message else IO.eprint fault.message
    pure (UInt32.ofNat fault.exitCode)
  | .ok invocation =>
    let outcome ← execute realHost invocation
    IO.eprint outcome.stderr
    IO.print outcome.stdout
    pure (UInt32.ofNat outcome.exitCode)
