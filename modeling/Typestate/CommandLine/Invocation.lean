import Typestate.CommandLine.Arguments
import Typestate.Finding

/-!
# Invocations

The commands of the program and what they take: `analyze` a program file, `classify` call targets,
and print the transition table with `delta`.

## Contents

- §1 Commands
- §2 Reading a command
- §3 Reading a command line
-/

namespace Typestate.CommandLine

/-! ## §1 Commands -/

/-- How findings are written. -/
inductive Format where
  | pretty
  | json
  deriving DecidableEq, Inhabited

/-- The format with the given name. -/
def Format.ofName? (name : String) : Option Format :=
  if name == "pretty" then some .pretty else if name == "json" then some .json else none

/-- What to analyze, and how. What is given here goes before what a configuration says. -/
structure AnalyzeOptions where
  program : String
  entryPoints : List String
  format : Format
  scope : Option Scope
  coverage : Option Coverage
  dumpRuns : Bool
  dumpErrors : Bool
  sequential : Bool
  config : Option String
  denyFindings : Bool
  deriving DecidableEq

/-- What to classify, and how. -/
structure ClassifyOptions where
  identifiers : List String
  program : Option String
  factoryMode : Bool
  config : Option String
  deriving DecidableEq

/-- A command with everything it needs. -/
inductive Invocation where
  | analyze (options : AnalyzeOptions)
  | classify (options : ClassifyOptions)
  | delta
  deriving DecidableEq

/-! ## §2 Reading a command -/

/-- Any value. -/
def anything (_ : String) : Bool := true

/-- A path: anything but the empty text. -/
def isPath (value : String) : Bool := !value.isEmpty

/-- What `analyze` takes. -/
def analyzeSignature : Signature where
  flags := ["dump-runs", "dump-errors", "sequential", "deny-findings"]
  options := [
    ⟨"entry", .anyNumber, anything⟩,
    ⟨"format", .once, fun v => (Format.ofName? v).isSome⟩,
    ⟨"scope", .once, fun v => (Scope.ofName? v).isSome⟩,
    ⟨"coverage", .once, fun v => (Coverage.ofName? v).isSome⟩,
    ⟨"config", .once, isPath⟩]
  positional := some ⟨"PROGRAM", .once, isPath⟩

/-- What `classify` takes. -/
def classifySignature : Signature where
  flags := ["factory-mode"]
  options := [⟨"program", .once, isPath⟩, ⟨"config", .once, isPath⟩]
  positional := some ⟨"IDENT", .anyNumber, anything⟩

/-- What `delta` takes. -/
def deltaSignature : Signature := ⟨[], [], none⟩

/-- The options of `analyze` from its arguments. -/
def readAnalyze (args : List String) : Except UsageFault AnalyzeOptions := do
  let c ← Collected.all analyzeSignature args
  let first (name : String) := (c.values name).head?
  pure {
    program := (first "PROGRAM").getD ""
    entryPoints := c.values "entry"
    format := ((first "format").bind Format.ofName?).getD .pretty
    scope := (first "scope").bind Scope.ofName?
    coverage := (first "coverage").bind Coverage.ofName?
    dumpRuns := c.has "dump-runs"
    dumpErrors := c.has "dump-errors"
    sequential := c.has "sequential"
    config := first "config"
    denyFindings := c.has "deny-findings" }

/-- The options of `classify` from its arguments. -/
def readClassify (args : List String) : Except UsageFault ClassifyOptions := do
  let c ← Collected.all classifySignature args
  pure {
    identifiers := c.values "IDENT"
    program := (c.values "program").head?
    factoryMode := c.has "factory-mode"
    config := (c.values "config").head? }

/-! ## §3 Reading a command line -/

/-- The names of the commands. -/
def commandNames : List String := ["analyze", "classify", "delta", "help"]

/-- A question about a command. Commands have no commands of their own. -/
def readHelp : List String → UsageFault
  | [] => .helpRequested
  | [name] => if commandNames.contains name then .helpRequested else .unknownCommand
  | _ => .unknownCommand

/-- An argument behind two dashes where a command is expected. -/
def readMisplaced : List String → UsageFault
  | [] => .nothingRequested
  | "--" :: _ => .unknownCommand
  | arg :: _ => if commandNames.contains arg then .unknownArgument else .unknownCommand

/-- An argument in front of any command. -/
def readLeading (arg : String) (rest : List String) : UsageFault :=
  match arg.toList with
  | ['-', '-'] => readMisplaced rest
  | '-' :: '-' :: text =>
    let (name, attached) := Collected.splitEquals text
    if name == "help" || name == "version" then
      if attached.isSome then .unexpectedValue
      else if name == "help" then .helpRequested
      else .versionRequested
    else .unknownArgument
  | '-' :: 'h' :: _ => .helpRequested
  | '-' :: 'V' :: _ => .versionRequested
  | '-' :: _ :: _ => .unknownArgument
  | _ => .unknownCommand

/-- The invocation that a command line stands for. -/
def Invocation.ofArguments : List String → Except UsageFault Invocation
  | [] => .error .nothingRequested
  | "analyze" :: args => (readAnalyze args).map .analyze
  | "classify" :: args => (readClassify args).map .classify
  | "delta" :: args => (Collected.all deltaSignature args).map (fun _ => .delta)
  | "help" :: args => .error (readHelp args)
  | arg :: rest => .error (readLeading arg rest)

end Typestate.CommandLine
