import Typestate.CommandLine.Invocation
import Typestate.Config.Discovery
import Typestate.Program.Codec
import Typestate.Report.Document
import Typestate.Report.Pretty

/-!
# Executing an invocation

What an invocation prints and with which code it ends. Files, the current directory and the time come
from a host, so the same definitions run against real files and against a file tree in memory.

## Contents

- §1 `Host` and `Outcome`
- §2 Failures
- §3 Loading programs and settings
- §4 The commands
-/

namespace Typestate.CommandLine

/-! ## §1 Host and outcome -/

/-- What a command may ask of the world around it. -/
structure Host (m : Type → Type) where
  /-- The text of a file, or the system's reason why there is none. -/
  read : Path → m (Except String String)
  isFile : Path → m Bool
  /-- The absolute path of the current directory, or the reason why it is not known. -/
  currentDirectory : m (Except String Path)
  now : m Timestamp

/-- What a command leaves behind. -/
structure Outcome where
  exitCode : Nat
  stdout : String
  stderr : String
  deriving DecidableEq

/-! ## §2 Failures -/

/-- Why a command fails. -/
inductive Failure where
  /-- The program could not be loaded. -/
  | program (path : String) (cause : Error)
  /-- The configuration could not be read. -/
  | configFile (path : String) (reason : String)
  /-- The configuration is refused. -/
  | config (path : String) (fault : Config.Fault)
  /-- The analysis failed. -/
  | analysis (cause : Error)
  /-- The current directory is not known. -/
  | directory (reason : String)

/-- The text of a failure: what was attempted, then the causes, outermost first. -/
def Failure.message : Failure → String
  | program path cause =>
    String.intercalate ": " (("failed to load program: " ++ path) :: cause.chain)
  | configFile path reason => "failed to read config file: " ++ path ++ ": " ++ reason
  | config path fault => "failed to parse config file: " ++ path ++ ": " ++ fault.message
  | analysis cause => String.intercalate ": " cause.chain
  | directory reason => reason

/-- A command that fails prints why and ends with code 2. -/
def Failure.outcome (f : Failure) : Outcome := ⟨2, "", f.message ++ "\n"⟩

/-! ## §3 Loading -/

variable {m : Type → Type} [Monad m]

/-- The program in a file. -/
def loadProgram (host : Host m) (path : String) : ExceptT Failure m Program := do
  match ← host.read (.ofString path) with
  | .error reason => throw (.program path (.io reason))
  | .ok text =>
    match Program.parse text with
    | .ok p => pure p
    | .error fault => throw (.program path (.malformed fault))

/-- The settings in a file. -/
def loadConfigFile (host : Host m) (path : Path) : ExceptT Failure m Settings := do
  match ← host.read path with
  | .error reason => throw (.configFile path.toString reason)
  | .ok text =>
    match Config.parse text with
    | .ok s => pure s
    | .error fault => throw (.config path.toString fault)

/-- The settings in the given file, or else in the nearest one from a directory on upwards, or else
the default ones. -/
def loadSettings (host : Host m) (given : Option String) (start : Path) :
    ExceptT Failure m Settings := do
  match given with
  | some path => loadConfigFile host (.ofString path)
  | none =>
    match ← (Config.find? host.isFile start : m _) with
    | some path => loadConfigFile host path
    | none => pure .default

/-! ## §4 Commands -/

/-- The settings with what the command line says in their place. -/
def AnalyzeOptions.override (o : AnalyzeOptions) (s : Settings) : Settings :=
  { s with
    run := { s.run with
      entryPoints := if o.entryPoints.isEmpty then s.run.entryPoints else o.entryPoints
      coverage := o.coverage.getD s.run.coverage
      parallel := s.run.parallel && !o.sequential }
    scope := o.scope.getD s.scope }

/-- What `analyze` writes about the runs besides the findings. -/
def AnalyzeOptions.dumps (o : AnalyzeOptions) (program : Program) (a : Analysis) : String :=
  (if o.dumpRuns then
    String.join (a.unfiltered.runs.map (Report.run program "unfiltered")) ++
      String.join (a.runs.runs.map (Report.run program "filtered"))
  else "") ++
    if o.dumpErrors then Report.errorValues program a.runs else ""

/-- Analyzes a program and writes its findings. -/
def analyze (host : Host m) (o : AnalyzeOptions) : ExceptT Failure m Outcome := do
  let program ← loadProgram host o.program
  let settings ← loadSettings host o.config (Path.ofString o.program).directory
  match (o.override settings).analyze program with
  | .error cause => throw (.analysis cause)
  | .ok a =>
    let findings ← match o.format with
      | .pretty => pure (Report.findings program a.findings)
      | .json => do pure (Report.document program a.findings (← host.now) ++ "\n")
    let code := if o.denyFindings && !a.findings.isEmpty then 1 else 0
    pure ⟨code, findings, o.dumps program a⟩

/-- Classifies call targets and writes what they do. -/
def classify (host : Host m) (o : ClassifyOptions) : ExceptT Failure m Outcome := do
  let declarations ← match o.program with
    | some path => do pure (Declarations.ofProgram (← loadProgram host path))
    | none => pure .empty
  let start ← match o.program with
    | some path => pure (Path.ofString path).directory
    | none =>
      match ← host.currentDirectory with
      | .ok dir => pure dir
      | .error reason => throw (.directory reason)
  let settings ← loadSettings host o.config start
  let classifier : Classifier := ⟨settings.knownTable, declarations⟩
  let mode := Mode.ofFlag o.factoryMode
  let texts := o.identifiers.map (fun i => Report.callInfo i mode (classifier.classify mode i))
  pure ⟨0, String.join texts, ""⟩

/-- What an invocation leaves behind. -/
def execute (host : Host m) (invocation : Invocation) : m Outcome := do
  let result ← (match invocation with
    | .analyze o => analyze host o
    | .classify o => classify host o
    | .delta => pure ⟨0, Report.transitionTables, ""⟩ : ExceptT Failure m Outcome).run
  match result with
  | .ok outcome => pure outcome
  | .error failure => pure failure.outcome

end Typestate.CommandLine
