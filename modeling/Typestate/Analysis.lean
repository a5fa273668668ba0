import Typestate.Finding

/-!
# Analysis of a program

The settings say how, the program says what: both modes are run, the noise is left out, and the two
runs are reconciled into findings.
-/

namespace Typestate

/-- Everything an analysis needs besides the program. -/
structure Settings where
  run : RunSettings
  scope : Scope
  /-- Entries added to the table of known functions. -/
  known : List KnownFunction
  deriving DecidableEq, Inhabited

/-- The outcome of an analysis. -/
structure Analysis where
  /-- The runs with their noise. -/
  unfiltered : RunPair
  /-- The runs without their noise. -/
  runs : RunPair
  findings : List Finding
  deriving DecidableEq, Inhabited

namespace Settings

/-- The settings where none are given. -/
def default : Settings := ⟨.default, .rebuildSites, []⟩

/-- The built-in table with the added entries. -/
def knownTable (s : Settings) : KnownTable := KnownTable.builtin.addAll s.known

/-- The classifier for the declarations of a program. -/
def classifier (s : Settings) (program : Program) : Classifier :=
  ⟨s.knownTable, .ofProgram program⟩

/-- The worklist solver set up for a program. -/
def executor (s : Settings) (program : Program) : Executor :=
  .new program (s.classifier program) s.run

/-- The analysis of a program. At least one entry point is needed. -/
def analyze (s : Settings) (program : Program) : Except Error Analysis :=
  if s.run.entryPoints.isEmpty then
    .error (.config "no entry points to analyze")
  else do
    let unfiltered ← (s.executor program).runPair
    let runs := unfiltered.filter
    pure ⟨unfiltered, runs, reconcile program (s.classifier program) s.scope runs⟩

end Settings

end Typestate
