import Typestate.Error
import Typestate.Solver.Propagation

/-!
# Runs

A run is the table of one mode together with, for every value, the set of states it was ever seen
in. Filtering leaves out the values whose states say nothing about memory misuse.

## Contents

- §1 `Run` and the views of it
- §2 Filtering
- §3 `RunPair`: the runs of both modes
- §4 Running a solver
-/

namespace Typestate

/-! ## §1 Runs -/

/-- For every value, the states it was seen in. -/
abbrev StateSets := FiniteMap ValueId (FiniteSet State)

/-- Adds a state to the set of a value. -/
def StateSets.add (sets : StateSets) (v : ValueId) (s : State) : StateSets :=
  FiniteMap.alter sets v (fun set => FiniteSet.insert (set.getD FiniteSet.empty) s)

/-- The states each value has in the cells of a table. -/
def Table.stateSets (t : Table) : StateSets :=
  t.cells.foldl (fun sets c => StateSets.add sets c.2.1 c.2.2) FiniteMap.empty

/-- A table with the states of each value in it. -/
structure Run where
  mode : Mode
  table : Table
  states : StateSets
  deriving DecidableEq, Inhabited

namespace Run

/-- The run of a table. -/
def ofTable (mode : Mode) (table : Table) : Run := ⟨mode, table, table.stateSets⟩

/-- The values seen at least once in a state that satisfies `p`, in ascending order. -/
def valuesWhere (r : Run) (p : State → Bool) : List ValueId :=
  (r.states.toList.filter (fun e => FiniteSet.any p e.2)).map (·.1)

/-! ## §2 Filtering -/

/-- A set of states that says nothing: it holds a violation, or nothing ever happened. -/
def isNoise (set : FiniteSet State) : Bool :=
  FiniteMap.contains set State.error ||
    FiniteSet.all (fun s => s == State.bottom || s == State.uninit) set

/-- The run without the values whose states say nothing. -/
def filter (r : Run) : Run :=
  let kept := FiniteMap.filter (fun _ set => !isNoise set) r.states
  ⟨r.mode, r.table.retainValues kept.contains, kept⟩

/-- The run without the values whose states say nothing in the eyes of a model. The mode of the model
need not be that of the run. -/
def filterUnder (model : CallModel) (r : Run) : Run :=
  let noise (set : FiniteSet State) : Bool :=
    FiniteMap.contains set model.error ||
      FiniteSet.all (fun s => s == model.bottom || s == model.uninit) set
  let kept := FiniteMap.filter (fun _ set => !noise set) r.states
  ⟨r.mode, r.table.retainValues kept.contains, kept⟩

/-- Models do not differ in what they take for noise. -/
theorem filterUnder_eq (model : CallModel) (r : Run) : r.filterUnder model = r.filter := rfl

end Run

/-! ## §3 Pairs -/

/-- The runs of both modes over one program. -/
structure RunPair where
  consuming : Run
  factory : Run
  deriving DecidableEq, Inhabited

namespace RunPair

/-- Both runs, the consuming one first. -/
def runs (p : RunPair) : List Run := [p.consuming, p.factory]

/-- Both runs without their noise. -/
def filter (p : RunPair) : RunPair := ⟨p.consuming.filter, p.factory.filter⟩

/-- For every value, the states it was seen in by either run. -/
def merged (p : RunPair) : StateSets :=
  FiniteMap.mergeWith FiniteSet.union p.consuming.states p.factory.states

end RunPair

/-! ## §4 Running -/

/-- Anything that computes the table of a program from its entry points. -/
abbrev Solver := Program → CallModel → List String → Except SolveError Table

/-- The settings of a run. -/
structure RunSettings where
  entryPoints : List String
  coverage : Coverage
  /-- Whether the two modes may be run at the same time. It never changes a result. -/
  parallel : Bool
  maxIterations : Nat
  deriving DecidableEq, Inhabited

/-- The iteration limit where none is given. -/
def defaultMaxIterations : Nat := 100000

/-- The settings where none are given. -/
def RunSettings.default : RunSettings := ⟨["main"], .full, true, defaultMaxIterations⟩

/-- A solver set up for one program. -/
structure Executor where
  program : Program
  classifier : Classifier
  settings : RunSettings
  solver : Solver

namespace Executor

/-- Runs the worklist solver under the iteration limit of the settings. -/
def new (program : Program) (classifier : Classifier) (settings : RunSettings) : Executor :=
  ⟨program, classifier, settings,
    fun program model entries => solve program model settings.maxIterations entries⟩

/-- Runs another solver. -/
def withSolver (e : Executor) (solver : Solver) : Executor := { e with solver := solver }

/-- The model of calls in one mode. -/
def model (e : Executor) (mode : Mode) : CallModel := ⟨e.classifier, e.settings.coverage, mode⟩

/-- One run, with its noise. -/
def run (e : Executor) (mode : Mode) : Except Error Run :=
  match e.solver e.program (e.model mode) e.settings.entryPoints with
  | .ok table => .ok (.ofTable mode table)
  | .error cause => .error (.solver mode cause)

/-- A run without its noise, by the model of its own mode that looks at every call. -/
def filter (e : Executor) (r : Run) : Run := r.filterUnder ⟨e.classifier, .full, r.mode⟩

/-- One run without its noise. -/
def runFiltered (e : Executor) (mode : Mode) : Except Error Run := (e.run mode).map e.filter

/-- Both runs with their noise. When both fail, the failure of the consuming run is reported. -/
def runPair (e : Executor) : Except Error RunPair := do
  let consuming ← e.run .consuming
  let factory ← e.run .factory
  pure ⟨consuming, factory⟩

/-- Both runs without their noise. -/
def runPairFiltered (e : Executor) : Except Error RunPair := e.runPair.map RunPair.filter

end Executor

end Typestate
