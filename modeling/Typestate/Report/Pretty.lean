import Typestate.Finding

/-!
# Reports for a reader

## Contents

- §1 Sets of states and labelled values
- §2 Findings
- §3 Runs and error values
- §4 The transition table and the classification of a call
-/

namespace Typestate.Report

/-! ## §1 Values -/

/-- Texts with commas between them. -/
def commaSeparated (texts : List String) : String := String.intercalate ", " texts

/-- A set of states in braces. -/
def stateSet (states : FiniteSet State) : String :=
  "\x7b" ++ commaSeparated ((FiniteSet.toList states).map State.label) ++ "\x7d"

/-- A value with its states, on a line of its own. -/
def valueLine (program : Program) (e : ValueId × FiniteSet State) : String :=
  "  " ++ program.valueLabel e.1 ++ ": " ++ stateSet e.2 ++ "\n"

/-- Values with their states, one to a line. -/
def valueLines (program : Program) (values : List (ValueId × FiniteSet State)) : String :=
  String.join (values.map (valueLine program))

/-! ## §2 Findings -/

/-- One finding, followed by an empty line. -/
def finding (program : Program) (f : Finding) : String :=
  "finding[" ++ commaSeparated ((FiniteSet.toList f.kinds).map MemoryError.label) ++ "] at " ++
    f.instruction.label ++ " in `" ++ f.function ++ "`\n" ++
    "  call: " ++ f.callee ++ " (" ++ f.token.label ++ ")\n" ++
    valueLines program f.values.toList ++ "\n"

/-- All findings and their number. -/
def findings (program : Program) (fs : List Finding) : String :=
  String.join (fs.map (finding program)) ++ toString fs.length ++ " finding(s)\n"

/-! ## §3 Runs -/

/-- The state sets of a run, under a title. -/
def run (program : Program) (title : String) (r : Run) : String :=
  title ++ " run " ++ r.mode.label ++ "\n" ++
    (if r.states.isEmpty then "  (no values)\n" else "") ++ valueLines program r.states.toList

/-- A titled section of values, which says so when it is empty. -/
def valuesSection (program : Program) (title : String)
    (values : List (ValueId × FiniteSet State)) : String :=
  title ++ "\n" ++ if values.isEmpty then "  (none)\n" else valueLines program values

/-- Whether a set of states holds a memory error. -/
def hasMemoryError (states : FiniteSet State) : Bool := FiniteSet.any State.isMemoryError states

/-- Whether a set of states holds a memory error next to a raw reference or wrap. -/
def hasRawCompanion (states : FiniteSet State) : Bool :=
  hasMemoryError states &&
    (FiniteMap.contains states .rawReferenced || FiniteMap.contains states .rawWrapped)

/-- The values that reached a memory error: in each run, then those among them that were also raw,
in each run and over both runs together. -/
def errorValues (program : Program) (runs : RunPair) : String :=
  let select (keep : FiniteSet State → Bool) (sets : StateSets) :=
    sets.toList.filter (fun e => keep e.2)
  String.join (runs.runs.map (fun r =>
      valuesSection program ("error values (" ++ r.mode.label ++ ")")
        (select hasMemoryError r.states))) ++
    String.join (runs.runs.map (fun r =>
      valuesSection program
        ("error values also raw-referenced or raw-wrapped (" ++ r.mode.label ++
          ", not reconciled)")
        (select hasRawCompanion r.states))) ++
    valuesSection program "error values also raw-referenced or raw-wrapped (merged, not reconciled)"
      (select hasRawCompanion runs.merged)

/-! ## §4 Transition table and call information -/

/-- The width of a column of the transition table: the longest text of a state. -/
def columnWidth : Nat := (State.all.map (fun s => s.label.length)).foldl max 0

/-- A text with blanks behind it up to the width of a column. -/
def column (text : String) : String :=
  text ++ String.ofList (List.replicate (columnWidth - text.length) ' ')

/-- Texts as the columns of a line. -/
def columns (texts : List String) : String := String.intercalate "  " (texts.map column)

/-- The line of a state in the transition table, without blanks at its end. -/
def transitionLine (mode : Mode) (s : State) : String :=
  let line := columns (s.label :: Token.all.map (fun t => (t.step mode s).label))
  String.ofList (Text.trimEnd line.toList) ++ "\n"

/-- The transition table of one mode. -/
def transitionTable (mode : Mode) : String :=
  mode.label ++ "\n" ++ columns ("" :: Token.all.map Token.label) ++ "\n" ++
    String.join (State.all.map (transitionLine mode)) ++ "\n"

/-- The transition tables of both modes. -/
def transitionTables : String := String.join (Mode.all.map transitionTable)

/-- Positions with commas between them. -/
def positions (ps : FiniteSet Position) : String :=
  commaSeparated ((FiniteSet.toList ps).map (fun p => toString p))

/-- The classification of a call target. -/
def callInfo (identifier : String) (mode : Mode) (info : CallInfo) : String :=
  identifier ++ "\n  mode: " ++ mode.label ++ "\n  token: " ++ info.token.label ++
    "\n  provenance: " ++ info.provenance.name ++
    "\n  factory: " ++ (if info.isFactory then "true" else "false") ++
    "\n  outputs: [" ++ positions info.outputs ++ "]\n  consumers: [" ++
    positions info.consumers ++ "]\n"

end Typestate.Report
