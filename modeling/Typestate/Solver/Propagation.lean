import Typestate.Solver.Pass
import Typestate.Solver.Validate

/-!
# Propagation between functions

Functions wait in a worklist. Taking one out costs one unit of the budget and runs a pass over it;
what the pass found is joined into the summaries. When the exit side of a summary has grown, the
known callers are put back; when the entry side of a callee has grown, or the callee has never been
looked at, the callee is put back. The budget is the iteration limit.

## Contents

- §1 The state between two passes
- §2 Taking in what a pass found
- §3 The loop
- §4 The solver
-/

namespace Typestate

/-! ## §1 State -/

/-- What is known between two passes. -/
structure Propagation where
  summaries : Summaries
  /-- For every function called into, the functions that call it. -/
  callers : FiniteMap String (FiniteSet String)
  /-- The functions that have been looked at. -/
  visited : FiniteSet String
  /-- The functions waiting to be looked at, in order. -/
  worklist : List String
  table : Table

namespace Propagation

/-- Nothing is known and nothing waits. -/
def empty : Propagation := ⟨.empty, .empty, FiniteSet.empty, [], .empty⟩

/-- Puts a function with a body into the worklist unless it waits there already. -/
def enqueue (program : Program) (p : Propagation) (name : String) : Propagation :=
  if (program.body? name).isSome && !p.worklist.contains name then
    { p with worklist := p.worklist ++ [name] }
  else
    p

/-- The state before the first pass. -/
def start (program : Program) (entries : List String) : Propagation :=
  entries.foldl (enqueue program) empty

/-- The summary of a function. -/
def summary (p : Propagation) (name : String) : Summary := (p.summaries.get? name).getD .empty

/-! ## §2 Taking in what a pass found -/

/-- The pass over `function` looked at it and saw it call into the callees of `outcome`. -/
def recordPass (p : Propagation) (name : String) (outcome : Outcome) (table : Table) :
    Propagation :=
  { p with
    visited := FiniteSet.insert p.visited name
    callers := outcome.calls.keys.foldl
      (fun callers callee =>
        callers.alter callee (fun known => FiniteSet.insert (known.getD FiniteSet.empty) name))
      p.callers
    table := table }

/-- Joins exit and return states into the summary of `name`; when they add something, the callers
are put back. -/
def absorbExit (program : Program) (p : Propagation) (name : String) (outcome : Outcome) :
    Propagation :=
  let old := p.summary name
  let grown : Summary := { old with
    exit := Facts.join old.exit outcome.exit
    ret := match outcome.ret with
      | some s => joinOption old.ret s
      | none => old.ret }
  let next := { p with summaries := p.summaries.insert name grown }
  if grown = old then next
  else
    match next.callers.get? name with
    | some callers => (FiniteSet.toList callers).foldl (enqueue program) next
    | none => next

/-- Joins the states passed to a callee into its summary; the callee is put back when they add
something or it has never been looked at. -/
def absorbCall (program : Program) (p : Propagation) (call : String × Facts) : Propagation :=
  let old := p.summary call.1
  let grown := { old with entry := Facts.join old.entry call.2 }
  let next := { p with summaries := p.summaries.insert call.1 grown }
  if grown = old && next.visited.contains call.1 then next else enqueue program next call.1

/-- Takes in what a pass over `name` found. -/
def absorb (program : Program) (p : Propagation) (name : String) (outcome : Outcome)
    (table : Table) : Propagation :=
  outcome.calls.toList.foldl (absorbCall program)
    (absorbExit program (recordPass p name outcome table) name outcome)

/-- The pass over a function before its first visit, with what is known now. -/
def openPass (p : Propagation) (name : String) (function : Function) : Pass :=
  Pass.start function.blocks.length (p.summary name).entry p.table

/-! ## §3 The loop -/

/-- Looks at waiting functions until none is left; nothing when the budget is used up before. -/
def run (program : Program) (model : CallModel) (budget : Nat) (p : Propagation) :
    Option Propagation :=
  match p.worklist with
  | [] => some p
  | name :: rest =>
    match budget with
    | 0 => none
    | budget + 1 =>
      let p := { p with worklist := rest }
      match program.body? name with
      | none => run program model budget p
      | some function =>
        match h : Pass.sweep program model p.summaries function budget (p.openPass name function) with
        | none => none
        | some (left, pass) =>
          have := Pass.sweep_left_le h
          run program model left (p.absorb program name pass.outcome pass.table)
termination_by budget

end Propagation

/-! ## §4 The solver -/

/-- The table of a program from its entry points, or the reason why there is none. -/
def solve (program : Program) (model : CallModel) (limit : Nat) (entries : List String) :
    Except SolveError Table := do
  program.validate entries
  match (Propagation.start program entries).run program model limit with
  | some p => .ok p.table
  | none => .error (.iterationLimit limit)

end Typestate
