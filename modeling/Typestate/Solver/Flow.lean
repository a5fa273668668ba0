import Typestate.CallModel

/-!
# Flow through one instruction

What an instruction does to the facts on entry to it, given what is known so far about the functions
it may call into. A call to a function with a body passes the states of its arguments on to the
parameters and reads back what the parameters were known to be at the returns of that function.

## Contents

- §1 `Summary` and `Outcome`
- §2 Calls into a body
- §3 One instruction
-/

namespace Typestate

/-! ## §1 Summaries and outcomes -/

/-- What is known about a function over all its calls. -/
structure Summary where
  /-- States of parameters, joined over the calls. -/
  entry : Facts
  /-- States of parameters, joined over the returns. -/
  exit : Facts
  /-- State of the returned value, joined over the returns. -/
  ret : Option State
  deriving DecidableEq, Inhabited

/-- A function that nothing is known about yet. -/
def Summary.empty : Summary := ⟨.empty, .empty, none⟩

/-- Summaries by function name. -/
abbrev Summaries := FiniteMap String Summary

/-- What one pass over a function has found. -/
structure Outcome where
  /-- States of parameters, joined over the returns. -/
  exit : Facts
  /-- State of the returned value, joined over the returns. -/
  ret : Option State
  /-- For every function called into, the states passed to its parameters. -/
  calls : FiniteMap String Facts
  deriving DecidableEq, Inhabited

/-- A pass that has found nothing yet. -/
def Outcome.empty : Outcome := ⟨.empty, none, .empty⟩

/-! ## §2 Calls into a body -/

/-- Joins the states of tracked arguments into the parameters they are paired with. -/
def passArguments (facts : Facts) (pairs : List (ValueId × ValueId)) (passed : Facts) : Facts :=
  pairs.foldl
    (fun passed pair =>
      match facts.get? pair.1 with
      | some s => Facts.joinAt passed pair.2 s
      | none => passed)
    passed

/-- Joins the states of parameters at the returns into the arguments they are paired with. -/
def readBack (exit : Facts) (pairs : List (ValueId × ValueId)) (facts : Facts) : Facts :=
  pairs.foldl
    (fun facts pair =>
      match exit.get? pair.2 with
      | some after => Facts.joinAt facts pair.1 after
      | none => facts)
    facts

/-- The result of a call takes the state of the returned value, if both exist. -/
def bindResult (result : Option ValueId) (ret : Option State) (facts : Facts) : Facts :=
  match result, ret with
  | some v, some s => facts.insert v s
  | _, _ => facts

/-- The facts after a call into `target`, and the outcome with the states passed to it. -/
def descend (summaries : Summaries) (target : Function) (args : List ValueId)
    (result : Option ValueId) (facts : Facts) (outcome : Outcome) : Facts × Outcome :=
  let pairs := args.zip target.params
  let outcome := { outcome with
    calls := outcome.calls.alter target.name
      (fun passed => passArguments facts pairs (passed.getD .empty)) }
  match summaries.get? target.name with
  | none => (facts, outcome)
  | some summary => (bindResult result summary.ret (readBack summary.exit pairs facts), outcome)

/-! ## §3 One instruction -/

/-- Joins the states of the parameters into the outcome. -/
def recordExit (params : List ValueId) (facts exit : Facts) : Facts :=
  params.foldl
    (fun exit param =>
      match facts.get? param with
      | some s => Facts.joinAt exit param s
      | none => exit)
    exit

/-- Joins the state of the returned value into the outcome. -/
def recordReturn (value : Option ValueId) (facts : Facts) (ret : Option State) : Option State :=
  match value.bind (fun v => facts.get? v) with
  | some s => joinOption ret s
  | none => ret

/-- The facts behind an instruction of `function`, and the outcome with what it adds. -/
def transfer (program : Program) (model : CallModel) (summaries : Summaries) (function : Function)
    (inst : Instruction) (facts : Facts) (outcome : Outcome) : Facts × Outcome :=
  match inst.op with
  | .call callee args result =>
    match program.body? callee with
    | some target => descend summaries target args result facts outcome
    | none => (model.apply callee args result facts, outcome)
  | .ret value =>
    (facts, { outcome with
      exit := recordExit function.params facts outcome.exit
      ret := recordReturn value facts outcome.ret })
  | .other _ => (facts, outcome)

end Typestate
