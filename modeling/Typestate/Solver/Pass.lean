import Typestate.Solver.Flow

/-!
# One pass over a function

A pass starts in the first block with the facts known on entry to the function and follows successor
edges until no block receives anything new. A block is pending when it has just been reached or its
facts have grown since it was last visited. Every visit costs one unit of a budget.

## Contents

- §1 The state of a pass
- §2 One visit
- §3 The whole pass
-/

namespace Typestate

/-! ## §1 State -/

/-- A pass in progress. -/
structure Pass where
  /-- For every block that has been reached, the facts on entry to it. -/
  inflow : List (Option Facts)
  /-- Blocks waiting for a visit, in order. -/
  pending : List Nat
  outcome : Outcome
  table : Table
  deriving DecidableEq, Inhabited

namespace Pass

/-- The pass over a function of `blocks` blocks before its first visit. -/
def start (blocks : Nat) (entry : Facts) (table : Table) : Pass :=
  ⟨(List.replicate blocks none).set 0 (some entry), [0], .empty, table⟩

/-! ## §2 Visits -/

/-- What flows from instruction to instruction inside a block. -/
structure Stream where
  facts : Facts
  outcome : Outcome
  table : Table

/-- Records the facts on entry to an instruction and goes through it. -/
def Stream.advance (program : Program) (model : CallModel) (summaries : Summaries)
    (function : Function) (s : Stream) (inst : Instruction) : Stream :=
  let (facts, outcome) := transfer program model summaries function inst s.facts s.outcome
  ⟨facts, outcome, s.table.joinRow inst.id s.facts⟩

/-- Adds a block to the pending ones unless it is among them. -/
def schedule (pass : Pass) (block : Nat) : Pass :=
  if pass.pending.contains block then pass else { pass with pending := pass.pending ++ [block] }

/-- Facts arrive at a block: it becomes pending when they reach it first or add to what is there. -/
def arrive (facts : Facts) (pass : Pass) (block : Nat) : Pass :=
  match pass.inflow[block]? with
  | none => pass
  | some none => { pass with inflow := pass.inflow.set block (some facts) }.schedule block
  | some (some old) =>
    let joined := Facts.join old facts
    if joined = old then pass
    else { pass with inflow := pass.inflow.set block (some joined) }.schedule block

/-- Visits a block: goes through its instructions and on to its successors. -/
def visit (program : Program) (model : CallModel) (summaries : Summaries) (function : Function)
    (pass : Pass) (index : Nat) : Pass :=
  match function.blocks[index]? with
  | none => pass
  | some block =>
    let entry := (pass.inflow[index]?.bind id).getD .empty
    let s := block.instructions.foldl (Stream.advance program model summaries function)
      ⟨entry, pass.outcome, pass.table⟩
    block.successors.foldl (fun pass target => arrive s.facts pass target.toNat)
      { pass with outcome := s.outcome, table := s.table }

/-! ## §3 The whole pass -/

/-- Visits pending blocks until none is left, and gives the budget left over; nothing when the
budget is used up before. -/
def sweep (program : Program) (model : CallModel) (summaries : Summaries) (function : Function) :
    Nat → Pass → Option (Nat × Pass)
  | 0, pass => if pass.pending.isEmpty then some (0, pass) else none
  | budget + 1, pass =>
    match pass.pending with
    | [] => some (budget + 1, pass)
    | block :: rest =>
      sweep program model summaries function budget
        (visit program model summaries function { pass with pending := rest } block)

/-- A pass never gains budget. -/
theorem sweep_left_le {program : Program} {model : CallModel} {summaries : Summaries}
    {function : Function} {budget left : Nat} {pass final : Pass}
    (h : sweep program model summaries function budget pass = some (left, final)) :
    left ≤ budget := by
  induction budget generalizing pass with
  | zero =>
    simp only [sweep] at h
    split at h <;> simp_all
  | succ budget ih =>
    simp only [sweep] at h
    split at h
    · simp_all
    · exact Nat.le_succ_of_le (ih h)

end Pass

end Typestate
