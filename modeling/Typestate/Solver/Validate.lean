import Typestate.Program.Basic

/-!
# Well-formed inputs of the solver

Before anything is propagated the program and the entry points are checked, and the first defect in
a fixed scan is reported: entry points in order, then functions and their blocks in program order;
within a block the first successor out of range, then a missing return, then the first repeated
instruction identity.

## Contents

- §1 `SolveError`: why there is no table
- §2 The checks
-/

namespace Typestate

/-! ## §1 Errors -/

/-- Why the solver gives no table. -/
inductive SolveError where
  /-- No function has the name of an entry point. -/
  | unknownEntryPoint (function : String)
  /-- No function with the name of an entry point has a body. -/
  | entryWithoutBody (function : String)
  /-- An instruction identity occurs twice. -/
  | duplicateInstruction (inst : InstId)
  /-- A block names a successor that does not exist. -/
  | invalidSuccessor (function : String) (block : Nat) (target : Nat)
  /-- A block neither continues nor returns. -/
  | missingReturn (function : String) (block : Nat)
  /-- The iteration limit was reached before a fixed point. -/
  | iterationLimit (limit : Nat)
  deriving DecidableEq

namespace SolveError

/-- The text of an error. -/
def message : SolveError → String
  | unknownEntryPoint f => "entry point `" ++ f ++ "` is not defined in the program"
  | entryWithoutBody f => "entry point `" ++ f ++ "` has no body"
  | duplicateInstruction i => "instruction id " ++ i.label ++ " appears more than once"
  | invalidSuccessor f block target =>
    "block " ++ toString block ++ " of `" ++ f ++ "` jumps to missing block " ++ toString target
  | missingReturn f block =>
    "block " ++ toString block ++ " of `" ++ f ++
      "` has no successors and does not end in a return"
  | iterationLimit limit => "no fixed point after " ++ toString limit ++ " iterations"

/-- The part of the solver that gave up. -/
def stage : SolveError → String
  | iterationLimit _ => "propagate"
  | _ => "validate"

end SolveError

/-! ## §2 Checks -/

namespace Program

/-- An entry point has to name a function with a body. -/
def checkEntry (p : Program) (entry : String) : Except SolveError Unit :=
  match p.functions.filter (fun f => f.name == entry) with
  | [] => .error (.unknownEntryPoint entry)
  | candidates =>
    if candidates.any (·.hasBody) then .ok () else .error (.entryWithoutBody entry)

/-- The instruction identities of a block have to be new; gives all identities seen so far. -/
def checkIdentities (seen : FiniteSet InstId) :
    List Instruction → Except SolveError (FiniteSet InstId)
  | [] => .ok seen
  | i :: rest =>
    if seen.contains i.id then .error (.duplicateInstruction i.id)
    else checkIdentities (seen.insert i.id) rest

/-- A block has to stay inside its function, continue or return, and bring new identities. -/
def checkBlock (f : Function) (seen : FiniteSet InstId) (index : Nat) (b : Block) :
    Except SolveError (FiniteSet InstId) :=
  match b.successors.find? (fun t => f.blocks.length ≤ t.toNat) with
  | some target => .error (.invalidSuccessor f.name index target.toNat)
  | none =>
    if b.successors.isEmpty && !(b.instructions.getLast?.any (·.isReturn)) then
      .error (.missingReturn f.name index)
    else
      checkIdentities seen b.instructions

/-- The blocks of a function from `index` on. -/
def checkBlocks (f : Function) (seen : FiniteSet InstId) (index : Nat) :
    List Block → Except SolveError (FiniteSet InstId)
  | [] => .ok seen
  | b :: rest => do
    let seen ← checkBlock f seen index b
    checkBlocks f seen (index + 1) rest

/-- Functions one after the other. -/
def checkFunctions (seen : FiniteSet InstId) :
    List Function → Except SolveError (FiniteSet InstId)
  | [] => .ok seen
  | f :: rest => do
    let seen ← checkBlocks f seen 0 f.blocks
    checkFunctions seen rest

/-- Entry points one after the other. -/
def checkEntries (p : Program) : List String → Except SolveError Unit
  | [] => .ok ()
  | e :: rest => do
    p.checkEntry e
    p.checkEntries rest

/-- Accepts exactly the programs and entry points that the solver can work on. -/
def validate (p : Program) (entries : List String) : Except SolveError Unit := do
  p.checkEntries entries
  let _ ← checkFunctions FiniteSet.empty p.functions
  pure ()

end Program

end Typestate
