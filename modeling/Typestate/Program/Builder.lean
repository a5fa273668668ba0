import Typestate.Program.Basic

/-!
# Building programs

A builder hands out fresh identities: values are numbered in the order in which they are asked for,
instructions in the order in which they are emitted. A function body is built block by block; the
instructions go to the current block.

## Contents

- §1 Steps
- §2 Bodies
- §3 Programs
-/

namespace Typestate

/-! ## §1 Steps -/

section
variable {β σ ρ : Type}

/-- Takes steps one after the other and collects what they give back; fails when one of them fails. -/
def runSteps (step : β → σ → Option (ρ × β)) (b : β) : List σ → Option (List ρ × β)
  | [] => some ([], b)
  | s :: rest => do
    let (result, b) ← step b s
    let (results, b) ← runSteps step b rest
    pure (result :: results, b)

variable {step : β → σ → Option (ρ × β)} {b c : β} {s : σ} {rest : List σ}

theorem runSteps_cons_eq_some_iff {rs : List ρ} :
    runSteps step b (s :: rest) = some (rs, c) ↔
      ∃ r b' results, step b s = some (r, b') ∧ runSteps step b' rest = some (results, c) ∧
        rs = r :: results := by
  simp only [runSteps, Option.bind_eq_bind, Option.bind_eq_some_iff, Prod.exists, Option.pure_def,
    Option.some.injEq, Prod.mk.injEq]
  constructor
  · rintro ⟨r, b', hstep, results, d, hrun, rfl, rfl⟩
    exact ⟨r, b', results, hstep, hrun, rfl⟩
  · rintro ⟨r, b', results, hstep, hrun, rfl⟩
    exact ⟨r, b', hstep, results, c, hrun, rfl, rfl⟩

theorem runSteps_cons_eq_none_iff :
    runSteps step b (s :: rest) = none ↔
      step b s = none ∨ ∃ r b', step b s = some (r, b') ∧ runSteps step b' rest = none := by
  cases hstep : step b s with
  | none => simp [runSteps, hstep]
  | some result =>
    obtain ⟨r, b'⟩ := result
    have hrest : runSteps step b (s :: rest) = none ↔ runSteps step b' rest = none := by
      cases hrun : runSteps step b' rest <;> simp [runSteps, hstep, hrun]
    rw [hrest]
    constructor
    · exact fun hnone => Or.inr ⟨r, b', rfl, hnone⟩
    · rintro (hfails | ⟨_, _, ⟨⟩, hnone⟩)
      · cases hfails
      · exact hnone

end

/-! ## §2 Bodies -/

/-- A body under construction. -/
structure BodyBuilder where
  /-- The number of the next instruction. -/
  nextInst : UInt32
  blocks : List Block
  /-- The index of the block that receives instructions. -/
  current : Nat

/-- One step in building a body. -/
inductive BodyStep where
  | call (callee : String) (args : List ValueId) (result : Option ValueId)
  | ret (value : Option ValueId)
  | other (text : String)
  /-- Opens a block and makes it current. -/
  | newBlock
  /-- Makes a block current, whether it exists or not. -/
  | switchTo (block : UInt64)
  /-- Adds a successor to a block. -/
  | edge (source target : UInt64)
  deriving DecidableEq

/-- What a step in building a body gives back. -/
inductive BodyResult where
  /-- The identity of the emitted instruction. -/
  | instruction (id : InstId)
  /-- The index of the opened block. -/
  | block (index : Nat)
  | nothing
  deriving DecidableEq

namespace BodyBuilder

/-- A body with one empty block. -/
def start (nextInst : UInt32) : BodyBuilder := ⟨nextInst, [⟨[], []⟩], 0⟩

/-- Emits an instruction; fails when the current block does not exist. -/
def emit (b : BodyBuilder) (op : Op) : Option (BodyResult × BodyBuilder) :=
  if b.current < b.blocks.length then
    let id : InstId := ⟨b.nextInst⟩
    some (.instruction id,
      { b with
        nextInst := b.nextInst + 1
        blocks := b.blocks.modify b.current (fun block =>
          { block with instructions := block.instructions ++ [⟨id, op⟩] }) })
  else
    none

/-- Takes one step; fails when it emits into, or adds an edge from, a block that does not exist. -/
def step (b : BodyBuilder) : BodyStep → Option (BodyResult × BodyBuilder)
  | .call callee args result => b.emit (.call callee args result)
  | .ret value => b.emit (.ret value)
  | .other text => b.emit (.other text)
  | .newBlock =>
    some (.block b.blocks.length,
      { b with blocks := b.blocks ++ [⟨[], []⟩], current := b.blocks.length })
  | .switchTo block => some (.nothing, { b with current := block.toNat })
  | .edge source target =>
    if source.toNat < b.blocks.length then
      some (.nothing,
        { b with blocks := b.blocks.modify source.toNat (fun block =>
          { block with successors := block.successors ++ [target] }) })
    else
      none

/-- Takes steps one after the other. -/
def run (b : BodyBuilder) (steps : List BodyStep) : Option (List BodyResult × BodyBuilder) :=
  runSteps step b steps

end BodyBuilder

/-! ## §3 Programs -/

/-- A program under construction. -/
structure Builder where
  program : Program
  /-- The number of the next value. -/
  nextValue : UInt32
  /-- The number of the next instruction. -/
  nextInst : UInt32

/-- One step in building a program. -/
inductive BuildStep where
  /-- Asks for a fresh value with a name. -/
  | value (name : String)
  /-- Adds a function without body whose parameters are fresh values. -/
  | declare (name : String) (arity : Nat) (outputArg : Option UInt64)
  /-- Adds a function with a body. -/
  | define (name : String) (params : List ValueId) (body : List BodyStep)
  deriving DecidableEq

/-- What a step in building a program gives back. -/
inductive BuildResult where
  | value (id : ValueId)
  | nothing
  | body (results : List BodyResult)
  deriving DecidableEq

namespace Builder

/-- The builder of the empty program. -/
def start : Builder := ⟨.empty, 0, 0⟩

/-- A fresh value with a name. -/
def value (b : Builder) (name : String) : ValueId × Builder :=
  let id : ValueId := ⟨b.nextValue⟩
  (id,
    { b with
      program := { b.program with valueNames := b.program.valueNames.insert id name }
      nextValue := b.nextValue + 1 })

/-- Fresh values for the parameters of a declared function, counted from `first`. -/
def parameters (b : Builder) (name : String) (first : Nat) : Nat → List ValueId × Builder
  | 0 => ([], b)
  | count + 1 =>
    let (id, b) := b.value (name ++ ".arg" ++ toString first)
    let (ids, b) := b.parameters name (first + 1) count
    (id :: ids, b)

/-- Adds a function at the end of the program. -/
def addFunction (b : Builder) (f : Function) : Builder :=
  { b with program := { b.program with functions := b.program.functions ++ [f] } }

/-- Takes one step; fails when a step of a body fails. -/
def step (b : Builder) : BuildStep → Option (BuildResult × Builder)
  | .value name =>
    let (id, b) := b.value name
    some (.value id, b)
  | .declare name arity outputArg =>
    let (params, b) := b.parameters name 0 arity
    some (.nothing, b.addFunction ⟨name, params, outputArg, []⟩)
  | .define name params steps => do
    let (results, body) ← (BodyBuilder.start b.nextInst).run steps
    let b := { b with nextInst := body.nextInst }
    pure (.body results, b.addFunction ⟨name, params, none, body.blocks⟩)

/-- Takes steps one after the other. -/
def run (b : Builder) (steps : List BuildStep) : Option (List BuildResult × Builder) :=
  runSteps step b steps

end Builder

end Typestate
