import Typestate.FiniteMap

/-!
# Programs

A program is a list of functions. A function with blocks has a body; one without blocks is a
declaration whose body lies outside the program. A body starts in its first block, and control goes
from the end of a block to any of its successors.

## Contents

- §1 Identities of values and instructions
- §2 Operations, instructions, blocks, functions, programs
- §3 Views: bodies, call targets, instructions in program order, labels
-/

namespace Typestate

/-! ## §1 Identities -/

/-- The identity of a program value. Values are never merged by name. -/
structure ValueId where
  /-- The number that tells it apart. -/
  index : UInt32
  deriving DecidableEq, Inhabited

/-- The identity of an instruction, meant to be unique across the program. -/
structure InstId where
  /-- The number that tells it apart. -/
  index : UInt32
  deriving DecidableEq, Inhabited

namespace ValueId

instance : Ord ValueId := ⟨fun a b => compare a.index b.index⟩

instance : Std.TransOrd ValueId := inferInstanceAs (Std.TransCmp (compareOn index))

instance : Std.LawfulEqOrd ValueId where
  compare_self := Std.compare_self (α := UInt32)
  eq_of_compare {a b} h := by
    cases a; cases b
    exact congrArg mk (Std.compare_eq_iff_eq.1 h)

/-- The text of a value without a name. -/
def label (v : ValueId) : String := "%" ++ toString v.index.toNat

end ValueId

namespace InstId

instance : Ord InstId := ⟨fun a b => compare a.index b.index⟩

instance : Std.TransOrd InstId := inferInstanceAs (Std.TransCmp (compareOn index))

instance : Std.LawfulEqOrd InstId where
  compare_self := Std.compare_self (α := UInt32)
  eq_of_compare {a b} h := by
    cases a; cases b
    exact congrArg mk (Std.compare_eq_iff_eq.1 h)

/-- The text of an instruction identity. -/
def label (i : InstId) : String := "#" ++ toString i.index.toNat

end InstId

/-! ## §2 Code -/

/-- What an instruction does. -/
inductive Op where
  /-- Calls `callee` with `args` and stores what it returns in `result`. -/
  | call (callee : String) (args : List ValueId) (result : Option ValueId)
  /-- Leaves the function, returning `value`. -/
  | ret (value : Option ValueId)
  /-- Anything else; the text is only for a reader. -/
  | other (text : String)
  deriving DecidableEq, Inhabited

/-- One instruction. -/
structure Instruction where
  id : InstId
  op : Op
  deriving DecidableEq, Inhabited

/-- A straight run of instructions and the blocks control may go to from its end. -/
structure Block where
  instructions : List Instruction
  /-- Indices into the blocks of the enclosing function. -/
  successors : List UInt64
  deriving DecidableEq, Inhabited

/-- A definition, or a declaration when there are no blocks. -/
structure Function where
  name : String
  params : List ValueId
  /-- The position of a hidden argument through which the result is passed back. -/
  outputArg : Option UInt64
  blocks : List Block
  deriving DecidableEq, Inhabited

/-- A whole program. -/
structure Program where
  functions : List Function
  /-- Names of values, for a reader only. -/
  valueNames : FiniteMap ValueId String
  deriving DecidableEq, Inhabited

/-! ## §3 Views -/

/-- The call target, when the instruction is a call. -/
def Instruction.callee? (i : Instruction) : Option String :=
  match i.op with
  | .call callee _ _ => some callee
  | _ => none

/-- Whether the instruction leaves the function. -/
def Instruction.isReturn (i : Instruction) : Bool :=
  match i.op with
  | .ret _ => true
  | _ => false

/-- Whether the function has a body. -/
def Function.hasBody (f : Function) : Bool := !f.blocks.isEmpty

/-- The instructions of a function, block by block. -/
def Function.instructions (f : Function) : List Instruction := f.blocks.flatMap (·.instructions)

namespace Program

/-- The program without functions. -/
def empty : Program := ⟨[], .empty⟩

/-- The first function of the given name. -/
def function? (p : Program) (name : String) : Option Function :=
  p.functions.find? (fun f => f.name == name)

/-- The body that a call to `name` enters: the first function of that name that has one. -/
def body? (p : Program) (name : String) : Option Function :=
  p.functions.find? (fun f => f.name == name && f.hasBody)

/-- Every instruction with its enclosing function, in program order. -/
def instructions (p : Program) : List (Function × Instruction) :=
  p.functions.flatMap (fun f => f.instructions.map (fun i => (f, i)))

/-- The text of a value: its name if it has one, else its number. -/
def valueLabel (p : Program) (v : ValueId) : String :=
  match p.valueNames.get? v with
  | some name => "%" ++ name
  | none => v.label

end Program

end Typestate
