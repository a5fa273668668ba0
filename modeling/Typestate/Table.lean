import Typestate.Program.Basic
import Typestate.State

/-!
# State tables

A table holds, for pairs of an instruction and a value, the state of the value on entry to the
instruction, joined over everything that reaches it. Tables are finite maps in canonical form, so
two tables with the same cells are equal and the cells come in order of instruction, then value.

## Contents

- §1 `Facts`: states of values at one point
- §2 `Table`: states of values at all points
-/

namespace Typestate

/-! ## §1 Facts -/

/-- The states of the tracked values at one program point. -/
abbrev Facts := FiniteMap ValueId State

namespace Facts

/-- Joins a state into what is known of a value. -/
def joinAt (facts : Facts) (v : ValueId) (s : State) : Facts :=
  FiniteMap.alter facts v fun
    | none => s
    | some old => old.join s

/-- Joins all of `more` into `facts`. -/
def join (facts more : Facts) : Facts := FiniteMap.mergeWith State.join facts more

end Facts

/-- The state joined into an optional one. -/
def joinOption (old : Option State) (s : State) : Option State :=
  match old with
  | none => some s
  | some old => some (old.join s)

/-! ## §2 Tables -/

/-- A place in a table. -/
structure Cell where
  inst : InstId
  value : ValueId
  deriving DecidableEq, Inhabited

namespace Cell

instance : Ord Cell := ⟨compareLex (compareOn inst) (compareOn value)⟩

instance : Std.TransOrd Cell :=
  inferInstanceAs (Std.TransCmp (compareLex (compareOn inst) (compareOn value)))

instance : Std.LawfulEqOrd Cell where
  compare_self {a} := by
    show (compare a.inst a.inst).then (compare a.value a.value) = .eq
    simp
  eq_of_compare {a b} h := by
    have h : (compare a.inst b.inst).then (compare a.value b.value) = .eq := h
    rw [Ordering.then_eq_eq] at h
    cases a; cases b
    simp_all

end Cell

/-- The joined states of values at instructions. -/
structure Table where
  states : FiniteMap Cell State
  deriving DecidableEq, Inhabited

namespace Table

/-- The table without cells. -/
def empty : Table := ⟨.empty⟩

/-- Sets a cell. -/
def insert (t : Table) (inst : InstId) (v : ValueId) (s : State) : Table :=
  ⟨t.states.insert ⟨inst, v⟩ s⟩

/-- Joins a state into a cell. -/
def join (t : Table) (inst : InstId) (v : ValueId) (s : State) : Table :=
  ⟨t.states.alter ⟨inst, v⟩ fun
    | none => s
    | some old => old.join s⟩

/-- Joins a state into a cell, and says whether that changed the table. -/
def joinCell (t : Table) (inst : InstId) (v : ValueId) (s : State) : Table × Bool :=
  let joined := t.join inst v s
  (joined, decide (joined ≠ t))

/-- Joins the facts at an instruction into its cells. -/
def joinRow (t : Table) (inst : InstId) (facts : Facts) : Table :=
  facts.toList.foldl (fun t e => t.join inst e.1 e.2) t

/-- The state in a cell. -/
def get? (t : Table) (inst : InstId) (v : ValueId) : Option State := t.states.get? ⟨inst, v⟩

/-- Two tables with the same cells are the same table. -/
theorem ext_get? {t t' : Table} (h : ∀ inst v, t.get? inst v = t'.get? inst v) : t = t' := by
  cases t
  cases t'
  congr 1
  exact FiniteMap.ext_get? fun c => h c.inst c.value

/-- The cells at an instruction. -/
def row (t : Table) (inst : InstId) : List (ValueId × State) :=
  (t.states.toList.filter (fun e => e.1.inst = inst)).map (fun e => (e.1.value, e.2))

/-- All cells, by instruction, then by value. -/
def cells (t : Table) : List (InstId × ValueId × State) :=
  t.states.toList.map (fun e => (e.1.inst, e.1.value, e.2))

/-- The cells of the values that satisfy `keep`. -/
def retainValues (keep : ValueId → Bool) (t : Table) : Table :=
  ⟨t.states.filter (fun c _ => keep c.value)⟩

/-- The number of cells. -/
def size (t : Table) : Nat := t.states.size

/-- Whether there is no cell. -/
def isEmpty (t : Table) : Bool := t.states.isEmpty

end Table

end Typestate
