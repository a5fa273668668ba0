/-!
# States of a value whose raw pointer escaped its owner

The states are totally ordered by the information they carry, and joining two observations of the
same value keeps the more informative one. The least informative state is `top`: it is what the
join of no observations gives.

## Contents

- §1 `MemoryError`: the two misuses that are reported
- §2 `State`, its declaration order and its texts
- §3 The information order and the join
-/

namespace Typestate

/-! ## §1 Memory errors -/

/-- The memory-safety misuses that the analysis reports. -/
inductive MemoryError where
  /-- A value was touched after its release. -/
  | useAfterFree
  /-- A value was released twice. -/
  | doubleFree
  deriving DecidableEq, Inhabited

namespace MemoryError

/-- Every kind of misuse, in declaration order. -/
def all : List MemoryError := [useAfterFree, doubleFree]

/-- The place of a kind in the declaration order. -/
def ordinal : MemoryError → Nat
  | useAfterFree => 0
  | doubleFree => 1

instance : Ord MemoryError := ⟨fun a b => compare a.ordinal b.ordinal⟩

instance : Std.TransOrd MemoryError :=
  inferInstanceAs (Std.TransCmp (compareOn ordinal))

instance : Std.LawfulEqOrd MemoryError where
  compare_self := Std.compare_self (α := Nat)
  eq_of_compare {a b} h := by
    revert h
    cases a <;> cases b <;> decide

/-- The kind as written for a reader. -/
def label : MemoryError → String
  | useAfterFree => "use-after-free"
  | doubleFree => "double-free"

/-- The kind as written in data. -/
def name : MemoryError → String
  | useAfterFree => "use_after_free"
  | doubleFree => "double_free"

end MemoryError

/-! ## §2 States -/

/-- What is known about a value at one program point. -/
inductive State where
  /-- The least informative of the states that observations start from. -/
  | bottom
  /-- Tracked, but nothing has happened to it yet. -/
  | uninit
  /-- A raw pointer was taken from the value. -/
  | rawReferenced
  /-- The value was built from an extracted raw pointer. -/
  | rawWrapped
  /-- Read or otherwise consumed without being released. -/
  | used
  /-- Released. -/
  | dropped
  /-- Touched after release. -/
  | useAfterFree
  /-- Released twice. -/
  | doubleFree
  /-- An ill-typed sequence of operations, which is noise and not a finding. -/
  | violation
  /-- No observation at all: the identity of the join. -/
  | top
  deriving DecidableEq, Inhabited

namespace State

/-- Every state, in declaration order. -/
def all : List State :=
  [bottom, uninit, rawReferenced, rawWrapped, used, dropped, useAfterFree, doubleFree, violation, top]

/-- The place of a state in the declaration order. -/
def ordinal : State → Nat
  | bottom => 0
  | uninit => 1
  | rawReferenced => 2
  | rawWrapped => 3
  | used => 4
  | dropped => 5
  | useAfterFree => 6
  | doubleFree => 7
  | violation => 8
  | top => 9

/-- Sets of states are listed in declaration order. -/
instance : Ord State := ⟨fun a b => compare a.ordinal b.ordinal⟩

instance : Std.TransOrd State :=
  inferInstanceAs (Std.TransCmp (compareOn ordinal))

/-- Distinct states have distinct places. -/
theorem ordinal_inj {a b : State} (h : a.ordinal = b.ordinal) : a = b := by
  cases a <;> cases b <;> first | rfl | cases h

instance : Std.LawfulEqOrd State where
  compare_self := Std.compare_self (α := Nat)
  eq_of_compare h := ordinal_inj (Std.compare_eq_iff_eq.1 h)

/-- The state as written for a reader. -/
def label : State → String
  | bottom => "BOTTOM"
  | uninit => "UNINIT"
  | rawReferenced => "RAW_REFERENCED"
  | rawWrapped => "RAW_WRAPPED"
  | used => "USED"
  | dropped => "DROPPED"
  | useAfterFree => "UAF_ERROR"
  | doubleFree => "DF_ERROR"
  | violation => "TS_ERROR"
  | top => "TOP"

/-- The state as written in data. -/
def name : State → String
  | bottom => "bottom"
  | uninit => "uninit"
  | rawReferenced => "raw_referenced"
  | rawWrapped => "raw_wrapped"
  | used => "used"
  | dropped => "dropped"
  | useAfterFree => "use_after_free_error"
  | doubleFree => "double_free_error"
  | violation => "typestate_violation"
  | top => "top"

/-- The state with the given name. -/
def ofName? (name : String) : Option State := all.find? (fun s => s.name == name)

/-- The state a value enters when its raw pointer is first extracted. -/
def start : State := rawReferenced

/-- The state that marks an ill-typed sequence. -/
def error : State := violation

/-- The reportable misuse that a state stands for. -/
def memoryError? : State → Option MemoryError
  | useAfterFree => some .useAfterFree
  | doubleFree => some .doubleFree
  | _ => none

/-- Whether a state stands for a reportable misuse. -/
def isMemoryError (s : State) : Bool := s.memoryError?.isSome

/-- Whether no operation leads out of the state: the two sentinels and the three error states. -/
def isAbsorbing : State → Bool
  | bottom | top | useAfterFree | doubleFree | violation => true
  | _ => false

/-! ## §3 Information order and join -/

/-- The amount of information in a state: `top` carries least, then declaration order. -/
def information : State → Nat
  | top => 0
  | bottom => 1
  | uninit => 2
  | rawReferenced => 3
  | rawWrapped => 4
  | used => 5
  | dropped => 6
  | useAfterFree => 7
  | doubleFree => 8
  | violation => 9

/-- Distinct states carry different amounts of information. -/
theorem information_inj {a b : State} (h : a.information = b.information) : a = b := by
  cases a <;> cases b <;> first | rfl | cases h

/-- `a ≤ b` when `b` carries at least the information of `a`. -/
instance : LE State := ⟨fun a b => a.information ≤ b.information⟩

instance (a b : State) : Decidable (a ≤ b) := Nat.decLe _ _

theorem le_iff {a b : State} : a ≤ b ↔ a.information ≤ b.information := Iff.rfl

/-- The more informative of two states. -/
def join (a b : State) : State := if b.information ≤ a.information then a else b

/-- The join of a list of states; of none it is `top`. -/
def joinAll (states : List State) : State := states.foldl join top

theorem le_refl (a : State) : a ≤ a := Nat.le_refl _

theorem le_trans {a b c : State} (h : a ≤ b) (h' : b ≤ c) : a ≤ c := Nat.le_trans h h'

theorem le_antisymm {a b : State} (h : a ≤ b) (h' : b ≤ a) : a = b :=
  information_inj (Nat.le_antisymm h h')

theorem information_join (a b : State) :
    (a.join b).information = max a.information b.information := by
  unfold join
  split <;> omega

theorem le_join_left (a b : State) : a ≤ a.join b := by
  rw [le_iff, information_join]
  exact Nat.le_max_left _ _

theorem le_join_right (a b : State) : b ≤ a.join b := by
  rw [le_iff, information_join]
  exact Nat.le_max_right _ _

/-- The join is the least state above both. -/
theorem join_le {a b c : State} (ha : a ≤ c) (hb : b ≤ c) : a.join b ≤ c := by
  rw [le_iff, information_join]
  exact Nat.max_le.2 ⟨ha, hb⟩

theorem join_comm (a b : State) : a.join b = b.join a := by
  apply information_inj
  rw [information_join, information_join, Nat.max_comm]

theorem join_assoc (a b c : State) : (a.join b).join c = a.join (b.join c) := by
  apply information_inj
  simp only [information_join, Nat.max_assoc]

@[simp]
theorem join_self (a : State) : a.join a = a := by
  apply information_inj
  rw [information_join, Nat.max_self]

@[simp]
theorem top_join (a : State) : top.join a = a := by
  apply information_inj
  rw [information_join]
  exact Nat.zero_max _

end State

end Typestate
