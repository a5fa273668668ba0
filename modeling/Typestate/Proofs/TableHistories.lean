import Mathlib.Data.List.Sort
import Mathlib.Data.Set.Card
import Typestate.Proofs.Filtering
import Typestate.Proofs.RowTable

/-!
# What a table holds after its edits

A table is edited by setting a cell, by joining into a cell and by keeping the cells of some values.
Whatever it is made of, it should be a finite map and nothing more: what can be read off it is the
partial map that the same edits leave, the listing is that map in order, and two tables that answer
alike are the same. Both representations of a table, by cells and by rows, have these properties.

## Contents

- §1 Edits and the partial map they leave
- §2 `Store`: the operations of a table, and what a lawful one owes for a single edit
- §3 Joins alone
- §4 From one edit to a history
- §5 Tables by cells and tables by rows
-/

namespace Typestate

/-! ## §1 Edits -/

/-- One change of a table. -/
inductive Edit where
  /-- Sets a cell. -/
  | insert (i : InstId) (v : ValueId) (s : State)
  /-- Joins a state into a cell. -/
  | join (i : InstId) (v : ValueId) (s : State)
  /-- Keeps the cells of the values that satisfy `keep`. -/
  | retain (keep : ValueId → Bool)

/-- What a table holds: the states of some values at some instructions. -/
abbrev Contents := InstId → ValueId → Option State

namespace Contents

/-- What one edit does to a partial map. -/
def apply (f : Contents) : Edit → Contents
  | .insert i v s => fun j w => if j = i ∧ w = v then some s else f j w
  | .join i v s => fun j w => if j = i ∧ w = v then joinOption (f i v) s else f j w
  | .retain keep => fun j w => if keep w then f j w else none

/-- The partial map that the edits leave, starting from nothing. -/
def after (edits : List Edit) : Contents := edits.foldl apply fun _ _ => none

end Contents

/-! ## §2 Stores -/

/-- The operations of a table that is made of `T`. -/
structure Store (T : Type) where
  empty : T
  insert : T → InstId → ValueId → State → T
  joinCell : T → InstId → ValueId → State → T × Bool
  retainValues : (ValueId → Bool) → T → T
  get? : T → InstId → ValueId → Option State
  row : T → InstId → List (ValueId × State)
  cells : T → List (InstId × ValueId × State)
  size : T → Nat
  isEmpty : T → Bool

namespace Store

variable {T : Type} (S : Store T)

/-- One edit of a table. -/
def apply (t : T) : Edit → T
  | .insert i v s => S.insert t i v s
  | .join i v s => (S.joinCell t i v s).1
  | .retain keep => S.retainValues keep t

/-- The table after the edits, starting from the empty one. -/
def after (edits : List Edit) : T := edits.foldl S.apply S.empty

/--
What one operation owes, on tables that satisfy `Valid`. A history of edits starts in a valid table
and stays in valid tables.
-/
structure Lawful (Valid : T → Prop) : Prop where
  valid_empty : Valid S.empty
  valid_apply : ∀ {t : T}, Valid t → ∀ e, Valid (S.apply t e)
  get?_empty : ∀ i v, S.get? S.empty i v = none
  get?_apply : ∀ (t : T) (e : Edit) (j : InstId) (w : ValueId),
    S.get? (S.apply t e) j w = Contents.apply (S.get? t) e j w
  changed : ∀ (t : T) (i : InstId) (v : ValueId) (s : State),
    (S.joinCell t i v s).2 = true ↔ joinOption (S.get? t i v) s ≠ S.get? t i v
  mem_cells : ∀ {t : T} {i : InstId} {v : ValueId} {s : State},
    (i, v, s) ∈ S.cells t ↔ S.get? t i v = some s
  cells_ascend : ∀ t : T, (S.cells t).Pairwise Precedes
  mem_row : ∀ {t : T} {i : InstId} {v : ValueId} {s : State},
    (v, s) ∈ S.row t i ↔ S.get? t i v = some s
  row_ascends : ∀ (t : T) (i : InstId), Ascending (S.row t i)
  size_eq : ∀ t : T, S.size t = (S.cells t).length
  isEmpty_iff : ∀ {t : T}, Valid t → (S.isEmpty t = true ↔ S.cells t = [])
  ext : ∀ {t t' : T}, Valid t → Valid t' → (∀ i v, S.get? t i v = S.get? t' i v) → t = t'

end Store

/-! ## §3 Joins alone -/

/-- A state to be joined into a cell. -/
abbrev Joining := InstId × ValueId × State

/-- The edit that joins a state into its cell. -/
def Joining.edit (j : Joining) : Edit := .join j.1 j.2.1 j.2.2

/-- The states that the calls join into one cell, in the order of the calls. -/
def statesInto (calls : List Joining) (i : InstId) (v : ValueId) : List State :=
  (calls.filter fun c => c.1 = i ∧ c.2.1 = v).map (·.2.2)

/-- What the calls make of one cell: nothing without a call, else the join of all the states. -/
def joinedInto (calls : List Joining) (i : InstId) (v : ValueId) : Option State :=
  if statesInto calls i v = [] then none else some (State.joinAll (statesInto calls i v))

/-- The order of the states does not matter for their join. -/
theorem State.joinAll_perm {states states' : List State} (h : states.Perm states') :
    joinAll states = joinAll states' :=
  h.foldl_eq' (fun a _ b _ c => by rw [join_assoc, join_comm a b, ← join_assoc]) top

theorem foldl_joinOption_some (states : List State) (s : State) :
    states.foldl joinOption (some s) = some (states.foldl State.join s) := by
  induction states generalizing s with
  | nil => rfl
  | cons t states ih => exact ih (s.join t)

/-- The states are joined one by one, the first of them to nothing. -/
theorem joinedInto_eq_foldl (calls : List Joining) (i : InstId) (v : ValueId) :
    joinedInto calls i v = (statesInto calls i v).foldl joinOption none := by
  unfold joinedInto
  cases statesInto calls i v with
  | nil => rfl
  | cons s states =>
    -- the join of all states starts with a state that adds nothing to the first
    rw [if_neg (List.cons_ne_nil _ _), List.foldl_cons, joinOption, foldl_joinOption_some,
      State.joinAll, List.foldl_cons, State.top_join]

/-- Nor does the order of the calls matter for a cell. -/
theorem joinedInto_perm {calls calls' : List Joining} (h : calls.Perm calls') (i : InstId)
    (v : ValueId) : joinedInto calls i v = joinedInto calls' i v := by
  have hstates : (statesInto calls i v).Perm (statesInto calls' i v) := (h.filter _).map _
  unfold joinedInto
  rw [State.joinAll_perm hstates]
  simp only [← List.length_eq_zero_iff, hstates.length_eq]

/-- A cell sees the joins into it and no others. -/
theorem Contents.foldl_joins (calls : List Joining) (f : Contents) (i : InstId) (v : ValueId) :
    (calls.map Joining.edit).foldl Contents.apply f i v =
      (statesInto calls i v).foldl joinOption (f i v) := by
  induction calls generalizing f with
  | nil => rfl
  | cons c calls ih =>
    obtain ⟨j, w, s⟩ := c
    rw [List.map_cons, List.foldl_cons, ih]
    -- the first call is either into this cell or does not concern it
    by_cases hcell : j = i ∧ w = v
    · obtain ⟨rfl, rfl⟩ := hcell
      simp [statesInto, Joining.edit, Contents.apply]
    · have hcell' : ¬ (i = j ∧ v = w) := fun h => hcell ⟨h.1.symm, h.2.symm⟩
      simp [statesInto, Joining.edit, Contents.apply, hcell, hcell']

/-! ## §4 Histories -/

namespace Store

variable {T : Type} (S : Store T)

/-- The properties of a finite map in canonical form, after every history of edits. -/
structure Canonical : Prop where
  /-- Look-up gives the partial map that the edits leave. -/
  get?_eq : ∀ edits i v, S.get? (S.after edits) i v = Contents.after edits i v
  /-- The listing has the defined pairs, with their states. -/
  mem_cells : ∀ edits i v s, (i, v, s) ∈ S.cells (S.after edits) ↔ Contents.after edits i v = some s
  /-- The listing ascends strictly, so no pair is listed twice. -/
  cells_ascend : ∀ edits, (S.cells (S.after edits)).Pairwise Precedes
  /-- A row is the part of the listing that belongs to its instruction. -/
  row_eq : ∀ edits i, S.row (S.after edits) i =
    ((S.cells (S.after edits)).filter (·.1 = i)).map (·.2)
  /-- The size is the number of defined pairs, of which there are finitely many. -/
  size_eq : ∀ edits, (S.size (S.after edits) : ℕ∞) =
    {c : InstId × ValueId | (Contents.after edits c.1 c.2).isSome}.encard
  /-- Only a table of size zero is empty. -/
  isEmpty_iff : ∀ edits, S.isEmpty (S.after edits) = true ↔ S.size (S.after edits) = 0
  /-- A join reports exactly the changes of its cell, the creation of the cell included. -/
  changed_iff : ∀ edits i v s, (S.joinCell (S.after edits) i v s).2 = true ↔
    Contents.after (edits ++ [.join i v s]) i v ≠ Contents.after edits i v
  /-- Tables are equal as soon as their look-ups agree. -/
  eq_iff : ∀ edits edits', S.after edits = S.after edits' ↔
    ∀ i v, S.get? (S.after edits) i v = S.get? (S.after edits') i v
  /-- After joins alone a cell is the join of the states joined into it, in any order. -/
  joins_eq : ∀ calls order : List Joining, order.Perm calls → ∀ i v,
    S.get? (S.after (order.map Joining.edit)) i v = joinedInto calls i v

variable {S} {Valid : T → Prop}

namespace Lawful

/-- Every table that edits lead to is valid. -/
theorem valid_after (h : S.Lawful Valid) (edits : List Edit) : Valid (S.after edits) := by
  unfold after
  induction edits using List.reverseRecOn with
  | nil => exact h.valid_empty
  | append_singleton edits e ih =>
    rw [List.foldl_append]
    exact h.valid_apply ih e

/-- Look-up follows the edits one by one. -/
theorem get?_after (h : S.Lawful Valid) (edits : List Edit) (i : InstId) (v : ValueId) :
    S.get? (S.after edits) i v = Contents.after edits i v := by
  -- the whole look-up is followed, as an edit of one cell is told by all of them
  have hfun : S.get? (S.after edits) = Contents.after edits := by
    unfold after Contents.after
    induction edits using List.reverseRecOn with
    | nil => exact funext fun i => funext fun v => h.get?_empty i v
    | append_singleton edits e ih =>
      rw [List.foldl_append, List.foldl_append, ← ih]
      exact funext fun i => funext fun v => h.get?_apply _ e i v
  rw [hfun]

/-- Both sides ascend and have the same members, so they are the same list. -/
theorem row_eq (h : S.Lawful Valid) (t : T) (i : InstId) :
    S.row t i = ((S.cells t).filter (·.1 = i)).map (·.2) := by
  have hpart := ascending_part (h.cells_ascend t) i
  refine FiniteMap.entries_eq_of_find_eq (h.row_ascends t i) hpart fun v => Option.ext fun s => ?_
  rw [FiniteMap.find_eq_some_iff (h.row_ascends t i), FiniteMap.find_eq_some_iff hpart, h.mem_row,
    ← h.mem_cells]
  simp

/-- The defined pairs are the listed ones, and none is listed twice. -/
theorem encard_defined (h : S.Lawful Valid) (t : T) :
    {c : InstId × ValueId | (S.get? t c.1 c.2).isSome}.encard = (S.size t : ℕ∞) := by
  have hnodup : ((S.cells t).map fun c => (c.1, c.2.1)).Nodup := by
    unfold List.Nodup
    rw [List.pairwise_map]
    refine (h.cells_ascend t).imp fun {a b} hlt heq => ?_
    obtain ⟨hinst, hvalue⟩ := Prod.mk.inj heq
    rcases hlt with hlt | ⟨-, hlt⟩
    · simp [hinst] at hlt
    · simp [hvalue] at hlt
  -- a defined pair is the position of a listed cell
  have hset : {c : InstId × ValueId | (S.get? t c.1 c.2).isSome} =
      (((S.cells t).map fun c => (c.1, c.2.1)).toFinset : Set (InstId × ValueId)) := by
    ext ⟨i, v⟩
    simp only [Set.mem_ofPred_eq, Option.isSome_iff_exists, ← h.mem_cells, List.coe_toFinset,
      List.mem_map, Prod.exists, Prod.mk.injEq]
    constructor
    · rintro ⟨s, hs⟩
      exact ⟨i, v, s, hs, rfl, rfl⟩
    · rintro ⟨_, _, s, hs, rfl, rfl⟩
      exact ⟨s, hs⟩
  rw [hset, Set.encard_coe_eq_coe_finsetCard, List.toFinset_card_of_nodup hnodup, List.length_map,
    h.size_eq]

/-- **Histories.** What every single edit owes makes the table canonical after all of them. -/
theorem canonical (h : S.Lawful Valid) : S.Canonical where
  get?_eq := h.get?_after
  mem_cells edits i v s := by rw [h.mem_cells, h.get?_after]
  cells_ascend edits := h.cells_ascend _
  row_eq edits i := h.row_eq _ i
  size_eq edits := by
    rw [← h.encard_defined]
    simp only [h.get?_after]
  isEmpty_iff edits := by
    rw [h.isEmpty_iff (h.valid_after edits), h.size_eq, List.length_eq_zero_iff]
  changed_iff edits i v s := by
    rw [h.changed, h.get?_after]
    simp [Contents.after, Contents.apply]
  eq_iff edits edits' :=
    ⟨fun heq i v => by rw [heq], h.ext (h.valid_after edits) (h.valid_after edits')⟩
  joins_eq calls order hperm i v := by
    rw [h.get?_after, Contents.after, Contents.foldl_joins, ← joinedInto_eq_foldl]
    exact joinedInto_perm hperm i v

end Lawful

/-- Canonical tables list the same cells after the same edits, whatever they are made of. -/
theorem Canonical.cells_eq {T' : Type} {S' : Store T'} (h : S.Canonical) (h' : S'.Canonical)
    (edits : List Edit) : S.cells (S.after edits) = S'.cells (S'.after edits) :=
  (h.cells_ascend edits).eq_of_mem_iff (h'.cells_ascend edits) fun ⟨i, v, s⟩ => by
    rw [h.mem_cells, h'.mem_cells]

end Store

/-! ## §5 Representations -/

namespace Table

/-- The operations of tables by cells. -/
def store : Store Table where
  empty := Table.empty
  insert := Table.insert
  joinCell := Table.joinCell
  retainValues := Table.retainValues
  get? := Table.get?
  row := Table.row
  cells := Table.cells
  size := Table.size
  isEmpty := Table.isEmpty

theorem get?_insert (t : Table) (i j : InstId) (v w : ValueId) (s : State) :
    (t.insert i v s).get? j w = if j = i ∧ w = v then some s else t.get? j w := by
  unfold Table.insert Table.get?
  rw [FiniteMap.get?_insert]
  simp only [Cell.mk.injEq]

theorem get?_joinCell (t : Table) (i j : InstId) (v w : ValueId) (s : State) :
    (t.joinCell i v s).1.get? j w =
      if j = i ∧ w = v then joinOption (t.get? i v) s else t.get? j w := by
  rw [joinOption_eq]
  exact get?_join t i j v w s

/-- Comparing whole tables finds exactly the changes of the joined cell. -/
theorem joinCell_snd (t : Table) (i : InstId) (v : ValueId) (s : State) :
    (t.joinCell i v s).2 = true ↔ joinOption (t.get? i v) s ≠ t.get? i v := by
  rw [Table.joinCell, decide_eq_true_eq]
  -- the other cells stay as they are, so the tables agree as soon as this cell does
  refine not_congr ⟨fun heq => ?_, fun heq => Table.ext_get? fun j w => ?_⟩
  · have hcell := t.get?_joinCell i i v v s
    rw [if_pos ⟨rfl, rfl⟩] at hcell
    rw [← hcell]
    exact congrArg (fun t' => t'.get? i v) heq
  · rw [t.get?_join, ← joinOption_eq, heq]
    split
    · next hcell => rw [hcell.1, hcell.2]
    · rfl

theorem pairwise_cells (t : Table) : t.cells.Pairwise Precedes := by
  unfold Table.cells
  rw [List.pairwise_map]
  -- the keys of cells are compared by instruction first
  refine t.states.ascending.imp fun {a b} hlt => ?_
  rcases Ordering.then_eq_lt.1 hlt with hlt | ⟨heq, hlt⟩
  · exact Or.inl hlt
  · exact Or.inr ⟨Std.compare_eq_iff_eq.1 heq, hlt⟩

/-- A row is the part of the listing at one instruction. -/
theorem ascending_row (t : Table) (i : InstId) : Ascending (t.row i) := by
  have hrow : t.row i = (t.cells.filter (·.1 = i)).map (·.2) := by
    simp only [Table.row, Table.cells, List.filter_map, List.map_map, Function.comp_def]
  rw [hrow]
  exact ascending_part t.pairwise_cells i

/-- Every table by cells is valid. -/
theorem lawful_store : store.Lawful fun _ => True where
  valid_empty := trivial
  valid_apply _ _ := trivial
  get?_empty _ _ := rfl
  get?_apply t e j w := by
    cases e with
    | insert i v s => exact t.get?_insert i j v w s
    | join i v s => exact t.get?_joinCell i j v w s
    | retain keep => exact get?_retainValues keep t j w
  changed := joinCell_snd
  mem_cells := mem_cells_iff
  cells_ascend := pairwise_cells
  mem_row := mem_row_iff
  row_ascends := ascending_row
  size_eq t := (List.length_map ..).symm
  isEmpty_iff {t} _ := by
    show t.states.isEmpty = true ↔ t.cells = []
    rw [FiniteMap.isEmpty_eq_true_iff, Table.cells, List.map_eq_nil_iff]
  ext _ _ hget := Table.ext_get? hget

end Table

namespace RowTable

/-- The operations of tables by rows. -/
def store : Store RowTable where
  empty := RowTable.empty
  insert := RowTable.insert
  joinCell := RowTable.joinCell
  retainValues := RowTable.retainValues
  get? := RowTable.get?
  row := RowTable.row
  cells := RowTable.cells
  size := RowTable.size
  isEmpty := RowTable.isEmpty

/-- A table by rows is valid as long as none of its rows is empty. -/
theorem lawful_store : store.Lawful NoEmptyRow where
  valid_empty := noEmptyRow_empty
  valid_apply {t} h e := by
    cases e with
    | insert i v s => exact h.insert i v s
    | join i v s => exact h.joinCell i v s
    | retain keep => exact noEmptyRow_retainValues keep t
  get?_empty _ _ := rfl
  get?_apply t e j w := by
    cases e with
    | insert i v s => exact t.get?_insert i j v w s
    | join i v s => exact t.get?_joinCell i j v w s
    | retain keep => exact get?_retainValues keep t j w
  changed := joinCell_snd
  mem_cells := mem_cells_iff
  cells_ascend := pairwise_cells
  mem_row := mem_row_iff
  row_ascends := ascending_row
  size_eq := size_eq_length_cells
  isEmpty_iff h := h.isEmpty_eq_true_iff
  ext h h' hget := h.ext_get? h' hget

/-- A row that loses all its cells is gone. -/
example : (store.after [.insert ⟨0⟩ ⟨1⟩ .used, .insert ⟨1⟩ ⟨2⟩ .dropped,
    .retain (· == ⟨1⟩)]).rows.keys = [⟨0⟩] := by decide

end RowTable

/--
**A table is a canonical finite map** after every history of edits, by cells and by rows, and both
representations list the same cells.
-/
theorem Store.canonical_table :
    Table.store.Canonical ∧ RowTable.store.Canonical ∧
      ∀ edits, Table.store.cells (Table.store.after edits) =
        RowTable.store.cells (RowTable.store.after edits) := by
  have hcells := Table.lawful_store.canonical
  have hrows := RowTable.lawful_store.canonical
  exact ⟨hcells, hrows, hcells.cells_eq hrows⟩

end Typestate
