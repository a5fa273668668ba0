import Mathlib.Algebra.Order.Ring.Nat
import Typestate.Proofs.Bindings
import Typestate.Table

/-!
# Tables row by row

A table can be kept as one map of cells or as a map from instructions to rows, where a row maps values
to states. Both hold the same partial map, but rows leave room for a second representation of it: a
row without values says nothing and still counts as a binding of the outer map. No operation leaves
such a row behind, and that is what the number of cells, emptiness and equality rest on.

## Contents

- §1 Maps with some bindings dropped and the others rewritten
- §2 `RowTable` and its operations
- §3 The look-up view
- §4 Rows are never empty
-/

namespace Typestate

/-! ## §1 Rewriting bindings -/

namespace FiniteMap

variable {κ α β : Type} [Ord κ]

/-- Each binding rewritten by `f`, or dropped. -/
def filterMap (f : κ → α → Option β) (m : FiniteMap κ α) : FiniteMap κ β where
  entries := m.entries.filterMap fun e => (f e.1 e.2).map (Prod.mk e.1)
  ascending := by
    refine List.Pairwise.filterMap _ (fun a a' hlt b hb b' hb' => ?_) m.ascending
    obtain ⟨_, _, rfl⟩ := Option.map_eq_some_iff.1 hb
    obtain ⟨_, _, rfl⟩ := Option.map_eq_some_iff.1 hb'
    exact hlt

theorem get?_filterMap [Std.LawfulEqOrd κ] (f : κ → α → Option β) (m : FiniteMap κ α) (k : κ) :
    (m.filterMap f).get? k = (m.get? k).bind (f k) := by
  apply Option.ext
  intro b
  rw [← mem_toList_iff, Option.bind_eq_some_iff]
  simp only [toList, filterMap, List.mem_filterMap, Option.map_eq_some_iff, Prod.mk.injEq]
  constructor
  · rintro ⟨⟨l, a⟩, hmem, _, hf, rfl, rfl⟩
    exact ⟨a, mem_toList_iff.1 hmem, hf⟩
  · rintro ⟨a, hget, hf⟩
    exact ⟨(k, a), mem_toList_iff.2 hget, b, hf, rfl, rfl⟩

end FiniteMap

/-! ## §2 Rows -/

/-- One listed cell comes before another: by instruction, then by value. -/
def Precedes (a b : InstId × ValueId × State) : Prop :=
  compare a.1 b.1 = .lt ∨ a.1 = b.1 ∧ compare a.2.1 b.2.1 = .lt

instance : Std.Irrefl Precedes where
  irrefl a h := by
    rcases h with h | ⟨-, h⟩ <;> simp at h

/-- Two cells never precede each other. -/
theorem Precedes.asymm {a b : InstId × ValueId × State} (h : Precedes a b) : ¬ Precedes b a := by
  rintro (h' | ⟨hinst, h'⟩)
  · rcases h with h | ⟨hinst, -⟩
    · exact absurd (Std.OrientedCmp.gt_of_lt h') (by simp [h])
    · simp [hinst] at h'
  · rcases h with h | ⟨-, h⟩
    · simp [hinst] at h
    · exact absurd (Std.OrientedCmp.gt_of_lt h') (by simp [h])

instance : Std.Antisymm Precedes where
  antisymm _ _ h h' := absurd h' h.asymm

/-- In a listing that ascends, the cells at one instruction ascend by value. -/
theorem ascending_part {cells : List (InstId × ValueId × State)} (h : cells.Pairwise Precedes)
    (i : InstId) : Ascending ((cells.filter (·.1 = i)).map (·.2)) := by
  unfold Ascending
  rw [List.pairwise_map]
  refine (h.filter _).imp_of_mem fun {a b} ha hb hlt => ?_
  have hsame : a.1 = b.1 := by
    rw [of_decide_eq_true (List.mem_filter.1 ha).2, of_decide_eq_true (List.mem_filter.1 hb).2]
  rcases hlt with hlt | ⟨-, hlt⟩
  · simp [hsame] at hlt
  · exact hlt

/-- The joined states of values, by instruction and then by value. -/
structure RowTable where
  rows : FiniteMap InstId Facts

namespace RowTable

/-- The table without rows. -/
def empty : RowTable := ⟨.empty⟩

/-- Sets a cell; a row that is not there yet is added first. -/
def insert (t : RowTable) (i : InstId) (v : ValueId) (s : State) : RowTable :=
  ⟨t.rows.alter i fun row => (row.getD .empty).insert v s⟩

/-- The state in a cell. -/
def get? (t : RowTable) (i : InstId) (v : ValueId) : Option State :=
  (t.rows.get? i).bind fun row => row.get? v

/-- Joins a state into a cell, and says whether the cell is new or its state another one. -/
def joinCell (t : RowTable) (i : InstId) (v : ValueId) (s : State) : RowTable × Bool :=
  match t.get? i v with
  | some existing =>
    let joined := existing.join s
    (t.insert i v joined, decide (joined ≠ existing))
  | none => (t.insert i v s, true)

/-- The cells at an instruction. -/
def row (t : RowTable) (i : InstId) : List (ValueId × State) :=
  match t.rows.get? i with
  | some row => row.toList
  | none => []

/-- All cells, row after row. -/
def cells (t : RowTable) : List (InstId × ValueId × State) :=
  t.rows.toList.flatMap fun e => e.2.toList.map (Prod.mk e.1)

/-- The part of a row that `keep` accepts; nothing if that is an empty row. -/
def keptRow (keep : ValueId → Bool) (row : Facts) : Option Facts :=
  let kept := FiniteMap.filter (fun v _ => keep v) row
  if kept.isEmpty then none else some kept

/-- The cells of the values that satisfy `keep`, without the rows that this empties. -/
def retainValues (keep : ValueId → Bool) (t : RowTable) : RowTable :=
  ⟨t.rows.filterMap fun _ row => keptRow keep row⟩

/-- The number of cells, summed over the rows. -/
def size (t : RowTable) : Nat := (t.rows.values.map FiniteMap.size).sum

/-- Whether there is no row. -/
def isEmpty (t : RowTable) : Bool := t.rows.isEmpty

/-! ## §3 The look-up view -/

theorem get?_insert (t : RowTable) (i j : InstId) (v w : ValueId) (s : State) :
    (t.insert i v s).get? j w = if j = i ∧ w = v then some s else t.get? j w := by
  unfold insert get?
  rw [FiniteMap.get?_alter]
  -- only the row of the instruction is touched, and in it only the value
  by_cases hj : j = i
  · subst hj
    by_cases hw : w = v
    · simp [hw]
    · cases h : t.rows.get? j <;> simp [hw]
  · simp [hj]

/-- Joining into a cell writes the joined state there. -/
theorem joinCell_fst (t : RowTable) (i : InstId) (v : ValueId) (s : State) :
    ∃ joined, joinOption (t.get? i v) s = some joined ∧
      (t.joinCell i v s).1 = t.insert i v joined := by
  unfold joinCell joinOption
  cases t.get? i v with
  | none => exact ⟨s, rfl, rfl⟩
  | some existing => exact ⟨existing.join s, rfl, rfl⟩

/-- A join reports a change of the look-up, a new cell included. -/
theorem joinCell_snd (t : RowTable) (i : InstId) (v : ValueId) (s : State) :
    (t.joinCell i v s).2 = true ↔ joinOption (t.get? i v) s ≠ t.get? i v := by
  unfold joinCell joinOption
  cases t.get? i v with
  | none => simp
  | some existing => simp

theorem get?_joinCell (t : RowTable) (i j : InstId) (v w : ValueId) (s : State) :
    (t.joinCell i v s).1.get? j w =
      if j = i ∧ w = v then joinOption (t.get? i v) s else t.get? j w := by
  obtain ⟨joined, hjoined, heq⟩ := t.joinCell_fst i v s
  rw [heq, get?_insert, hjoined]

theorem get?_keptRow (keep : ValueId → Bool) (row : Facts) (v : ValueId) :
    (keptRow keep row).bind (fun row => row.get? v) = if keep v then row.get? v else none := by
  have hkept := FiniteMap.get?_filter_keys keep row v
  unfold keptRow
  by_cases hempty : (FiniteMap.filter (fun v _ => keep v) row).isEmpty = true
  · -- a dropped row answers every look-up with nothing, as the empty row in its place would
    rw [FiniteMap.eq_empty_of_isEmpty hempty] at hkept
    rw [if_pos hempty, ← hkept]
    rfl
  · rw [if_neg hempty, ← hkept]
    rfl

/-- Rows that are dropped had nothing to keep. -/
theorem get?_retainValues (keep : ValueId → Bool) (t : RowTable) (i : InstId) (v : ValueId) :
    (t.retainValues keep).get? i v = if keep v then t.get? i v else none := by
  unfold retainValues get?
  rw [FiniteMap.get?_filterMap]
  cases t.rows.get? i with
  | none => simp
  | some row => exact get?_keptRow keep row v

theorem mem_row_iff {t : RowTable} {i : InstId} {v : ValueId} {s : State} :
    (v, s) ∈ t.row i ↔ t.get? i v = some s := by
  unfold row get?
  cases t.rows.get? i with
  | none => simp
  | some row => exact FiniteMap.mem_toList_iff

theorem ascending_row (t : RowTable) (i : InstId) : Ascending (t.row i) := by
  unfold row
  cases t.rows.get? i with
  | none => exact List.Pairwise.nil
  | some row => exact row.ascending

theorem mem_cells_iff {t : RowTable} {i : InstId} {v : ValueId} {s : State} :
    (i, v, s) ∈ t.cells ↔ t.get? i v = some s := by
  unfold cells get?
  simp only [List.mem_flatMap, List.mem_map, Prod.mk.injEq, Option.bind_eq_some_iff]
  constructor
  · rintro ⟨⟨j, row⟩, hrow, c, hc, rfl, rfl⟩
    exact ⟨row, FiniteMap.mem_toList_iff.1 hrow, FiniteMap.mem_toList_iff.1 hc⟩
  · rintro ⟨row, hrow, hv⟩
    exact ⟨(i, row), FiniteMap.mem_toList_iff.2 hrow, (v, s), FiniteMap.mem_toList_iff.2 hv, rfl, rfl⟩

/-- The listing goes through the rows in order, and through each row in order. -/
theorem pairwise_cells (t : RowTable) : t.cells.Pairwise Precedes := by
  unfold cells
  rw [List.pairwise_flatMap]
  constructor
  · intro e _
    rw [List.pairwise_map]
    exact e.2.ascending.imp fun hlt => Or.inr ⟨rfl, hlt⟩
  · refine t.rows.ascending.imp fun hlt c hc c' hc' => ?_
    obtain ⟨_, _, rfl⟩ := List.mem_map.1 hc
    obtain ⟨_, _, rfl⟩ := List.mem_map.1 hc'
    exact Or.inl hlt

/-- The sum over the rows counts the listed cells. -/
theorem size_eq_length_cells (t : RowTable) : t.size = t.cells.length := by
  unfold size cells FiniteMap.values
  rw [List.length_flatMap, List.map_map]
  congr 1
  exact List.map_congr_left fun e _ => (List.length_map ..).symm

/-! ## §4 No empty row -/

/-- Every row of the table has a cell. -/
def NoEmptyRow (t : RowTable) : Prop := ∀ i row, t.rows.get? i = some row → row.isEmpty = false

theorem noEmptyRow_empty : NoEmptyRow empty := fun i row h => by cases h

theorem NoEmptyRow.insert {t : RowTable} (h : t.NoEmptyRow) (i : InstId) (v : ValueId) (s : State) :
    (t.insert i v s).NoEmptyRow := by
  intro j row hrow
  unfold RowTable.insert at hrow
  rw [FiniteMap.get?_alter] at hrow
  split at hrow
  · cases hrow
    exact FiniteMap.isEmpty_insert _ v s
  · exact h j row hrow

theorem NoEmptyRow.joinCell {t : RowTable} (h : t.NoEmptyRow) (i : InstId) (v : ValueId) (s : State) :
    (t.joinCell i v s).1.NoEmptyRow := by
  obtain ⟨joined, -, heq⟩ := t.joinCell_fst i v s
  rw [heq]
  exact h.insert i v joined

/-- A restricted table has no empty row, whatever it was restricted from. -/
theorem noEmptyRow_retainValues (keep : ValueId → Bool) (t : RowTable) :
    (t.retainValues keep).NoEmptyRow := by
  intro i row hrow
  unfold retainValues at hrow
  rw [FiniteMap.get?_filterMap] at hrow
  obtain ⟨old, -, hkept⟩ := Option.bind_eq_some_iff.1 hrow
  simp only [keptRow] at hkept
  split at hkept
  · cases hkept
  · next hempty =>
    cases hkept
    exact Bool.eq_false_iff.2 hempty

/-- Every row shows in a look-up. -/
theorem NoEmptyRow.exists_get? {t : RowTable} (h : t.NoEmptyRow) {i : InstId} {row : Facts}
    (hrow : t.rows.get? i = some row) : ∃ v s, t.get? i v = some s := by
  have hne : row.toList ≠ [] := List.isEmpty_eq_false_iff.1 (h i row hrow)
  obtain ⟨⟨v, s⟩, hmem⟩ := List.exists_mem_of_ne_nil _ hne
  refine ⟨v, s, ?_⟩
  rw [get?, hrow]
  exact FiniteMap.mem_toList_iff.1 hmem

theorem NoEmptyRow.isEmpty_eq_true_iff {t : RowTable} (h : t.NoEmptyRow) :
    t.isEmpty = true ↔ t.cells = [] := by
  unfold isEmpty
  rw [FiniteMap.isEmpty_eq_true_iff]
  constructor
  · intro hrows
    simp [cells, hrows]
  · intro hcells
    -- a row would show in the listing
    refine List.eq_nil_iff_forall_not_mem.2 fun ⟨i, row⟩ hmem => ?_
    obtain ⟨v, s, hv⟩ := h.exists_get? (FiniteMap.mem_toList_iff.1 hmem)
    have := mem_cells_iff.2 hv
    rw [hcells] at this
    cases this

/-- A row of one table is a row of every table with the same look-ups. -/
theorem NoEmptyRow.get?_rows {t t' : RowTable} (h : t.NoEmptyRow)
    (hget : ∀ i v, t.get? i v = t'.get? i v) {i : InstId} {row : Facts}
    (hrow : t.rows.get? i = some row) : t'.rows.get? i = some row := by
  obtain ⟨v, s, hv⟩ := h.exists_get? hrow
  rw [hget] at hv
  obtain ⟨row', hrow', -⟩ := Option.bind_eq_some_iff.1 hv
  -- one cell tells that the other table has the row, all look-ups tell that it is the same
  have hsame : row = row' := FiniteMap.ext_get? fun w => by
    have hw := hget i w
    rw [get?, get?, hrow, hrow'] at hw
    exact hw
  rw [hsame]
  exact hrow'

/-- **Canonical form.** Tables without empty rows and with the same cells are the same table. -/
theorem NoEmptyRow.ext_get? {t t' : RowTable} (h : t.NoEmptyRow) (h' : t'.NoEmptyRow)
    (hget : ∀ i v, t.get? i v = t'.get? i v) : t = t' := by
  have hrows : t.rows = t'.rows := FiniteMap.ext_get? fun i => Option.ext fun row =>
    ⟨h.get?_rows hget, h'.get?_rows fun i v => (hget i v).symm⟩
  cases t
  cases t'
  exact congrArg mk hrows

end RowTable

end Typestate
