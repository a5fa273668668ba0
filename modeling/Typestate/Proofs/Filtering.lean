import Typestate.Proofs.Observation
import Typestate.Run

/-!
# What a run shows of a value, and what filtering keeps

The state sets of a run are its cells grouped by value. Filtering looks at the whole set of a value at
once: a single violation anywhere takes out every cell of the value, and so does a set in which
nothing ever happened. Here both are said in terms of the cells of the table alone.

## Contents

- §1 `Groups`: state sets as a relation between values and states
- §2 The state sets of a table
- §3 Filtered runs
- §4 Filtering as a projection: what is left is a run again, and has no noise
-/

namespace Typestate

/-! ## §1 Grouping -/

/-- The state sets are the relation `R`, grouped by value: a value is bound when `R` gives it a state,
and it is bound to all states that `R` gives it. -/
structure StateSets.Groups (sets : StateSets) (R : ValueId → State → Prop) : Prop where
  bound : ∀ v, (sets.get? v).isSome = true ↔ ∃ s, R v s
  states : ∀ v set, sets.get? v = some set → ∀ s, set.contains s = true ↔ R v s

namespace StateSets

variable {sets : StateSets} {R S : ValueId → State → Prop}

theorem groups_empty : Groups FiniteMap.empty fun _ _ => False where
  bound := by simp
  states := by simp

theorem Groups.congr (h : sets.Groups R) (hR : ∀ v s, R v s ↔ S v s) : sets.Groups S where
  bound := fun v => (h.bound v).trans (exists_congr (hR v))
  states := fun v set hv s => (h.states v set hv s).trans (hR v s)

theorem Groups.add (h : sets.Groups R) (v : ValueId) (s : State) :
    (sets.add v s).Groups fun w u => (w, u) = (v, s) ∨ R w u := by
  -- only the set of `v` changes, and it had no states when `v` was not bound
  have hold : ∀ u, ((sets.get? v).getD FiniteSet.empty).contains u = true ↔ R v u := by
    intro u
    cases hv : sets.get? v with
    | some set => exact h.states v set hv u
    | none =>
      have hnone : ¬ ∃ s, R v s := by
        rw [← h.bound v, hv]
        simp
      constructor
      · intro hu
        cases hu
      · exact fun hu => absurd ⟨u, hu⟩ hnone
  constructor
  · intro w
    unfold StateSets.add
    rw [FiniteMap.get?_alter]
    by_cases hw : w = v
    · subst hw
      simp only [if_true, Option.isSome_some, true_iff]
      exact ⟨s, Or.inl rfl⟩
    · simp [hw, h.bound w]
  · intro w set hset u
    unfold StateSets.add at hset
    rw [FiniteMap.get?_alter] at hset
    by_cases hw : w = v
    · subst hw
      simp only [if_true, Option.some.injEq] at hset
      rw [← hset, FiniteSet.contains_insert, hold]
      simp
    · rw [if_neg hw] at hset
      simp [hw, h.states w set hset u]

/-- Adding observations one after the other groups all of them. -/
theorem groups_foldl_add (items : List (ValueId × State)) (h : sets.Groups R) :
    (items.foldl (fun sets o => StateSets.add sets o.1 o.2) sets).Groups
      fun v s => (v, s) ∈ items ∨ R v s := by
  induction items generalizing sets R with
  | nil => simpa using h
  | cons item items ih =>
    refine (ih (h.add item.1 item.2)).congr fun v s => ?_
    rw [List.mem_cons, or_assoc, or_left_comm]

theorem groups_of_foldl (items : List (ValueId × State)) :
    Groups (items.foldl (fun sets o => StateSets.add sets o.1 o.2) FiniteMap.empty)
      fun v s => (v, s) ∈ items :=
  (groups_foldl_add items groups_empty).congr fun v s => by simp

theorem Groups.exists_set (h : sets.Groups R) {v : ValueId} {s : State} (hv : R v s) :
    ∃ set, sets.get? v = some set ∧ set.contains s = true := by
  obtain ⟨set, hset⟩ := Option.isSome_iff_exists.1 ((h.bound v).2 ⟨s, hv⟩)
  exact ⟨set, hset, (h.states v set hset s).2 hv⟩

/-- There is only one way to group a relation. -/
theorem Groups.unique {sets' : StateSets} (h : sets.Groups R) (h' : sets'.Groups R) :
    sets = sets' := by
  apply FiniteMap.ext_get?
  intro v
  -- a value is bound exactly if it has a state, and its set is that of its states
  cases hset : sets.get? v with
  | none =>
    have hnone : ¬ ∃ s, R v s := by
      rw [← h.bound v, hset]
      simp
    rw [← h'.bound v, Option.isSome_iff_exists] at hnone
    exact (Option.eq_none_iff_forall_ne_some.2 fun set hv => hnone ⟨set, hv⟩).symm
  | some set =>
    have hsome : (sets'.get? v).isSome = true := by
      rw [h'.bound v, ← h.bound v, hset]
      rfl
    obtain ⟨set', hset'⟩ := Option.isSome_iff_exists.1 hsome
    rw [hset']
    refine congrArg some (FiniteSet.ext_contains fun s => ?_)
    rw [h.states v set hset, h'.states v set' hset']

/-- The states of one value or another are those that the relation gives to some value. -/
theorem Groups.exists_values_iff (h : sets.Groups R) (s : State) :
    (∃ set ∈ sets.values, FiniteMap.contains set s = true) ↔ ∃ v, R v s := by
  constructor
  · rintro ⟨set, hset, hs⟩
    obtain ⟨⟨v, set'⟩, hmem, rfl⟩ := List.mem_map.1 hset
    exact ⟨v, (h.states v _ (FiniteMap.mem_toList_iff.1 hmem) s).1 hs⟩
  · rintro ⟨v, hv⟩
    obtain ⟨set, hset, hs⟩ := h.exists_set hv
    exact ⟨set, List.mem_map.2 ⟨(v, set), FiniteMap.mem_toList_iff.2 hset, rfl⟩, hs⟩

end StateSets

/-! ## §2 Tables -/

namespace Table

/-- Some cell of the table has `v` in state `s`. -/
def Shows (t : Table) (v : ValueId) (s : State) : Prop := ∃ i, t.get? i v = some s

theorem mem_cells_iff {t : Table} {i : InstId} {v : ValueId} {s : State} :
    (i, v, s) ∈ t.cells ↔ t.get? i v = some s := by
  simp only [cells, List.mem_map, Prod.mk.injEq]
  constructor
  · rintro ⟨⟨⟨j, w⟩, u⟩, hmem, rfl, rfl, rfl⟩
    exact FiniteMap.mem_toList_iff.1 hmem
  · intro h
    exact ⟨(⟨i, v⟩, s), FiniteMap.mem_toList_iff.2 h, rfl, rfl, rfl⟩

theorem groups_stateSets (t : Table) : t.stateSets.Groups t.Shows := by
  have hgroups := StateSets.groups_of_foldl (t.cells.map (·.2))
  rw [List.foldl_map] at hgroups
  refine hgroups.congr fun v s => ?_
  simp only [List.mem_map, Shows]
  constructor
  · rintro ⟨⟨i, w, u⟩, hmem, heq⟩
    cases heq
    exact ⟨i, mem_cells_iff.1 hmem⟩
  · rintro ⟨i, hi⟩
    exact ⟨(i, v, s), mem_cells_iff.2 hi, rfl⟩

@[simp]
theorem get?_retainValues (keep : ValueId → Bool) (t : Table) (i : InstId) (v : ValueId) :
    (t.retainValues keep).get? i v = if keep v then t.get? i v else none :=
  FiniteMap.get?_filter_keys (fun c : Cell => keep c.value) t.states ⟨i, v⟩

end Table

/-! ## §3 Filtered runs -/

/-- The cells of `v` say something: none is a violation, and in some of them something has
happened. -/
def Table.Informative (t : Table) (v : ValueId) : Prop :=
  ¬ t.Shows v .violation ∧ ∃ s, t.Shows v s ∧ s ≠ .bottom ∧ s ≠ .uninit

namespace Run

variable {mode : Mode} {t : Table} {v : ValueId}

theorem isNoise_eq_false_iff {set : FiniteSet State} :
    isNoise set = false ↔ ¬ set.contains .violation = true ∧
      ∃ s, set.contains s = true ∧ s ≠ .bottom ∧ s ≠ .uninit := by
  have hall : FiniteSet.all (fun s => s == State.bottom || s == State.uninit) set = false ↔
      ∃ s, set.contains s = true ∧ s ≠ .bottom ∧ s ≠ .uninit := by
    rw [← Bool.not_eq_true, FiniteSet.all_eq_true_iff]
    simp
  simp [isNoise, State.error, hall]

/-- The states of a filtered run are those of the informative values. -/
theorem get?_states_filter (mode : Mode) (t : Table) {set : FiniteSet State} :
    (ofTable mode t).filter.states.get? v = some set ↔
      t.stateSets.get? v = some set ∧ t.Informative v := by
  unfold filter ofTable
  simp only
  rw [FiniteMap.get?_filter_eq_some_iff]
  refine and_congr_right fun hset => ?_
  have hstates := t.groups_stateSets.states v set hset
  rw [Bool.not_eq_true', isNoise_eq_false_iff]
  simp only [hstates]
  rfl

theorem contains_states_filter (mode : Mode) (t : Table) (v : ValueId) :
    (ofTable mode t).filter.states.contains v = true ↔ t.Informative v := by
  unfold FiniteMap.contains
  rw [Option.isSome_iff_exists]
  simp only [get?_states_filter]
  constructor
  · rintro ⟨set, -, h⟩
    exact h
  · intro h
    obtain ⟨s, hs, -⟩ := h.2
    obtain ⟨set, hset, -⟩ := t.groups_stateSets.exists_set hs
    exact ⟨set, hset, h⟩

/-- **Filtering keeps all cells of an informative value** and no others. -/
theorem get?_table_filter (mode : Mode) (t : Table) (i : InstId) (v : ValueId) (s : State) :
    (ofTable mode t).filter.table.get? i v = some s ↔ t.get? i v = some s ∧ t.Informative v := by
  have hkeep := contains_states_filter mode t v
  show (t.retainValues (ofTable mode t).filter.states.contains).get? i v = some s ↔ _
  rw [Table.get?_retainValues]
  by_cases hv : t.Informative v
  · simp [hkeep.2 hv, hv]
  · have hnot : (ofTable mode t).filter.states.contains v = false := by
      simpa using fun h => hv (hkeep.1 h)
    simp [hnot, hv]

theorem mem_valuesWhere_filter (mode : Mode) (t : Table) (p : State → Bool) (v : ValueId) :
    v ∈ (ofTable mode t).filter.valuesWhere p ↔
      t.Informative v ∧ ∃ s, t.Shows v s ∧ p s = true := by
  simp only [valuesWhere, List.mem_map, List.mem_filter, Prod.exists, exists_and_right,
    exists_eq_right, FiniteMap.mem_toList_iff, get?_states_filter, FiniteSet.any_eq_true_iff]
  constructor
  · rintro ⟨set, ⟨hset, hv⟩, s, hs, hp⟩
    exact ⟨hv, s, (t.groups_stateSets.states v set hset s).1 hs, hp⟩
  · rintro ⟨hv, s, hs, hp⟩
    obtain ⟨set, hset, hcontains⟩ := t.groups_stateSets.exists_set hs
    exact ⟨set, ⟨hset, hv⟩, s, hcontains, hp⟩

/-- A choice that leaves out the two states that say nothing only needs the value to be without a
violation. -/
theorem mem_valuesWhere_filter_iff {p : State → Bool} (hbottom : p .bottom = false)
    (huninit : p .uninit = false) :
    v ∈ (ofTable mode t).filter.valuesWhere p ↔
      (∃ s, t.Shows v s ∧ p s = true) ∧ ¬ t.Shows v .violation := by
  rw [mem_valuesWhere_filter]
  constructor
  · rintro ⟨hinformative, hchosen⟩
    exact ⟨hchosen, hinformative.1⟩
  · rintro ⟨⟨s, hs, hp⟩, hviolation⟩
    -- a chosen state is none of the two that say nothing, so the value is kept
    refine ⟨⟨hviolation, s, hs, ?_, ?_⟩, s, hs, hp⟩
    · rintro rfl
      cases hbottom.symm.trans hp
    · rintro rfl
      cases huninit.symm.trans hp

/-! ## §4 Filtering once is enough -/

theorem shows_table_filter (mode : Mode) (t : Table) (v : ValueId) (s : State) :
    (ofTable mode t).filter.table.Shows v s ↔ t.Shows v s ∧ t.Informative v := by
  simp only [Table.Shows, get?_table_filter, exists_and_right]

/-- A value that is left in the table has kept all its cells, so it is as informative as before. -/
theorem informative_table_filter (mode : Mode) (t : Table) {v : ValueId} (h : t.Informative v) :
    (ofTable mode t).filter.table.Informative v := by
  obtain ⟨s, hs, hne⟩ := h.2
  constructor
  · intro hviolation
    exact h.1 ((shows_table_filter mode t v _).1 hviolation).1
  · exact ⟨s, (shows_table_filter mode t v s).2 ⟨hs, h⟩, hne⟩

/-- The states of a filtered run are those of its table, although states and table are cut down
separately. -/
theorem filter_eq_ofTable (mode : Mode) (t : Table) :
    (ofTable mode t).filter = ofTable mode (ofTable mode t).filter.table := by
  -- the kept states group what the kept cells show
  have hgroups : (ofTable mode t).filter.states.Groups (ofTable mode t).filter.table.Shows := by
    constructor
    · intro v
      simp only [shows_table_filter, exists_and_right]
      refine (contains_states_filter mode t v).trans ⟨fun h => ⟨?_, h⟩, And.right⟩
      obtain ⟨s, hs, -⟩ := h.2
      exact ⟨s, hs⟩
    · intro v set hset s
      obtain ⟨hgrouped, hinformative⟩ := (get?_states_filter mode t).1 hset
      rw [shows_table_filter, and_iff_left hinformative]
      exact t.groups_stateSets.states v set hgrouped s
  exact congrArg (Run.mk mode _) (hgroups.unique (Table.groups_stateSets _))

/-- Where every value is informative there is nothing to leave out. -/
theorem filter_of_informative {mode : Mode} {t : Table}
    (h : ∀ v s, t.Shows v s → t.Informative v) : (ofTable mode t).filter = ofTable mode t := by
  rw [filter_eq_ofTable]
  congr 1
  apply Table.ext_get?
  intro i v
  apply Option.ext
  intro s
  rw [get?_table_filter]
  exact and_iff_left_of_imp fun hs => h v s ⟨i, hs⟩

theorem filter_filter (mode : Mode) (t : Table) :
    (ofTable mode t).filter.filter = (ofTable mode t).filter := by
  have hrun := filter_eq_ofTable mode t
  have hleft : ∀ v s, (ofTable mode t).filter.table.Shows v s →
      (ofTable mode t).filter.table.Informative v := fun v s hs =>
    informative_table_filter mode t ((shows_table_filter mode t v s).1 hs).2
  calc (ofTable mode t).filter.filter
      = (ofTable mode (ofTable mode t).filter.table).filter := congrArg filter hrun
    _ = ofTable mode (ofTable mode t).filter.table := filter_of_informative hleft
    _ = (ofTable mode t).filter := hrun.symm

/-- **Filtering is a projection.** Whatever the model, a value is kept exactly when it has a cell, no
cell of it is a violation and some cell of it says something. Of the table just the cells of kept
values are left, the states are those of what is left, and no model filters out any more. -/
theorem filterUnder_spec (mode : Mode) (t : Table) (model : CallModel) :
    (∀ v, ((ofTable mode t).filterUnder model).states.contains v = true ↔
      (∃ i s, t.get? i v = some s) ∧ (∀ i, t.get? i v ≠ some .violation) ∧
        ∃ i s, t.get? i v = some s ∧ s ≠ .bottom ∧ s ≠ .uninit) ∧
    (∀ i v, ((ofTable mode t).filterUnder model).table.get? i v =
      if ((ofTable mode t).filterUnder model).states.contains v then t.get? i v else none) ∧
    (ofTable mode t).filterUnder model =
      ofTable mode ((ofTable mode t).filterUnder model).table ∧
    ∀ model', ((ofTable mode t).filterUnder model).filterUnder model' =
      (ofTable mode t).filterUnder model := by
  -- no model has a part in the filter
  simp only [filterUnder_eq]
  refine ⟨fun v => ?_, fun i v => ?_, filter_eq_ofTable mode t, fun _ => filter_filter mode t⟩
  · rw [contains_states_filter]
    constructor
    · rintro ⟨hviolation, s, ⟨i, hi⟩, hne⟩
      exact ⟨⟨i, s, hi⟩, fun j hj => hviolation ⟨j, hj⟩, i, s, hi, hne⟩
    · rintro ⟨-, hviolation, i, s, hi, hne⟩
      exact ⟨fun ⟨j, hj⟩ => hviolation j hj, s, ⟨i, hi⟩, hne⟩
  · exact Table.get?_retainValues _ t i v

end Run

end Typestate
