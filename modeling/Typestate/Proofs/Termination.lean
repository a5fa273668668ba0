import Mathlib.Algebra.Order.BigOperators.Group.Finset
import Mathlib.Algebra.Order.BigOperators.Group.List
import Mathlib.Algebra.Order.Ring.Nat
import Mathlib.Data.Fintype.EquivFin
import Typestate.Proofs.Budget

/-!
# Every run ends, whatever the limit

The transfer is not monotone, but nothing that has been written down is ever taken back: the facts on
entry to a block and the summaries of functions only grow. There are finitely many values and ten
states, so both have finite *height*. A block is put back only when its facts have gained height, and
a function only when a summary has or when it is new; so both loops come to an end. The limit has no
other effect than to stop them before.

## Contents

- §1 Heights of observations and facts
- §2 A pass ends
- §3 A round gains height or shortens the worklist
- §4 The loop ends
- §5 What the limit decides
-/

namespace Typestate

/-! ## §1 Heights -/

namespace Observation

/-- How far an observation is above none. -/
def height (o : Observation) : Nat := o.elim 0 fun s => s.information + 1

theorem height_le (o : Observation) : o.height ≤ 10 := by
  cases o with
  | none => decide
  | some s => cases s <;> decide

/-- More information is no lower. -/
theorem height_mono {a b : Observation} (h : a ≤ b) : a.height ≤ b.height := by
  cases a with
  | none => exact Nat.zero_le _
  | some s =>
    cases b with
    | none => simp at h
    | some s' => exact Nat.succ_le_succ (Option.some_le_some.1 h)

/-- An observation that grows without gaining height has not grown. -/
theorem eq_of_height_le {a b : Observation} (h : a ≤ b) (hheight : b.height ≤ a.height) :
    a = b := by
  cases a with
  | none =>
    cases b with
    | none => rfl
    | some s' => simp [height] at hheight
  | some s =>
    cases b with
    | none => simp at h
    | some s' =>
      exact congrArg some
        (State.le_antisymm (Option.some_le_some.1 h) (Nat.le_of_succ_le_succ hheight))

end Observation

instance : Finite ValueId :=
  Finite.of_injective (fun v : ValueId => v.index.toFin) fun a b h => by
    cases a
    cases b
    exact congrArg ValueId.mk (UInt32.toFin_inj.1 h)

noncomputable instance : Fintype ValueId := Fintype.ofFinite ValueId

namespace Facts

/-- The heights of the observations of all values together. -/
noncomputable def height (facts : Facts) : Nat := ∑ v, Observation.height (facts.get? v)

/-- No facts are higher than this. -/
noncomputable def maxHeight : Nat := Fintype.card ValueId * 10

theorem height_le (facts : Facts) : facts.height ≤ maxHeight := by
  -- ten for every value
  have hsum := Finset.sum_le_card_nsmul Finset.univ (fun v => Observation.height (facts.get? v)) 10
    fun v _ => Observation.height_le _
  simpa [height, maxHeight] using hsum

theorem height_mono {a b : Facts} (h : a ≤ b) : a.height ≤ b.height :=
  Finset.sum_le_sum fun v _ => Observation.height_mono (h v)

/-- Facts that grow without gaining height have not grown. -/
theorem eq_of_height_le {a b : Facts} (h : a ≤ b) (hheight : b.height ≤ a.height) : a = b := by
  refine FiniteMap.ext_get? fun v => Observation.eq_of_height_le (h v) ?_
  -- otherwise `v` alone would make the sum greater
  by_contra hlt
  have hsum : a.height < b.height :=
    Finset.sum_lt_sum (fun w _ => Observation.height_mono (h w))
      ⟨v, Finset.mem_univ v, Nat.lt_of_not_le hlt⟩
  exact Nat.not_lt_of_le hheight hsum

/-- A join that changes something raises the facts. -/
theorem height_lt_join {a b : Facts} (h : join a b ≠ a) : a.height < (join a b).height := by
  by_contra hle
  exact h (eq_of_height_le (le_join_left a b) (Nat.le_of_not_lt hle)).symm

end Facts

/-! ## §2 A pass ends -/

namespace Pass

/-- The height of the facts on entry to a block, counted from below the empty facts. -/
noncomputable def blockHeight (inflow : Option Facts) : Nat :=
  inflow.elim 0 fun facts => facts.height + 1

theorem blockHeight_le (inflow : Option Facts) : blockHeight inflow ≤ Facts.maxHeight + 1 := by
  cases inflow with
  | none => exact Nat.zero_le _
  | some facts => exact Nat.succ_le_succ facts.height_le

/-- The heights of all blocks together. -/
noncomputable def height (pass : Pass) : Nat := (pass.inflow.map blockHeight).sum

theorem height_le (pass : Pass) : pass.height ≤ pass.inflow.length * (Facts.maxHeight + 1) := by
  have hsum := List.sum_le_card_nsmul (pass.inflow.map blockHeight) (Facts.maxHeight + 1) (by
    intro n hn
    obtain ⟨inflow, -, rfl⟩ := List.mem_map.1 hn
    exact blockHeight_le inflow)
  simpa [height] using hsum

/-- Raising one summand raises the sum. -/
theorem sum_lt_sum_set {l : List Nat} {k m n : Nat} (hk : l[k]? = some m) (hlt : m < n) :
    l.sum < (l.set k n).sum := by
  -- the summands in front of the raised one stay as they are
  induction l generalizing k with
  | nil => simp at hk
  | cons a l ih =>
    cases k with
    | zero =>
      simp only [List.getElem?_cons_zero, Option.some.injEq] at hk
      simp only [List.set_cons_zero, List.sum_cons]
      omega
    | succ k =>
      simp only [List.getElem?_cons_succ] at hk
      simp only [List.set_cons_succ, List.sum_cons]
      have := ih hk
      omega

theorem length_pending_schedule (pass : Pass) (block : Nat) :
    (pass.schedule block).pending.length ≤ pass.pending.length + 1 := by
  unfold schedule
  split <;> simp

/-- Blocks that have become pending are paid for by height. -/
structure Pays (pass pass' : Pass) : Prop where
  size : pass'.inflow.length = pass.inflow.length
  pays : pass.height + pass'.pending.length ≤ pass'.height + pass.pending.length

theorem Pays.refl (pass : Pass) : pass.Pays pass := ⟨rfl, Nat.le_refl _⟩

theorem Pays.trans {a b c : Pass} (h : a.Pays b) (h' : b.Pays c) : a.Pays c where
  size := h'.size.trans h.size
  pays := by
    have := h.pays
    have := h'.pays
    omega

/-- Raising the facts of a block pays for putting it back. -/
theorem pays_set {pass : Pass} {block : Nat} {old : Option Facts} {facts : Facts}
    (hold : pass.inflow[block]? = some old) (hlt : blockHeight old < blockHeight (some facts)) :
    pass.Pays
      (({ pass with inflow := pass.inflow.set block (some facts) } : Pass).schedule block) where
  size := by simp
  pays := by
    -- what is known of the block rises, and at most one block more is pending
    have hheight : pass.height <
        (({ pass with inflow := pass.inflow.set block (some facts) } : Pass).schedule
          block).height := by
      unfold height
      rw [inflow_schedule, List.map_set]
      exact sum_lt_sum_set (by rw [List.getElem?_map, hold]; rfl) hlt
    have hpending := length_pending_schedule
      ({ pass with inflow := pass.inflow.set block (some facts) } : Pass) block
    simp only at hpending
    omega

/-- A block becomes pending only when its facts are raised. -/
theorem pays_arrive (facts : Facts) (pass : Pass) (block : Nat) :
    pass.Pays (arrive facts pass block) := by
  unfold arrive
  split
  · exact Pays.refl pass
  · next hold => exact pays_set hold (Nat.succ_pos _)
  · next old hold =>
    simp only
    split
    · exact Pays.refl pass
    · next hgrown => exact pays_set hold (Nat.succ_lt_succ (Facts.height_lt_join hgrown))

theorem pays_spread (facts : Facts) (targets : List UInt64) (pass : Pass) :
    pass.Pays (spread facts targets pass) := by
  induction targets generalizing pass with
  | nil => exact Pays.refl pass
  | cons t targets ih => exact (pays_arrive facts pass t.toNat).trans (ih _)

section
variable (program : Program) (model : CallModel) (summaries : Summaries) (function : Function)

/-- A visit puts back no more blocks than it raises. -/
theorem pays_visit (pass : Pass) (k : Nat) :
    pass.Pays (visit program model summaries function pass k) := by
  unfold visit
  split
  · exact Pays.refl pass
  · next block _ =>
    -- going through the block touches neither the facts of blocks nor what is pending
    let s := block.instructions.foldl (Stream.advance program model summaries function)
      ⟨(pass.inflow[k]?.bind id).getD .empty, pass.outcome, pass.table⟩
    have hpays := pays_spread s.facts block.successors
      { pass with outcome := s.outcome, table := s.table }
    exact ⟨hpays.size, hpays.pays⟩

/-- What a pass can still cost: the height it may gain, and the visits that are due. -/
noncomputable def cost (pass : Pass) : Nat :=
  pass.inflow.length * (Facts.maxHeight + 1) - pass.height + pass.pending.length

/-- **Each visit lowers what a pass can still cost.** -/
theorem cost_visit_lt {pass : Pass} {k : Nat} {rest : List Nat} (h : pass.pending = k :: rest) :
    (visit program model summaries function { pass with pending := rest } k).cost < pass.cost := by
  have hpays := pays_visit program model summaries function { pass with pending := rest } k
  generalize visit program model summaries function { pass with pending := rest } k = pass' at hpays
  have hsize : pass'.inflow.length = pass.inflow.length := hpays.size
  have hheight : pass.height + pass'.pending.length ≤ pass'.height + rest.length := hpays.pays
  have hbound := pass'.height_le
  have hlength : pass.pending.length = rest.length + 1 := by simp [h]
  unfold cost
  rw [hsize] at hbound ⊢
  omega

/-- **A pass ends** under every budget that covers its cost. -/
theorem exists_sweep {budget : Nat} {pass : Pass} (h : pass.cost ≤ budget) :
    ∃ left final, sweep program model summaries function budget pass = some (left, final) := by
  induction budget generalizing pass with
  | zero =>
    have hpending : pass.pending = [] := by
      apply List.eq_nil_of_length_eq_zero
      unfold cost at h
      omega
    exact ⟨0, pass, sweep_of_nil hpending 0⟩
  | succ budget ih =>
    cases hpending : pass.pending with
    | nil => exact ⟨budget + 1, pass, sweep_of_nil hpending _⟩
    | cons k rest =>
      rw [sweep_succ_of_cons hpending]
      apply ih
      -- a visit costs at least one
      have hlower := cost_visit_lt program model summaries function hpending
      omega

end

end Pass

/-! ## §3 Rounds -/

namespace Summary

instance : LE Summary := ⟨fun a b => a.entry ≤ b.entry ∧ a.exit ≤ b.exit ∧ a.ret ≤ b.ret⟩

theorem le_refl (a : Summary) : a ≤ a :=
  ⟨Facts.le_refl _, Facts.le_refl _, Observation.le_refl _⟩

theorem le_trans {a b c : Summary} (h : a ≤ b) (h' : b ≤ c) : a ≤ c :=
  ⟨Facts.le_trans h.1 h'.1, Facts.le_trans h.2.1 h'.2.1, Observation.le_trans h.2.2 h'.2.2⟩

/-- The heights of the three parts of a summary together. -/
noncomputable def height (s : Summary) : Nat :=
  s.entry.height + s.exit.height + Observation.height s.ret

theorem height_le (s : Summary) : s.height ≤ 2 * Facts.maxHeight + 10 := by
  have hentry := s.entry.height_le
  have hexit := s.exit.height_le
  have hret := Observation.height_le s.ret
  unfold height
  omega

theorem height_mono {a b : Summary} (h : a ≤ b) : a.height ≤ b.height := by
  have hentry := Facts.height_mono h.1
  have hexit := Facts.height_mono h.2.1
  have hret := Observation.height_mono h.2.2
  unfold height
  omega

/-- A summary that has changed has gained height. -/
theorem height_lt {a b : Summary} (h : a ≤ b) (hne : b ≠ a) : a.height < b.height := by
  by_contra hle
  apply hne
  have hentry := Facts.height_mono h.1
  have hexit := Facts.height_mono h.2.1
  have hret := Observation.height_mono h.2.2
  -- no part has gained height, so none has grown
  unfold height at hle
  have hentry' := Facts.eq_of_height_le h.1 (by omega)
  have hexit' := Facts.eq_of_height_le h.2.1 (by omega)
  have hret' := Observation.eq_of_height_le h.2.2 (by omega)
  exact (congr (congr (congrArg Summary.mk hentry') hexit') hret').symm

end Summary

namespace Propagation

theorem le_grownExit (old : Summary) (outcome : Outcome) : old ≤ grownExit old outcome := by
  refine ⟨Facts.le_refl _, Facts.le_join_left _ _, ?_⟩
  rw [ret_grownExit]
  exact Observation.le_join_left _ _

theorem le_grownEntry (old : Summary) (passed : Facts) : old ≤ grownEntry old passed :=
  ⟨Facts.le_join_left _ _, Facts.le_refl _, Observation.le_refl _⟩

section
variable (program : Program)

/-- The names of the functions that have a body. -/
def bodyNames : Finset String :=
  (program.functions.map (·.name)).toFinset.filter fun n => (program.body? n).isSome = true

theorem mem_bodyNames {n : String} : n ∈ bodyNames program ↔ (program.body? n).isSome = true := by
  simp only [bodyNames, Finset.mem_filter, List.mem_toFinset, List.mem_map, and_iff_right_iff_imp]
  intro h
  obtain ⟨f, hf⟩ := Option.isSome_iff_exists.1 h
  exact ⟨f, Program.mem_of_body? hf, Program.name_of_body? hf⟩

instance (p : Propagation) (n : String) : Decidable (p.Active n) :=
  inferInstanceAs (Decidable (_ ∨ _))

/-- What is known of a function, and that it takes part. -/
noncomputable def heightOf (p : Propagation) (n : String) : Nat :=
  (p.summary n).height + if p.Active n then 1 else 0

/-- The heights of all functions with a body together. -/
noncomputable def height (p : Propagation) : Nat := ∑ n ∈ bodyNames program, p.heightOf n

/-- No state of a run is higher than this. -/
noncomputable def maxHeight : Nat := (bodyNames program).card * (2 * Facts.maxHeight + 11)

/-- The heights of finitely many functions, each of which is bounded, are bounded together. -/
theorem height_le (p : Propagation) : p.height program ≤ maxHeight program := by
  have hsum := Finset.sum_le_card_nsmul (bodyNames program) p.heightOf (2 * Facts.maxHeight + 11) (by
    intro n _
    have := (p.summary n).height_le
    unfold heightOf
    split <;> omega)
  simpa [height, maxHeight] using hsum

/-- As much is known of every function, and whoever takes part still does. -/
def Rises (p p' : Propagation) : Prop :=
  ∀ n, p.summary n ≤ p'.summary n ∧ (p.Active n → p'.Active n)

variable {p p' p'' : Propagation}

theorem Rises.refl (p : Propagation) : p.Rises p := fun _ => ⟨Summary.le_refl _, id⟩

theorem Rises.trans (h : p.Rises p') (h' : p'.Rises p'') : p.Rises p'' := fun n =>
  ⟨Summary.le_trans (h n).1 (h' n).1, (h' n).2 ∘ (h n).2⟩

theorem Rises.heightOf_le (h : p.Rises p') (n : String) : p.heightOf n ≤ p'.heightOf n := by
  have hsummary := Summary.height_mono (h n).1
  unfold heightOf
  -- whoever takes part in `p` takes part in `p'`, so the second summand falls for nobody
  by_cases hn : p.Active n
  · rw [if_pos hn, if_pos ((h n).2 hn)]
    omega
  · rw [if_neg hn]
    omega

/-- No function loses height. -/
theorem Rises.height_le (h : p.Rises p') : p.height program ≤ p'.height program :=
  Finset.sum_le_sum fun n _ => h.heightOf_le n

variable {program}

/-- One function with a body of which more is known, or which is new, is enough. -/
theorem Rises.height_lt (h : p.Rises p') {n : String} (hbody : (program.body? n).isSome = true)
    (hgain : (p.summary n).height < (p'.summary n).height ∨ ¬ p.Active n ∧ p'.Active n) :
    p.height program < p'.height program := by
  -- no other body loses height, and this one gains some
  refine Finset.sum_lt_sum (fun n _ => h.heightOf_le n) ⟨n, (mem_bodyNames program).2 hbody, ?_⟩
  have hsummary := Summary.height_mono (h n).1
  unfold heightOf
  rcases hgain with hgain | ⟨hidle, hnow⟩
  · by_cases hn : p.Active n
    · rw [if_pos hn, if_pos ((h n).2 hn)]
      omega
    · rw [if_neg hn]
      omega
  · rw [if_neg hidle, if_pos hnow]
    omega

/-- A step that gains height or leaves the worklist as it is. -/
structure Progress (program : Program) (p p' : Propagation) : Prop where
  rises : p.Rises p'
  worklist : p'.height program ≤ p.height program → p'.worklist = p.worklist

theorem Progress.trans (h : Progress program p p') (h' : Progress program p' p'') :
    Progress program p p'' where
  rises := h.rises.trans h'.rises
  worklist := by
    intro hheight
    have hfirst := h.rises.height_le program
    have hsecond := h'.rises.height_le program
    exact (h'.worklist (by omega)).trans (h.worklist (by omega))

theorem rises_enqueue (program : Program) (p : Propagation) (name : String) :
    p.Rises (enqueue program p name) := by
  intro n
  rw [enqueue_eq]
  refine ⟨Summary.le_refl _, Or.imp_right fun hn => ?_⟩
  exact (mem_enqueue program).2 (Or.inl hn)

theorem rises_foldl_enqueue (program : Program) (names : List String) (p : Propagation) :
    p.Rises (names.foldl (enqueue program) p) := by
  induction names generalizing p with
  | nil => exact Rises.refl p
  | cons name names ih => exact (rises_enqueue program p name).trans (ih _)

/-- A greater summary takes nothing away. -/
theorem rises_insert {name : String} {grown : Summary} (h : p.summary name ≤ grown) :
    p.Rises { p with summaries := p.summaries.insert name grown } := by
  intro n
  refine ⟨?_, id⟩
  rw [summary_insert]
  split
  · next hn => exact hn ▸ h
  · exact Summary.le_refl _

/-- What was gained by a greater summary is not lost behind it. -/
theorem height_lt_of_insert {name : String} {grown : Summary} (h : p.summary name ≤ grown)
    (hne : grown ≠ p.summary name)
    (hrises : ({ p with summaries := p.summaries.insert name grown } : Propagation).Rises p') :
    (p.summary name).height < (p'.summary name).height := by
  -- the greater summary is at most what is known afterwards
  have hafter := Summary.height_mono (hrises name).1
  rw [summary_insert, if_pos rfl] at hafter
  exact Nat.lt_of_lt_of_le (Summary.height_lt h hne) hafter

/-- Taking in the exit side wakes somebody only if the summary of the function has gained height. -/
theorem progress_absorbExit {name : String} (hbody : (program.body? name).isSome = true)
    (outcome : Outcome) : Progress program p (p.absorbExit program name outcome) := by
  have hle := le_grownExit (p.summary name) outcome
  unfold absorbExit
  show Progress program p (if grownExit (p.summary name) outcome = p.summary name then _ else _)
  split
  · exact ⟨rises_insert hle, fun _ => rfl⟩
  · next hgrown =>
    -- whoever is put back, the summary of `name` has gained height
    have hgain : ∀ p', ({ p with
        summaries := p.summaries.insert name (grownExit (p.summary name) outcome) } :
          Propagation).Rises p' → Progress program p p' := by
      intro p' hp'
      have hrises := (rises_insert hle).trans hp'
      have hlt := hrises.height_lt hbody (Or.inl (height_lt_of_insert hle hgrown hp'))
      exact ⟨hrises, fun hheight => absurd hheight (Nat.not_le_of_lt hlt)⟩
    cases p.callers.get? name with
    | none => exact hgain _ (Rises.refl _)
    | some callers => exact hgain _ (rises_foldl_enqueue program _ _)

/-- A callee is put in only if its summary has gained height or it takes part for the first time. -/
theorem progress_absorbCall (program : Program) (p : Propagation) (call : String × Facts) :
    Progress program p (p.absorbCall program call) := by
  have hle := le_grownEntry (p.summary call.1) call.2
  unfold absorbCall
  show Progress program p (if (decide (grownEntry (p.summary call.1) call.2 = p.summary call.1) &&
    p.visited.contains call.1) = true then _ else _)
  split
  · exact ⟨rises_insert hle, fun _ => rfl⟩
  · next hreason =>
    have henqueue := rises_enqueue program ({ p with
      summaries := p.summaries.insert call.1 (grownEntry (p.summary call.1) call.2) } :
        Propagation) call.1
    have hrises := (rises_insert hle).trans henqueue
    refine ⟨hrises, fun hheight => ?_⟩
    by_cases hputs : (program.body? call.1).isSome = true ∧ call.1 ∉ p.worklist
    · -- the callee is put in: either its summary has grown, or it takes part from now on
      obtain ⟨hbody, hidle⟩ := hputs
      refine absurd hheight (Nat.not_le_of_lt (hrises.height_lt hbody ?_))
      by_cases hgrown : grownEntry (p.summary call.1) call.2 = p.summary call.1
      · have hnew : ¬ p.visited.contains call.1 = true := by simpa [hgrown] using hreason
        refine Or.inr ⟨fun hactive => hactive.elim hnew hidle, Or.inr ?_⟩
        exact (mem_enqueue program).2 (Or.inr ⟨rfl, hbody⟩)
      · exact Or.inl (height_lt_of_insert hle hgrown henqueue)
    · unfold enqueue
      rw [if_neg (by simpa using hputs)]

theorem progress_foldl_absorbCall (program : Program) (calls : List (String × Facts))
    (p : Propagation) : Progress program p (calls.foldl (absorbCall program) p) := by
  induction calls generalizing p with
  | nil => exact ⟨Rises.refl p, fun _ => rfl⟩
  | cons call calls ih => exact (progress_absorbCall program p call).trans (ih _)

/-- Whoever is taken out of the worklist has been looked at instead. -/
theorem rises_recordPass {name : String} {rest : List String} (h : p.worklist = name :: rest)
    (outcome : Outcome) (table : Table) :
    p.Rises (({ p with worklist := rest } : Propagation).recordPass name outcome table) := by
  have hvisited := FiniteSet.contains_insert p.visited name
  intro n
  refine ⟨Summary.le_refl _, fun hn => ?_⟩
  rcases hn with hn | hn
  · exact Or.inl ((hvisited n).2 (Or.inr hn))
  · rw [h] at hn
    rcases List.mem_cons.1 hn with rfl | hn
    · exact Or.inl ((hvisited n).2 (Or.inl rfl))
    · exact Or.inr hn

/-- **A round gains height or shortens the worklist.** -/
theorem height_absorb {name : String} {rest : List String} (h : p.worklist = name :: rest)
    (hbody : (program.body? name).isSome = true) (outcome : Outcome) (table : Table) :
    p.height program <
        (absorb program { p with worklist := rest } name outcome table).height program ∨
      p.height program =
          (absorb program { p with worklist := rest } name outcome table).height program ∧
        (absorb program { p with worklist := rest } name outcome table).worklist = rest := by
  have hprogress := (progress_absorbExit hbody outcome).trans (progress_foldl_absorbCall program
    outcome.calls.toList
    ((({ p with worklist := rest } : Propagation).recordPass name outcome table).absorbExit
      program name outcome))
  have hfirst := (rises_recordPass h outcome table).height_le program
  have hsecond := hprogress.rises.height_le program
  have hworklist := hprogress.worklist
  unfold absorb
  -- without any gain nobody is put into the worklist
  rcases Nat.lt_or_eq_of_le (Nat.le_trans hfirst hsecond) with hlt | heq
  · exact Or.inl hlt
  · exact Or.inr ⟨heq, hworklist (by omega)⟩

end

/-! ## §4 The loop -/

/-- Taking a function without a body out of the worklist costs no height. -/
theorem height_of_no_body {program : Program} {p : Propagation} {name : String}
    {rest : List String} (h : p.worklist = name :: rest) (hbody : program.body? name = none) :
    ({ p with worklist := rest } : Propagation).height program = p.height program := by
  refine Finset.sum_congr rfl fun n hn => ?_
  have hne : n ≠ name := by
    rintro rfl
    rw [mem_bodyNames, hbody] at hn
    cases hn
  -- the name taken out is none of those that are counted
  have hactive : ({ p with worklist := rest } : Propagation).Active n ↔ p.Active n := by
    simp [Active, h, hne]
  unfold heightOf
  rw [if_congr hactive rfl rfl]
  rfl

/-- **The loop ends** from every state, under some budget. -/
theorem exists_run (program : Program) (model : CallModel) (p : Propagation) :
    ∃ budget final, run program model budget p = some final := by
  cases hworklist : p.worklist with
  | nil => exact ⟨0, p, run_of_nil hworklist 0⟩
  | cons name rest =>
    cases hbody : program.body? name with
    | none =>
      have hheight := height_of_no_body hworklist hbody
      obtain ⟨budget, final, hrun⟩ := exists_run program model { p with worklist := rest }
      exact ⟨budget + 1, final, by rw [run_succ_of_none hworklist hbody, hrun]⟩
    | some f =>
      obtain ⟨left, pass, hsweep⟩ := Pass.exists_sweep program model p.summaries f
        (Nat.le_refl (openPass { p with worklist := rest } name f).cost)
      have hround := height_absorb hworklist (Option.isSome_iff_exists.2 ⟨f, hbody⟩)
        pass.outcome pass.table
      obtain ⟨budget, final, hrun⟩ := exists_run program model
        (absorb program { p with worklist := rest } name pass.outcome pass.table)
      -- what the pass leaves over is added to what the rest of the run needs
      refine ⟨(openPass { p with worklist := rest } name f).cost + budget + 1, final, ?_⟩
      rw [run_succ_of_body hworklist hbody, Pass.sweep_add hsweep, Option.bind_some, Nat.add_comm]
      exact run_add hrun left
termination_by (maxHeight program - p.height program, p.worklist.length)
decreasing_by
  · rw [hheight]
    exact Prod.Lex.right _ (by simp [hworklist])
  · have hbound := height_le program
      (absorb program { p with worklist := rest } name pass.outcome pass.table)
    rcases hround with hlt | ⟨heq, hrest⟩
    · exact Prod.Lex.left _ _ (by omega)
    · rw [heq, hrest]
      exact Prod.Lex.right _ (by simp [hworklist])

end Propagation

/-! ## §5 The limit -/

/-- On checked inputs only the run decides between a table and the limit. -/
theorem solve_of_validate {program : Program} {entries : List String}
    (h : program.validate entries = .ok ()) (model : CallModel) (limit : Nat) :
    solve program model limit entries =
      match (Propagation.start program entries).run program model limit with
      | some p => .ok p.table
      | none => .error (.iterationLimit limit) := by
  unfold solve
  rw [h]
  rfl

/-- **The limit only decides whether there is a table.** For checked inputs there are a number and a
table such that every limit from that number on gives the table, and every smaller one is reached. -/
theorem solve_eq_ite {program : Program} {entries : List String}
    (h : program.validate entries = .ok ()) (model : CallModel) :
    ∃ (enough : Nat) (t : Table), ∀ limit, solve program model limit entries =
      if enough ≤ limit then .ok t else .error (.iterationLimit limit) := by
  have hends : ∃ budget, ∃ final,
      (Propagation.start program entries).run program model budget = some final :=
    Propagation.exists_run program model _
  classical
  obtain ⟨final, hfinal⟩ := Nat.find_spec hends
  refine ⟨Nat.find hends, final.table, fun limit => ?_⟩
  rw [solve_of_validate h]
  split_ifs with hlimit
  · obtain ⟨extra, rfl⟩ := Nat.exists_eq_add_of_le hlimit
    rw [Propagation.run_add hfinal]
  · -- a smaller budget under which the run ends would have been found
    have hnone : (Propagation.start program entries).run program model limit = none := by
      apply Option.eq_none_iff_forall_not_mem.2
      intro p hp
      exact Nat.find_min hends (Nat.lt_of_not_le hlimit) ⟨p, hp⟩
    rw [hnone]

/-- A body that calls `pong` in a loop. -/
def ping : Function where
  name := "ping"
  params := [⟨0⟩]
  outputArg := none
  blocks := [
    { instructions := [
        ⟨⟨0⟩, .call "extract" [⟨0⟩] none⟩,
        ⟨⟨1⟩, .call "pong" [⟨0⟩] none⟩]
      successors := [0, 1] },
    { instructions := [⟨⟨2⟩, .ret none⟩], successors := [] }]

/-- A body that calls `ping` back. -/
def pong : Function where
  name := "pong"
  params := [⟨1⟩]
  outputArg := none
  blocks := [
    { instructions := [
        ⟨⟨3⟩, .call "release" [⟨1⟩] none⟩,
        ⟨⟨4⟩, .call "ping" [⟨1⟩] none⟩,
        ⟨⟨5⟩, .ret none⟩]
      successors := [] }]

def bouncing : Program := ⟨[ping, pong], .empty⟩

theorem validate_bouncing : bouncing.validate ["ping"] = .ok () :=
  eq_ok_of_toOption (by decide +kernel)

/-- Loops and mutual recursion come to an end. -/
theorem solve_bouncing :
    bouncing.validate ["ping"] = .ok () ∧ ∃ (enough : Nat) (t : Table), ∀ limit,
      solve bouncing (.small .full .factory) limit ["ping"] =
        if enough ≤ limit then .ok t else .error (.iterationLimit limit) :=
  ⟨validate_bouncing, solve_eq_ite validate_bouncing _⟩

end Typestate
