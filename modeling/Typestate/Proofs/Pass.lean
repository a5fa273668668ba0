import Typestate.Proofs.ControlFlow
import Typestate.Solver.Pass

/-!
# What a pass leaves behind

A pass over a function visits blocks until none is pending. The invariant is that every block that
has been reached and is not pending is *settled*: everything that follows from its facts has been
written down, and the facts behind its last instruction have arrived at its successors. When nothing
is pending any more, every reached block is settled. The transfer need not be monotone for this: a
block whose facts have grown is simply pending again.

The table also keeps what earlier visits with fewer facts have seen, so every cell is traced back to
a visit all of whose consequences have been taken in.

## Contents

- §1 Going through the instructions of a block
- §2 Arriving at the successors
- §3 Invariants of a whole pass
- §4 Settled blocks
-/

namespace Typestate

/-- What holds at every point of a block whose consequences have been taken in: instructions are
recorded, and the facts behind the last of them satisfy `onward`. -/
def Recorded (ledger : Ledger) (program : Program) (function : Function) (onward : Facts → Prop) :
    List Instruction → Facts → Prop
  | [], facts => onward facts
  | i :: _, facts => ledger.Records program function i facts

theorem Recorded.mono {ledger ledger' : Ledger} {program : Program} {function : Function}
    {onward onward' : Facts → Prop} (hle : ledger.Below program ledger')
    (honward : ∀ facts, onward facts → onward' facts) {rest : List Instruction} {facts : Facts}
    (h : Recorded ledger program function onward rest facts) :
    Recorded ledger' program function onward' rest facts := by
  cases rest with
  | nil => exact honward facts h
  | cons i rest => exact Ledger.Records.mono h hle

namespace Pass

/-- What a pass has written down so far. -/
def ledger (pass : Pass) : Ledger := pass.outcome.ledger pass.table

/-! ## §1 Through a block -/

section
variable {program : Program} {model : CallModel} {summaries : Summaries} {function : Function}

/-- What a pass has written down when it has come to some point of a block. -/
def Stream.ledger (s : Stream) : Ledger := s.outcome.ledger s.table

theorem Stream.facts_advance (s : Stream) (i : Instruction) :
    (s.advance program model summaries function i).facts =
      flow program model summaries i s.facts :=
  transfer_fst program model summaries function i s.facts s.outcome

theorem Stream.records_advance (s : Stream) (i : Instruction) :
    (s.advance program model summaries function i).ledger.Records program function i s.facts :=
  records_transfer program model summaries function i s.facts s.outcome _
    (Table.holds_joinRow _ _ _)

variable (program model summaries function) in
/-- Going through instructions loses nothing that was found or written before. -/
theorem Stream.keeps_run (is : List Instruction) (s : Stream) :
    s.outcome.Below (is.foldl (Stream.advance program model summaries function) s).outcome ∧
      s.table ≤ (is.foldl (Stream.advance program model summaries function) s).table := by
  induction is generalizing s with
  | nil => exact ⟨Outcome.Below.refl _, Table.le_refl _⟩
  | cons i is ih =>
    have hbelow : s.outcome.Below (s.advance program model summaries function i).outcome :=
      below_transfer program model summaries function i s.facts s.outcome
    have hrow : s.table ≤ (s.advance program model summaries function i).table :=
      Table.le_joinRow _ _ _
    obtain ⟨hrest, hrest'⟩ := ih (s.advance program model summaries function i)
    exact ⟨hbelow.trans hrest, Table.le_trans hrow hrest'⟩

theorem Stream.below_run (is : List Instruction) (s : Stream) :
    s.ledger.Below program (is.foldl (Stream.advance program model summaries function) s).ledger := by
  obtain ⟨houtcome, htable⟩ := Stream.keeps_run program model summaries function is s
  exact houtcome.ledger htable

/-- Nothing is called into but what the instructions enter. -/
theorem Stream.calls_run {P : String → Prop} {is : List Instruction}
    (his : ∀ i ∈ is, ∀ e, program.entering? i = some e → P e.target.name) {s : Stream}
    (hs : ∀ n ∈ s.outcome.calls.keys, P n) :
    ∀ n ∈ (is.foldl (Stream.advance program model summaries function) s).outcome.calls.keys, P n := by
  induction is generalizing s with
  | nil => exact hs
  | cons i is ih =>
    refine ih (fun j hj => his j (List.mem_cons_of_mem _ hj)) ?_
    show ∀ n ∈ (transfer program model summaries function i s.facts s.outcome).2.calls.keys, P n
    -- only a call into a body adds a name, the one of its target
    rcases transfer_cases program model summaries function i s.facts s.outcome with
      ⟨e, he, heq⟩ | ⟨value, -, heq⟩ | heq
    · intro n hn
      rw [heq, FiniteMap.mem_keys_iff] at hn
      obtain ⟨passed, hpassed⟩ := hn
      rw [FiniteMap.get?_alter] at hpassed
      by_cases hname : n = e.target.name
      · exact hname ▸ his i (List.mem_cons_self ..) e he
      · rw [if_neg hname] at hpassed
        exact hs n (FiniteMap.mem_keys_iff.2 ⟨passed, hpassed⟩)
    · rw [heq]
      exact hs
    · rw [heq]
      exact hs

/-- All instructions of a run are recorded in every ledger that has taken in its end. -/
theorem Stream.recorded_run (is : List Instruction) (s : Stream) {ledger : Ledger}
    {onward : Facts → Prop}
    (hle : (is.foldl (Stream.advance program model summaries function) s).ledger.Below program ledger)
    (honward : onward (is.foldl (Stream.advance program model summaries function) s).facts) :
    Along program model summaries (Recorded ledger program function onward) is s.facts := by
  induction is generalizing s with
  | nil => exact honward
  | cons i is ih =>
    refine ⟨?_, ?_⟩
    · -- what this instruction writes is kept up to the end of the run
      have hbelow : (s.advance program model summaries function i).ledger.Below program
          ((i :: is).foldl (Stream.advance program model summaries function) s).ledger :=
        Stream.below_run is (s.advance program model summaries function i)
      exact (s.records_advance i).mono (hbelow.trans hle)
    · have hfacts : (s.advance program model summaries function i).facts =
          flow program model summaries i s.facts := s.facts_advance i
      rw [← hfacts]
      exact ih (s.advance program model summaries function i) hle honward

/-- A cell of the table behind a block was there before, or one of the points passed has it. -/
theorem Stream.cell_run (is : List Instruction) (s : Stream) {Φ : List Instruction → Facts → Prop}
    (hΦ : Along program model summaries Φ is s.facts) {id : InstId} {v : ValueId} {σ : State}
    (h : (is.foldl (Stream.advance program model summaries function) s).table.get? id v = some σ) :
    s.table.get? id v = some σ ∨
      ∃ i rest facts, i :: rest <:+ is ∧ i.id = id ∧
        Along program model summaries Φ (i :: rest) facts ∧ facts.get? v = some σ := by
  induction is generalizing s with
  | nil => exact Or.inl h
  | cons i is ih =>
    -- a cell behind the block is older than the block, of its first row, or of a later one
    have hΦ' : Along program model summaries Φ is
        (s.advance program model summaries function i).facts := by
      rw [s.facts_advance]
      exact hΦ.2
    rcases ih (s.advance program model summaries function i) hΦ' h with hcell | hlater
    · rcases Table.get?_joinRow_eq_or s.table i.id id s.facts v with hold | ⟨hid, hnew⟩
      · exact Or.inl (hold ▸ hcell)
      · exact Or.inr ⟨i, is, s.facts, List.suffix_refl _, hid.symm, hΦ, hnew ▸ hcell⟩
    · obtain ⟨j, rest, facts, hsuffix, hj⟩ := hlater
      exact Or.inr ⟨j, rest, facts, hsuffix.trans (List.suffix_cons i is), hj⟩

end

/-! ## §2 Arrivals -/

/-- `pass'` has at least the facts of `pass`, and a block whose facts differ is pending in it. -/
structure Grows (pass pass' : Pass) : Prop where
  size : pass'.inflow.length = pass.inflow.length
  inflow : ∀ (k : Nat) (facts : Facts), pass.inflow[k]? = some (some facts) →
    ∃ facts', pass'.inflow[k]? = some (some facts') ∧ facts ≤ facts'
  pending : ∀ k ∈ pass.pending, k ∈ pass'.pending
  changed : ∀ (k : Nat) (facts : Facts), pass'.inflow[k]? = some (some facts) →
    k ∈ pass'.pending ∨ pass.inflow[k]? = some (some facts)
  reached : ∀ k ∈ pass'.pending,
    k ∈ pass.pending ∨ ∃ facts, pass'.inflow[k]? = some (some facts)

theorem Grows.refl (pass : Pass) : pass.Grows pass where
  size := rfl
  inflow := fun _ facts h => ⟨facts, h, Facts.le_refl _⟩
  pending := fun _ h => h
  changed := fun _ _ h => Or.inr h
  reached := fun _ h => Or.inl h

theorem Grows.trans {a b c : Pass} (h : a.Grows b) (h' : b.Grows c) : a.Grows c where
  size := h'.size.trans h.size
  inflow := by
    intro k facts hk
    obtain ⟨facts', hk', hle⟩ := h.inflow k facts hk
    obtain ⟨facts'', hk'', hle'⟩ := h'.inflow k facts' hk'
    exact ⟨facts'', hk'', Facts.le_trans hle hle'⟩
  pending := fun k hk => h'.pending k (h.pending k hk)
  changed := by
    intro k facts hk
    rcases h'.changed k facts hk with hpending | hk'
    · exact Or.inl hpending
    · exact (h.changed k facts hk').imp (h'.pending k) id
  reached := by
    intro k hk
    -- a pending block has been reached, early or late
    rcases h'.reached k hk with hk' | hk'
    · rcases h.reached k hk' with hk'' | ⟨facts, hfacts⟩
      · exact Or.inl hk''
      · obtain ⟨facts', hfacts', -⟩ := h'.inflow k facts hfacts
        exact Or.inr ⟨facts', hfacts'⟩
    · exact Or.inr hk'

/-- Where pending blocks have facts, they still do when there are more of both. -/
theorem Grows.reached_of {pass pass' : Pass} (h : pass.Grows pass')
    (hpass : ∀ k ∈ pass.pending, ∃ facts, pass.inflow[k]? = some (some facts)) :
    ∀ k ∈ pass'.pending, ∃ facts, pass'.inflow[k]? = some (some facts) := by
  intro k hk
  rcases h.reached k hk with hk | hk
  · obtain ⟨old, hold⟩ := hpass k hk
    obtain ⟨new, hnew, -⟩ := h.inflow k old hold
    exact ⟨new, hnew⟩
  · exact hk

theorem mem_schedule (pass : Pass) (block : Nat) {k : Nat} :
    k ∈ (pass.schedule block).pending ↔ k ∈ pass.pending ∨ k = block := by
  unfold schedule
  split
  · next h =>
    have hmem : block ∈ pass.pending := by simpa using h
    constructor
    · exact Or.inl
    · rintro (h | rfl)
      · exact h
      · exact hmem
  · simp

@[simp]
theorem inflow_schedule (pass : Pass) (block : Nat) :
    (pass.schedule block).inflow = pass.inflow := by
  unfold schedule
  split <;> rfl

/-- Setting the facts of a block to more than it had, and making it pending. -/
theorem grows_set (pass : Pass) (block : Nat) (facts : Facts)
    (hmore : ∀ old, pass.inflow[block]? = some (some old) → old ≤ facts)
    (hblock : block < pass.inflow.length) :
    pass.Grows (({ pass with inflow := pass.inflow.set block (some facts) } : Pass).schedule block) where
  size := by simp
  inflow := by
    intro k old hk
    rw [inflow_schedule, List.getElem?_set]
    -- only this block changes, and it waits now
    by_cases hkb : block = k
    · subst hkb
      exact ⟨facts, by simp [hblock], hmore old hk⟩
    · exact ⟨old, by simpa [hkb] using hk, Facts.le_refl _⟩
  pending := fun k hk => (mem_schedule _ _).2 (Or.inl hk)
  changed := by
    intro k new hk
    rw [inflow_schedule, List.getElem?_set] at hk
    by_cases hkb : block = k
    · exact Or.inl ((mem_schedule _ _).2 (Or.inr hkb.symm))
    · exact Or.inr (by simpa [hkb] using hk)
  reached := by
    intro k hk
    rcases (mem_schedule _ _).1 hk with hk | rfl
    · exact Or.inl hk
    · exact Or.inr ⟨facts, by simp [hblock]⟩

/-- **Arrival.** Facts that arrive at a block are part of its facts afterwards. -/
theorem grows_arrive (facts : Facts) (pass : Pass) (block : Nat) :
    pass.Grows (arrive facts pass block) ∧
      (block < pass.inflow.length →
        ∃ known, (arrive facts pass block).inflow[block]? = some (some known) ∧ facts ≤ known) := by
  unfold arrive
  split
  · -- there is no such block
    next h =>
    refine ⟨Grows.refl _, fun hlt => ?_⟩
    rw [List.getElem?_eq_none_iff] at h
    omega
  · -- the first facts to arrive
    next h =>
    have hblock : block < pass.inflow.length := (List.getElem?_eq_some_iff.1 h).1
    refine ⟨grows_set pass block facts (fun old hold => ?_) hblock, fun _ => ?_⟩
    · rw [h] at hold
      cases hold
    · exact ⟨facts, by simp [hblock], Facts.le_refl _⟩
  · -- facts have arrived before, and either these add nothing or the block is pending again
    next old h =>
    have hblock : block < pass.inflow.length := (List.getElem?_eq_some_iff.1 h).1
    simp only
    split
    · next heq => exact ⟨Grows.refl _, fun _ => ⟨old, h, Facts.join_eq_left_iff.1 heq⟩⟩
    · refine ⟨grows_set pass block _ (fun old' hold => ?_) hblock, fun _ => ?_⟩
      · rw [h] at hold
        cases hold
        exact Facts.le_join_left _ _
      · exact ⟨Facts.join old facts, by simp [hblock], Facts.le_join_right _ _⟩

/-- Arrival touches nothing but the facts of blocks and what is pending. -/
theorem arrive_eq (facts : Facts) (pass : Pass) (block : Nat) :
    ∃ inflow pending,
      arrive facts pass block = { pass with inflow := inflow, pending := pending } := by
  -- putting a block into the queue leaves everything else
  have hschedule : ∀ pass : Pass, pass.schedule block =
      { pass with pending := (pass.schedule block).pending } := by
    intro pass
    unfold schedule
    split <;> rfl
  unfold arrive
  split
  · exact ⟨pass.inflow, pass.pending, rfl⟩
  · exact ⟨_, _, hschedule _⟩
  · simp only
    split
    · exact ⟨pass.inflow, pass.pending, rfl⟩
    · exact ⟨_, _, hschedule _⟩

theorem ledger_arrive (facts : Facts) (pass : Pass) (block : Nat) :
    (arrive facts pass block).ledger = pass.ledger := by
  obtain ⟨inflow, pending, heq⟩ := arrive_eq facts pass block
  rw [heq]
  rfl

/-- After an arrival a block has the facts it had, those that arrived, or both joined. -/
theorem inflow_arrive {facts new : Facts} {pass : Pass} {block k : Nat}
    (h : (arrive facts pass block).inflow[k]? = some (some new)) :
    pass.inflow[k]? = some (some new) ∨
      k = block ∧ (new = facts ∨
        ∃ old, pass.inflow[block]? = some (some old) ∧ new = Facts.join old facts) := by
  -- setting the facts of one block leaves the other blocks alone
  have hset : ∀ joined : Facts, (pass.inflow.set block (some joined))[k]? = some (some new) →
      pass.inflow[k]? = some (some new) ∨ k = block ∧ new = joined := by
    intro joined hk
    rw [List.getElem?_set] at hk
    by_cases hkb : block = k
    · subst hkb
      simp only [if_true] at hk
      split at hk
      · cases hk
        exact Or.inr ⟨rfl, rfl⟩
      · cases hk
    · rw [if_neg hkb] at hk
      exact Or.inl hk
  unfold arrive at h
  split at h
  · exact Or.inl h
  · rw [inflow_schedule] at h
    exact (hset facts h).imp id fun h => ⟨h.1, Or.inl h.2⟩
  · next old hold =>
    simp only at h
    split at h
    · exact Or.inl h
    · rw [inflow_schedule] at h
      exact (hset _ h).imp id fun h => ⟨h.1, Or.inr ⟨old, hold, h.2⟩⟩

/-- Arrival at all successors of a block. -/
def spread (facts : Facts) (targets : List UInt64) (pass : Pass) : Pass :=
  targets.foldl (fun pass target => arrive facts pass target.toNat) pass

theorem grows_spread (facts : Facts) (targets : List UInt64) (pass : Pass) :
    pass.Grows (spread facts targets pass) := by
  induction targets generalizing pass with
  | nil => exact Grows.refl _
  | cons t targets ih => exact (grows_arrive facts pass t.toNat).1.trans (ih _)

theorem le_spread {facts : Facts} {targets : List UInt64} {pass : Pass} {t : UInt64}
    (ht : t ∈ targets) (hlt : t.toNat < pass.inflow.length) :
    ∃ known, (spread facts targets pass).inflow[t.toNat]? = some (some known) ∧ facts ≤ known := by
  induction targets generalizing pass with
  | nil => simp at ht
  | cons u targets ih =>
    obtain ⟨hgrows, harrive⟩ := grows_arrive facts pass u.toNat
    rcases List.mem_cons.1 ht with rfl | ht
    · obtain ⟨known, hknown, hle⟩ := harrive hlt
      obtain ⟨known', hknown', hle'⟩ := (grows_spread facts targets _).inflow _ _ hknown
      exact ⟨known', hknown', Facts.le_trans hle hle'⟩
    · exact ih ht (by rw [hgrows.size]; exact hlt)

theorem ledger_spread (facts : Facts) (targets : List UInt64) (pass : Pass) :
    (spread facts targets pass).ledger = pass.ledger := by
  induction targets generalizing pass with
  | nil => rfl
  | cons t targets ih => exact (ih _).trans (ledger_arrive facts pass t.toNat)

theorem outcome_spread (facts : Facts) (targets : List UInt64) (pass : Pass) :
    (spread facts targets pass).outcome = pass.outcome := by
  induction targets generalizing pass with
  | nil => rfl
  | cons t targets ih =>
    obtain ⟨inflow, pending, heq⟩ := arrive_eq facts pass t.toNat
    have harrive : (arrive facts pass t.toNat).outcome = pass.outcome := by rw [heq]
    exact (ih (arrive facts pass t.toNat)).trans harrive

theorem table_spread (facts : Facts) (targets : List UInt64) (pass : Pass) :
    (spread facts targets pass).table = pass.table :=
  congrArg Ledger.table (ledger_spread facts targets pass)

/-! ## §3 Whole passes -/

section
variable {program : Program} {model : CallModel} {summaries : Summaries} {function : Function}

/-- What comes out of a block from the facts it has now. -/
def leaving (program : Program) (model : CallModel) (summaries : Summaries) (function : Function)
    (pass : Pass) (k : Nat) (b : Block) : Stream :=
  b.instructions.foldl (Stream.advance program model summaries function)
    ⟨(pass.inflow[k]?.bind id).getD .empty, pass.outcome, pass.table⟩

/-- The pass with what a way through a block has found and written. -/
def record (pass : Pass) (s : Stream) : Pass := { pass with outcome := s.outcome, table := s.table }

theorem visit_of_block (pass : Pass) {k : Nat} {b : Block} (hb : function.blocks[k]? = some b) :
    visit program model summaries function pass k =
      spread (pass.leaving program model summaries function k b).facts b.successors
        (pass.record (pass.leaving program model summaries function k b)) := by
  unfold visit
  simp only [hb]
  rfl

theorem visit_of_no_block (pass : Pass) {k : Nat} (hb : function.blocks[k]? = none) :
    visit program model summaries function pass k = pass := by
  unfold visit
  simp only [hb]

/-- A visit goes through the block from the facts it has and spreads what comes out. -/
theorem visit_eq {pass : Pass} {k : Nat} {b : Block} {facts : Facts}
    (hb : function.blocks[k]? = some b) (hfacts : pass.inflow[k]? = some (some facts)) :
    visit program model summaries function pass k =
      let s := b.instructions.foldl (Stream.advance program model summaries function)
        ⟨facts, pass.outcome, pass.table⟩
      spread s.facts b.successors { pass with outcome := s.outcome, table := s.table } := by
  unfold visit
  simp only [hb, hfacts]
  rfl

/-- A property that every visit keeps holds at the end of a pass, when nothing is pending. -/
theorem sweep_invariant {I : Pass → Prop}
    (hvisit : ∀ (pass : Pass) (k : Nat) (rest : List Nat), I pass → pass.pending = k :: rest →
      I (visit program model summaries function { pass with pending := rest } k))
    {budget left : Nat} {pass final : Pass}
    (hsweep : sweep program model summaries function budget pass = some (left, final))
    (hpass : I pass) : I final ∧ final.pending = [] := by
  induction budget generalizing pass with
  | zero =>
    unfold sweep at hsweep
    split at hsweep
    · next hempty =>
      cases hsweep
      exact ⟨hpass, List.isEmpty_iff.1 hempty⟩
    · cases hsweep
  | succ budget ih =>
    unfold sweep at hsweep
    split at hsweep
    · next hnil =>
      cases hsweep
      exact ⟨hpass, hnil⟩
    · next k rest hpending => exact ih hsweep (hvisit pass k rest hpass hpending)

variable (program model summaries function) in
/-- Nothing that a visit finds in the pass is lost: neither what was found nor what was written. -/
theorem keeps_visit (pass : Pass) (k : Nat) :
    pass.outcome.Below (visit program model summaries function pass k).outcome ∧
      pass.table ≤ (visit program model summaries function pass k).table := by
  cases hb : function.blocks[k]? with
  | none =>
    rw [visit_of_no_block pass hb]
    exact ⟨Outcome.Below.refl _, Table.le_refl _⟩
  | some b =>
    rw [visit_of_block pass hb, outcome_spread, table_spread]
    exact Stream.keeps_run program model summaries function b.instructions
      ⟨(pass.inflow[k]?.bind id).getD .empty, pass.outcome, pass.table⟩

theorem keeps_sweep {budget left : Nat} {pass final : Pass}
    (hsweep : sweep program model summaries function budget pass = some (left, final)) :
    pass.outcome.Below final.outcome ∧ pass.table ≤ final.table := by
  refine (sweep_invariant
    (I := fun next => pass.outcome.Below next.outcome ∧ pass.table ≤ next.table) ?_ hsweep
    ⟨Outcome.Below.refl _, Table.le_refl _⟩).1
  intro next k rest hnext _
  obtain ⟨houtcome, htable⟩ := keeps_visit program model summaries function
    { next with pending := rest } k
  exact ⟨hnext.1.trans houtcome, Table.le_trans hnext.2 htable⟩

/-- A pass calls into nothing but what its code enters. -/
theorem calls_sweep {P : String → Prop}
    (hcode : ∀ i ∈ function.instructions, ∀ e, program.entering? i = some e → P e.target.name)
    {budget left : Nat} {pass final : Pass} (hpass : ∀ n ∈ pass.outcome.calls.keys, P n)
    (hsweep : sweep program model summaries function budget pass = some (left, final)) :
    ∀ n ∈ final.outcome.calls.keys, P n := by
  refine (sweep_invariant (I := fun pass => ∀ n ∈ pass.outcome.calls.keys, P n)
    ?_ hsweep hpass).1
  intro pass k rest hpass _
  cases hb : function.blocks[k]? with
  | none =>
    rw [visit_of_no_block _ hb]
    exact hpass
  | some b =>
    have hblock : ∀ i ∈ b.instructions, ∀ e, program.entering? i = some e → P e.target.name :=
      fun i hi => hcode i (List.mem_flatMap.2 ⟨b, List.mem_of_getElem? hb, hi⟩)
    -- the calls of a visit are those of the run through its block
    rw [visit_of_block _ hb, outcome_spread]
    exact Stream.calls_run hblock hpass

end

/-! ## §4 Settled blocks -/

/-- The facts have arrived at every successor of a block. -/
def Arrived (inflow : List (Option Facts)) (b : Block) (facts : Facts) : Prop :=
  ∀ t ∈ b.successors, ∃ known, inflow[t.toNat]? = some (some known) ∧ facts ≤ known

/-- A pass over `function` from the facts `entry` and the table `table`: what has been reached and
is not pending is settled, and every new cell comes from a visit that has been taken in. -/
structure Closed (program : Program) (model : CallModel) (summaries : Summaries)
    (function : Function) (entry : Facts) (table : Table) (pass : Pass) : Prop where
  size : pass.inflow.length = function.blocks.length
  entered : ∃ facts, pass.inflow[0]? = some (some facts) ∧ entry ≤ facts
  reached : ∀ k ∈ pass.pending, ∃ facts, pass.inflow[k]? = some (some facts)
  settled : ∀ (k : Nat) (b : Block) (facts : Facts), function.blocks[k]? = some b →
    pass.inflow[k]? = some (some facts) → k ∉ pass.pending →
    Along program model summaries
      (Recorded pass.ledger program function (Arrived pass.inflow b)) b.instructions facts
  kept : table ≤ pass.table
  cells : ∀ (id : InstId) (v : ValueId) (σ : State), pass.table.get? id v = some σ →
    table.get? id v = some σ ∨
      ∃ (k : Nat) (b : Block) (i : Instruction) (rest : List Instruction) (facts : Facts),
        function.blocks[k]? = some b ∧ i :: rest <:+ b.instructions ∧ i.id = id ∧
        Along program model summaries
          (Recorded pass.ledger program function (Arrived pass.inflow b)) (i :: rest) facts ∧
        facts.get? v = some σ

@[simp]
theorem mem_pending_start {blocks k : Nat} {entry : Facts} {table : Table} :
    k ∈ (start blocks entry table).pending ↔ k = 0 := by
  simp [start]

/-- At the start the first block has the facts on entry, and no other block has any. -/
theorem inflow_start {blocks k : Nat} {entry facts : Facts} {table : Table} (h : 0 < blocks) :
    (start blocks entry table).inflow[k]? = some (some facts) ↔ k = 0 ∧ facts = entry := by
  cases k with
  | zero => simp [start, h, eq_comm]
  | succ k => simp [start, List.getElem?_replicate]

section
variable {program : Program} {model : CallModel} {summaries : Summaries} {function : Function}
variable {entry : Facts} {table : Table}

theorem closed_start (hbody : 0 < function.blocks.length) :
    Closed program model summaries function entry table
      (start function.blocks.length entry table) where
  size := by simp [start]
  entered := ⟨entry, (inflow_start hbody).2 ⟨rfl, rfl⟩, Facts.le_refl _⟩
  reached := fun k hk => ⟨entry, (inflow_start hbody).2 ⟨mem_pending_start.1 hk, rfl⟩⟩
  settled := by
    -- only the first block has facts, and it is pending
    intro k b facts _ hfacts hpending
    exact absurd (mem_pending_start.2 ((inflow_start hbody).1 hfacts).1) hpending
  kept := Table.le_refl _
  cells := fun _ _ _ h => Or.inl h

/-- **One visit keeps everything settled.** -/
theorem closed_visit
    (hrange : ∀ b ∈ function.blocks, ∀ t ∈ b.successors, t.toNat < function.blocks.length)
    {pass : Pass} {k : Nat} {rest : List Nat}
    (h : Closed program model summaries function entry table pass)
    (hpending : pass.pending = k :: rest) :
    Closed program model summaries function entry table
      (visit program model summaries function { pass with pending := rest } k) := by
  obtain ⟨facts, hfacts⟩ := h.reached k (hpending ▸ List.mem_cons_self ..)
  have hk : k < function.blocks.length := h.size ▸ (List.getElem?_eq_some_iff.1 hfacts).1
  have hb : function.blocks[k]? = some function.blocks[k] := List.getElem?_eq_getElem hk
  generalize function.blocks[k] = b at hb
  have hfacts' : ({ pass with pending := rest } : Pass).inflow[k]? = some (some facts) := hfacts
  rw [visit_eq hb hfacts']
  -- `s` is what comes out of the block, `mid` the pass with it written down
  let s := b.instructions.foldl (Stream.advance program model summaries function)
    ⟨facts, pass.outcome, pass.table⟩
  let mid : Pass := ⟨pass.inflow, rest, s.outcome, s.table⟩
  show Closed program model summaries function entry table (spread s.facts b.successors mid)
  have hgrows : mid.Grows (spread s.facts b.successors mid) := grows_spread _ _ _
  have hledger : (spread s.facts b.successors mid).ledger = s.ledger := ledger_spread _ _ _
  have hbelow : pass.ledger.Below program (spread s.facts b.successors mid).ledger := by
    rw [hledger]
    exact Stream.below_run b.instructions ⟨facts, pass.outcome, pass.table⟩
  have hforward : ∀ b' facts, Arrived pass.inflow b' facts →
      Arrived (spread s.facts b.successors mid).inflow b' facts := by
    intro b' facts harrived t ht
    obtain ⟨known, hknown, hle⟩ := harrived t ht
    obtain ⟨known', hknown', hle'⟩ := hgrows.inflow _ _ hknown
    exact ⟨known', hknown', Facts.le_trans hle hle'⟩
  have hvisited : Along program model summaries
      (Recorded (spread s.facts b.successors mid).ledger program function
        (Arrived (spread s.facts b.successors mid).inflow b)) b.instructions facts := by
    refine Stream.recorded_run b.instructions ⟨facts, pass.outcome, pass.table⟩ ?_ ?_
    · rw [hledger]
      exact Ledger.Below.refl _
    · intro t ht
      refine le_spread ht ?_
      show t.toNat < pass.inflow.length
      rw [h.size]
      exact hrange b (List.mem_of_getElem? hb) t ht
  refine ⟨?_, ?_, ?_, ?_, ?_, ?_⟩
  · exact hgrows.size.trans h.size
  · obtain ⟨first, hfirst, hle⟩ := h.entered
    obtain ⟨first', hfirst', hle'⟩ := hgrows.inflow 0 first hfirst
    exact ⟨first', hfirst', Facts.le_trans hle hle'⟩
  · apply hgrows.reached_of
    exact fun l hl => h.reached l (hpending ▸ List.mem_cons_of_mem _ hl)
  · intro l b' facts' hb' hnew hl
    -- facts that are not pending have not changed: they are those just visited or older ones
    have hold : pass.inflow[l]? = some (some facts') := (hgrows.changed l facts' hnew).resolve_left hl
    by_cases hlk : l = k
    · subst hlk
      rw [hfacts] at hold
      cases hold
      rw [hb] at hb'
      cases hb'
      exact hvisited
    · have hl' : l ∉ pass.pending := by
        rw [hpending, List.mem_cons, not_or]
        exact ⟨hlk, fun hmem => hl (hgrows.pending l hmem)⟩
      exact (h.settled l b' facts' hb' hold hl').mono
        fun _ _ => Recorded.mono hbelow (hforward b')
  · exact Table.le_trans h.kept hbelow.table
  · -- a cell is old, or an earlier visit has written it, or this one
    intro id v σ hcell
    have htable : (spread s.facts b.successors mid).table = s.table := congrArg Ledger.table hledger
    rw [htable] at hcell
    rcases Stream.cell_run b.instructions _ hvisited hcell with hold | hnew
    · rcases h.cells id v σ hold with hold | ⟨l, b', i, behind, facts', hb', hsuffix, hid, hpoint, hv⟩
      · exact Or.inl hold
      · exact Or.inr ⟨l, b', i, behind, facts', hb', hsuffix, hid,
          hpoint.mono fun _ _ => Recorded.mono hbelow (hforward b'), hv⟩
    · obtain ⟨i, behind, facts', hsuffix, hid, hpoint, hv⟩ := hnew
      exact Or.inr ⟨k, b, i, behind, facts', hb, hsuffix, hid, hpoint, hv⟩

/-- **When a pass ends, every reached block is settled.** -/
theorem closed_of_sweep
    (hrange : ∀ b ∈ function.blocks, ∀ t ∈ b.successors, t.toNat < function.blocks.length)
    (hbody : 0 < function.blocks.length) {budget left : Nat} {final : Pass}
    (hsweep : sweep program model summaries function budget
      (start function.blocks.length entry table) = some (left, final)) :
    Closed program model summaries function entry table final ∧ final.pending = [] :=
  sweep_invariant (fun _ _ _ h hpending => closed_visit hrange h hpending) hsweep
    (closed_start hbody)

end

end Pass

end Typestate
