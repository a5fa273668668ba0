import Typestate.Proofs.Closure
import Typestate.Proofs.Rounds
import Typestate.Proofs.Termination

/-!
# Knowledge never shrinks

The transfer of an instruction is not monotone, and it may lower the state of a value: what a call
produces and what a body returns replace what was there. Everything that is written down grows
nevertheless. This module says so at three distances: for the facts on the two sides of one
instruction, for a pass from visit to visit, and for a run from round to round.

## Contents

- §1 One instruction
- §2 Visits of a pass
- §3 Rounds of a run
-/

namespace Typestate

/-! ## §1 Instructions -/

namespace CallModel

/-- The call is looked at and produces `v`. -/
def Produces (m : CallModel) (callee : String) (args : List ValueId) (result : Option ValueId)
    (v : ValueId) : Prop :=
  m.observes callee = true ∧ (m.info callee).isFactory = true ∧
    ∃ p ∈ FiniteSet.toList (m.info callee).outputs, target? args result p = some v

variable (m : CallModel) (callee : String) (args : List ValueId) (result : Option ValueId)

theorem le_consumeOne (v : ValueId) (o : Observation) (p : Position) :
    o ≤ m.consumeOne callee args v o p := by
  unfold consumeOne
  split
  · cases o with
    | none => simp
    | some s => exact Option.some_le_some.2 (Token.le_step m.mode _ s)
  · exact Observation.le_refl o

/-- A call does not lower the state of a value that it does not produce. -/
theorem le_effect {v : ValueId} (h : ¬ m.Produces callee args result v) (o : Observation) :
    o ≤ m.effect callee args result v o := by
  unfold effect
  split
  · next hobserves =>
    -- a consumed position moves the state on, and no step of the automaton leads back
    have hconsume : o ≤ (FiniteSet.toList (m.info callee).consumers).foldl
        (m.consumeOne callee args v) o := by
      refine List.foldlRecOn (motive := fun x => o ≤ x) _ _ (Observation.le_refl o) ?_
      exact fun x hx p _ => Observation.le_trans hx (m.le_consumeOne callee args v x p)
    simp only
    split
    · next hfactory =>
      -- a produced position would set the state anew, but none of them stands for `v`
      refine List.foldlRecOn (motive := fun x => o ≤ x) _ _ hconsume fun x hx p hp => ?_
      rw [produceOne, if_neg fun hv => h ⟨hobserves, hfactory, p, hp, hv⟩]
      exact hx
    · exact hconsume
  · exact Observation.le_refl o

/-- A call leaves every tracked value tracked. -/
theorem isSome_effect_of_isSome (v : ValueId) {o : Observation} (h : o.isSome = true) :
    (m.effect callee args result v o).isSome = true := by
  by_cases htouches : m.Touches callee args result v
  · exact m.isSome_effect callee args result htouches o
  · rw [m.effect_of_not_touches callee args result htouches]
    exact h

end CallModel

/-- The instruction may give `v` a state that does not depend on the one it had: it is the result of
a call into a body, or a call produces it. -/
def Instruction.Replaces (program : Program) (model : CallModel) (i : Instruction) (v : ValueId) :
    Prop :=
  match program.entering? i with
  | some e => e.result = some v
  | none =>
    match i.op with
    | .call callee args result => model.Produces callee args result v
    | .ret _ | .other _ => False

section
variable {program : Program} {model : CallModel}

theorem isSome_flow (summaries : Summaries) (i : Instruction) {facts : Facts} {v : ValueId}
    (h : (facts.get? v).isSome = true) :
    ((flow program model summaries i facts).get? v).isSome = true := by
  cases he : program.entering? i with
  | some e =>
    rw [flow_of_entering he]
    -- a returned state takes the place of another one, and never leaves it empty
    exact e.isSome_resume _ (Observation.isSome_of_le (le_readBack _ e.pairs facts v) h)
  | none =>
    rw [flow_of_not_entering he]
    unfold CallModel.through
    cases i.op with
    | call callee args result =>
      show ((model.apply callee args result facts).get? v).isSome = true
      rw [CallModel.get?_apply]
      exact model.isSome_effect_of_isSome callee args result v h
    | ret value => exact h
    | other text => exact h

/-- An instruction lowers no state but of values that it replaces. -/
theorem le_flow_of_not_replaces (summaries : Summaries) {i : Instruction} {v : ValueId}
    (h : ¬ i.Replaces program model v) (facts : Facts) :
    facts.get? v ≤ (flow program model summaries i facts).get? v := by
  unfold Instruction.Replaces at h
  cases he : program.entering? i with
  | some e =>
    rw [he] at h
    -- behind a body only the bound result may be lower
    rw [flow_of_entering he]
    exact e.le_resume h _ _ _
  | none =>
    rw [he] at h
    rw [flow_of_not_entering he]
    unfold CallModel.through
    cases hop : i.op with
    | call callee args result =>
      rw [hop] at h
      show facts.get? v ≤ (model.apply callee args result facts).get? v
      -- behind any other call only what it produces may be
      rw [CallModel.get?_apply]
      exact model.le_effect callee args result h _
    | ret value => exact Observation.le_refl _
    | other text => exact Observation.le_refl _

end

/-! ## §2 Visits -/

namespace Pass

/-- Nothing that `pass` has is lost in `pass'`: facts on entry to blocks, what has been found, and
cells of the table. -/
structure Below (pass pass' : Pass) : Prop where
  inflow : ∀ (k : Nat) (facts : Facts), pass.inflow[k]? = some (some facts) →
    ∃ facts', pass'.inflow[k]? = some (some facts') ∧ facts ≤ facts'
  outcome : pass.outcome.Below pass'.outcome
  table : pass.table ≤ pass'.table

theorem Below.refl (pass : Pass) : pass.Below pass where
  inflow := fun _ facts h => ⟨facts, h, Facts.le_refl _⟩
  outcome := Outcome.Below.refl _
  table := Table.le_refl _

theorem Below.trans {a b c : Pass} (h : a.Below b) (h' : b.Below c) : a.Below c where
  inflow := by
    intro k facts hk
    obtain ⟨facts', hk', hle⟩ := h.inflow k facts hk
    obtain ⟨facts'', hk'', hle'⟩ := h'.inflow k facts' hk'
    exact ⟨facts'', hk'', Facts.le_trans hle hle'⟩
  outcome := h.outcome.trans h'.outcome
  table := Table.le_trans h.table h'.table

section
variable (program : Program) (model : CallModel) (summaries : Summaries) (function : Function)

/-- The pass after the visit that is due first; nothing when none is due. -/
def next? (pass : Pass) : Option Pass :=
  match pass.pending with
  | [] => none
  | k :: rest => some (visit program model summaries function { pass with pending := rest } k)

variable {program model summaries function}

theorem next?_eq_some_iff {pass pass' : Pass} :
    next? program model summaries function pass = some pass' ↔
      ∃ k rest, pass.pending = k :: rest ∧
        pass' = visit program model summaries function { pass with pending := rest } k := by
  unfold next?
  split
  · next h => simp [h]
  · next k rest h => simp [h, eq_comm]

theorem inflow_visit (pass : Pass) (k : Nat) {l : Nat} {facts : Facts}
    (h : pass.inflow[l]? = some (some facts)) :
    ∃ facts', (visit program model summaries function pass k).inflow[l]? = some (some facts') ∧
      facts ≤ facts' := by
  cases hb : function.blocks[k]? with
  | none =>
    rw [visit_of_no_block pass hb]
    exact ⟨facts, h, Facts.le_refl _⟩
  | some b =>
    -- going through the block touches no facts of blocks, arriving at the successors adds to them
    rw [visit_of_block pass hb]
    exact (grows_spread _ _ _).inflow l facts h

theorem below_next {pass pass' : Pass}
    (h : next? program model summaries function pass = some pass') : pass.Below pass' := by
  obtain ⟨k, rest, -, rfl⟩ := next?_eq_some_iff.1 h
  obtain ⟨houtcome, htable⟩ := keeps_visit program model summaries function
    { pass with pending := rest } k
  exact ⟨fun _ _ hfacts => inflow_visit _ k hfacts, houtcome, htable⟩

/-- A pass goes on from where a number of its visits have led. -/
theorem sweep_of_afterSteps {n : Nat} {pass pass' : Pass}
    (h : afterSteps (next? program model summaries function) n pass = some pass') (budget : Nat) :
    sweep program model summaries function (budget + n) pass =
      sweep program model summaries function budget pass' := by
  induction n generalizing pass with
  | zero =>
    obtain rfl : pass = pass' := Option.some.inj h
    rfl
  | succ n ih =>
    obtain ⟨mid, hmid, hrest⟩ := Option.bind_eq_some_iff.1 h
    obtain ⟨k, rest, hpending, rfl⟩ := next?_eq_some_iff.1 hmid
    rw [← Nat.add_assoc, sweep_succ_of_cons hpending]
    exact ih hrest

end

end Pass

/-! ## §3 Rounds -/

namespace Propagation

/-- At least as much is known of every function, and no cell of the table is lost or lowered. -/
structure Below (p p' : Propagation) : Prop where
  summary : ∀ name, p.summary name ≤ p'.summary name
  table : p.table ≤ p'.table

theorem Below.refl (p : Propagation) : p.Below p :=
  ⟨fun _ => Summary.le_refl _, Table.le_refl _⟩

theorem Below.trans {a b c : Propagation} (h : a.Below b) (h' : b.Below c) : a.Below c :=
  ⟨fun name => Summary.le_trans (h.summary name) (h'.summary name), Table.le_trans h.table h'.table⟩

variable {program : Program} {model : CallModel}

/-- **A round loses nothing.** -/
theorem below_next {head head' : Head} (h : head.next? program model = some head') :
    head.state.Below head'.state := by
  obtain ⟨budget, name, rest, f, left, pass, -, hworklist, -, hsweep, rfl⟩ :=
    Head.next?_eq_some_iff.1 h
  have hkept : head.state.table ≤ pass.table := (Pass.keeps_sweep hsweep).2
  have habsorbed := absorbed_absorb program { head.state with worklist := rest } name pass.outcome
    pass.table
  have hledger := ledger_below_of_absorbed hworklist habsorbed hkept
  refine ⟨fun n => ⟨?_, (hledger n).exit, (hledger n).ret⟩, (hledger name).table⟩
  -- what is passed to a callee is joined to what was passed before
  rw [habsorbed.entry]
  exact Facts.le_join_left _ _

/-- **Knowledge never shrinks.** Between any two heads of a run all summaries and all cells of the
table grow; between any two visits of a pass the facts on entry to blocks and all that the pass has
found grow; and an instruction keeps every value tracked and lowers the state of none but those it
replaces. The heads are those of the run, and the visits those of the pass. -/
theorem knowledge_never_shrinks (program : Program) (model : CallModel) :
    (∀ (n : Nat) (head head' : Head),
      afterSteps (Head.next? program model) n head = some head' →
        head.state.Below head'.state ∧
          run program model head.budget head.state = run program model head'.budget head'.state) ∧
    (∀ (summaries : Summaries) (function : Function) (n : Nat) (pass pass' : Pass),
      afterSteps (Pass.next? program model summaries function) n pass = some pass' →
        pass.Below pass' ∧
          ∀ budget, Pass.sweep program model summaries function (budget + n) pass =
            Pass.sweep program model summaries function budget pass') ∧
    (∀ (summaries : Summaries) (function : Function) (i : Instruction) (facts : Facts)
      (outcome : Outcome) (v : ValueId),
      let after := (transfer program model summaries function i facts outcome).1
      ((facts.get? v).isSome = true → (after.get? v).isSome = true) ∧
        (¬ i.Replaces program model v → facts.get? v ≤ after.get? v)) := by
  refine ⟨?_, ?_, ?_⟩
  · intro n head head' h
    -- growth over one step is growth over any number of them
    have hbelow : head.state.Below head'.state :=
      afterSteps_rel (R := fun a b : Head => a.state.Below b.state)
        (fun a => Below.refl a.state) (fun _ _ _ => Below.trans) (fun _ _ => below_next) h
    exact ⟨hbelow, Head.run_of_afterSteps h⟩
  · intro summaries function n pass pass' h
    have hbelow : pass.Below pass' :=
      afterSteps_rel Pass.Below.refl (fun _ _ _ => Pass.Below.trans) (fun _ _ => Pass.below_next) h
    exact ⟨hbelow, Pass.sweep_of_afterSteps h⟩
  · intro summaries function i facts outcome v
    simp only [transfer_fst]
    exact ⟨isSome_flow summaries i, fun h => le_flow_of_not_replaces summaries h facts⟩

/-- Under mutual recursion a cell rises from raw to used after free between two heads, and a visit of
`ping` reaches its second block. -/
theorem knowledge_of_bouncing :
    let model : CallModel := .small .full .factory
    (∃ head head', afterSteps (Head.next? bouncing model) 2 (Head.start bouncing 100 ["ping"]) =
        some head ∧ afterSteps (Head.next? bouncing model) 2 head = some head' ∧
      head.state.table.get? ⟨0⟩ ⟨0⟩ = some .rawReferenced ∧
      head'.state.table.get? ⟨0⟩ ⟨0⟩ = some .useAfterFree ∧ head.state.Below head'.state) ∧
    (∃ pass pass', Pass.start 2 .empty .empty = pass ∧
      afterSteps (Pass.next? bouncing model .empty ping) 1 pass = some pass' ∧
      pass.inflow[1]? = some none ∧ (pass'.inflow[1]?.join).isSome = true ∧ pass.Below pass') ∧
    ∃ facts : Facts, facts.get? ⟨0⟩ = some .rawReferenced ∧
      facts.get? ⟨0⟩ ≤ (transfer bouncing model .empty ping ⟨⟨9⟩, .call "release" [⟨0⟩] none⟩ facts
        .empty).1.get? ⟨0⟩ := by
  intro model
  obtain ⟨hrounds, hvisits, htransfer⟩ := knowledge_never_shrinks bouncing model
  refine ⟨?_, ?_, ?_⟩
  · -- the two heads are found by running four rounds
    have heval : ((afterSteps (Head.next? bouncing model) 2 (Head.start bouncing 100 ["ping"])).bind
        fun head => (afterSteps (Head.next? bouncing model) 2 head).map fun head' =>
          (head.state.table.get? ⟨0⟩ ⟨0⟩, head'.state.table.get? ⟨0⟩ ⟨0⟩)) =
        some (some .rawReferenced, some .useAfterFree) := by decide +kernel
    obtain ⟨head, hhead, heval⟩ := Option.bind_eq_some_iff.1 heval
    obtain ⟨head', hhead', hcells⟩ := Option.map_eq_some_iff.1 heval
    obtain ⟨hcell, hcell'⟩ := Prod.mk.inj hcells
    exact ⟨head, head', hhead, hhead', hcell, hcell', (hrounds 2 head head' hhead').1⟩
  · have heval : (afterSteps (Pass.next? bouncing model .empty ping) 1
        (Pass.start 2 .empty .empty)).map (fun pass' => (pass'.inflow[1]?.join).isSome) =
        some true := by decide +kernel
    obtain ⟨pass', hpass', hreached⟩ := Option.map_eq_some_iff.1 heval
    exact ⟨_, pass', rfl, hpass', by decide, hreached, (hvisits .empty ping 1 _ pass' hpass').1⟩
  · refine ⟨FiniteMap.ofList [(⟨0⟩, .rawReferenced)], by decide, ?_⟩
    refine (htransfer .empty ping _ _ .empty ⟨0⟩).2 ?_
    -- the release produces nothing
    intro hreplaces
    have hproduces : model.Produces "release" [⟨0⟩] none ⟨0⟩ := hreplaces
    exact absurd hproduces.2.1 (by decide +kernel)

end Propagation

end Typestate
