import Typestate.Proofs.Budget
import Typestate.Proofs.Renaming

/-!
# Two solvers in step

A solver looks at a program by entering bodies, at a model by applying it to calls that enter none,
and at identities by looking them up. Two runs whose programs and models agree in that respect on all
names that can come up go through corresponding states, visit by visit and round by round, and use up
the same budget.

## Contents

- §1 `Mirrors`: programs and models that a solver cannot tell apart
- §2 One instruction
- §3 One pass
- §4 One round
- §5 Whole runs
-/

namespace Typestate

/-! ## §1 Mirrored programs -/

/-- Some body with a name in `K` calls `callee`. -/
def Program.CalledFrom (program : Program) (K : String → Prop) (callee : String) : Prop :=
  ∃ f i, K f.name ∧ program.body? f.name = some f ∧ i ∈ f.instructions ∧ i.callee? = some callee

/-- On the names in `K`, which calls from their bodies do not lead out of, the second program has the
renamed bodies of the first, and the second model treats calls to anything else alike. -/
structure Mirrors (ρ : Renaming) (K : String → Prop) (program : Program) (model : CallModel)
    (program' : Program) (model' : CallModel) : Prop where
  body : ∀ n, K n → program'.body? n = (program.body? n).map (Function.rename ρ)
  callees : ∀ callee, program.CalledFrom K callee → K callee
  calls : ∀ callee, program.CalledFrom K callee → program.body? callee = none →
    model'.apply callee = model.apply callee

/-- Models treat a call alike when they observe it, classify it and step states at it alike. -/
theorem CallModel.apply_congr {m m' : CallModel} {callee : String}
    (hcoverage : m'.coverage = m.coverage) (hinfo : m'.info callee = m.info callee)
    (hnext : m'.next callee = m.next callee) : m'.apply callee = m.apply callee := by
  have hobserves : m'.observes callee = m.observes callee := by
    unfold observes
    rw [hcoverage, hinfo]
  have hconsume : m'.consume callee = m.consume callee := by
    unfold consume
    rw [hnext]
  have hproduce : m'.produce callee = m.produce callee := by
    unfold produce
    rw [hnext]
  unfold apply
  rw [hobserves, hinfo, hconsume, hproduce]

section
variable (ρ : Renaming)

def Summary.rename (s : Summary) : Summary :=
  ⟨s.entry.mapKeys ρ.value, s.exit.mapKeys ρ.value, s.ret⟩

/-- Whether a summary has grown can be told from the renamed ones. -/
theorem Summary.rename_injective : Function.Injective (Summary.rename ρ) := by
  rintro ⟨entry, exit, ret⟩ ⟨entry', exit', ret'⟩ h
  obtain ⟨hentry, hexit, hret⟩ := Summary.mk.inj h
  obtain rfl := FiniteMap.mapKeys_injective ρ.value_injective hentry
  obtain rfl := FiniteMap.mapKeys_injective ρ.value_injective hexit
  obtain rfl := hret
  rfl

def Summaries.rename (summaries : Summaries) : Summaries :=
  FiniteMap.mapValues (Summary.rename ρ) summaries

def Outcome.rename (outcome : Outcome) : Outcome :=
  ⟨outcome.exit.mapKeys ρ.value, outcome.ret,
    outcome.calls.mapValues (FiniteMap.mapKeys ρ.value)⟩

def Pass.Stream.rename (s : Pass.Stream) : Pass.Stream :=
  ⟨s.facts.mapKeys ρ.value, s.outcome.rename ρ, s.table.rename ρ⟩

def Pass.rename (pass : Pass) : Pass :=
  ⟨pass.inflow.map (Option.map (FiniteMap.mapKeys ρ.value)), pass.pending,
    pass.outcome.rename ρ, pass.table.rename ρ⟩

def Propagation.rename (p : Propagation) : Propagation :=
  { p with
    summaries := Summaries.rename ρ p.summaries
    table := p.table.rename ρ }

end

variable {ρ : Renaming} {K : String → Prop} {program program' : Program}
variable {model model' : CallModel}

/-! ## §2 One instruction -/

/-- Entering a body treats renamed values alike: what is passed to it, read back and bound. -/
theorem descend_rename (summaries : Summaries) (target : Function) (args : List ValueId)
    (result : Option ValueId) (facts : Facts) (outcome : Outcome) :
    descend (Summaries.rename ρ summaries) (target.rename ρ) (args.map ρ.value)
        (result.map ρ.value) (facts.mapKeys ρ.value) (outcome.rename ρ) =
      Prod.map (FiniteMap.mapKeys ρ.value) (Outcome.rename ρ)
        (descend summaries target args result facts outcome) := by
  have hpairs : (args.map ρ.value).zip (target.rename ρ).params =
      (args.zip target.params).map (Prod.map ρ.value ρ.value) := List.zip_map
  have hcalls : ((outcome.rename ρ).calls.alter target.name fun passed =>
        passArguments (facts.mapKeys ρ.value)
          ((args.zip target.params).map (Prod.map ρ.value ρ.value)) (passed.getD .empty)) =
      (outcome.calls.alter target.name fun passed =>
        passArguments facts (args.zip target.params) (passed.getD .empty)).mapValues
          (FiniteMap.mapKeys ρ.value) := by
    apply FiniteMap.mapValues_alter
    intro passed
    rw [← passArguments_mapKeys]
    -- earlier calls may have passed nothing, which is renamed to nothing
    cases passed <;> rfl
  unfold descend
  simp only [hpairs, Function.name_rename, hcalls]
  rw [Summaries.rename, FiniteMap.get?_mapValues]
  cases FiniteMap.get? summaries target.name with
  | none => rfl
  | some summary =>
    simp only [Option.map_some, Summary.rename, readBack_mapKeys, bindResult_mapKeys]
    rfl

theorem Program.callee?_of_entering {i : Instruction} {e : Entering}
    (h : program.entering? i = some e) : i.callee? = some e.target.name := by
  unfold entering? at h
  split at h
  · next callee args result hop =>
    obtain ⟨f, hf, rfl⟩ := Option.map_eq_some_iff.1 h
    simp only [Instruction.callee?, hop, name_of_body? hf]
  · cases h

/-- The callees of `i` are called from a body with a name in `K`. -/
def Instruction.CalledFrom (program : Program) (K : String → Prop) (i : Instruction) : Prop :=
  ∀ callee, i.callee? = some callee → program.CalledFrom K callee

namespace Mirrors

variable (h : Mirrors ρ K program model program' model')
include h

/-- An instruction has corresponding effects on corresponding facts and outcomes. -/
theorem transfer {i : Instruction} (hi : i.CalledFrom program K) (summaries : Summaries)
    (f : Function) (facts : Facts) (outcome : Outcome) :
    transfer program' model' (Summaries.rename ρ summaries) (f.rename ρ) (i.rename ρ)
        (facts.mapKeys ρ.value) (outcome.rename ρ) =
      Prod.map (FiniteMap.mapKeys ρ.value) (Outcome.rename ρ)
        (transfer program model summaries f i facts outcome) := by
  obtain ⟨id, op⟩ := i
  cases op with
  | call callee args result =>
    have hcalled := hi callee rfl
    have hbody := h.body callee (h.callees callee hcalled)
    simp only [Typestate.transfer, Instruction.rename, Op.rename, hbody]
    cases hnone : program.body? callee with
    | none =>
      simp only [Option.map_none, h.calls callee hcalled hnone, CallModel.apply_mapKeys]
      rfl
    | some target => exact descend_rename summaries target args result facts outcome
  | ret value =>
    simp only [Typestate.transfer, Instruction.rename, Op.rename, Function.rename, Outcome.rename,
      recordExit_mapKeys, recordReturn_mapKeys]
    rfl
  | other text => rfl

theorem advance {i : Instruction} (hi : i.CalledFrom program K) (summaries : Summaries)
    (f : Function) (s : Pass.Stream) :
    (s.rename ρ).advance program' model' (Summaries.rename ρ summaries) (f.rename ρ) (i.rename ρ) =
      (s.advance program model summaries f i).rename ρ := by
  unfold Pass.Stream.advance Pass.Stream.rename
  simp only [h.transfer hi, Prod.map_fst, Prod.map_snd]
  exact congrArg _ (Table.joinRow_rename ρ s.table i.id s.facts)

/-! ## §3 One pass -/

/-- So has a run of instructions, and it writes corresponding rows. -/
theorem stream (summaries : Summaries) (f : Function) {is : List Instruction}
    (his : ∀ i ∈ is, i.CalledFrom program K) (s : Pass.Stream) :
    (is.map (Instruction.rename ρ)).foldl
        (Pass.Stream.advance program' model' (Summaries.rename ρ summaries) (f.rename ρ))
        (s.rename ρ) =
      (is.foldl (Pass.Stream.advance program model summaries f) s).rename ρ := by
  induction is generalizing s with
  | nil => rfl
  | cons i is ih =>
    rw [List.map_cons, List.foldl_cons, List.foldl_cons, h.advance (his i (List.mem_cons_self ..))]
    exact ih (fun j hj => his j (List.mem_cons_of_mem _ hj)) _

end Mirrors

section
variable (ρ)

theorem schedule_rename (pass : Pass) (block : Nat) :
    (pass.rename ρ).schedule block = (pass.schedule block).rename ρ := by
  unfold Pass.schedule Pass.rename
  simp only
  split <;> rfl

theorem set_rename (pass : Pass) (block : Nat) (facts : Facts) :
    { pass.rename ρ with
      inflow := (pass.rename ρ).inflow.set block (some (facts.mapKeys ρ.value)) } =
    ({ pass with inflow := pass.inflow.set block (some facts) } : Pass).rename ρ := by
  simp only [Pass.rename, List.map_set, Option.map_some]

/-- Facts that arrive at a block change what is known there in both passes or in neither. -/
theorem arrive_rename (facts : Facts) (pass : Pass) (block : Nat) :
    Pass.arrive (facts.mapKeys ρ.value) (pass.rename ρ) block =
      (Pass.arrive facts pass block).rename ρ := by
  have hinflow : (pass.rename ρ).inflow[block]? =
      pass.inflow[block]?.map (Option.map (FiniteMap.mapKeys ρ.value)) := List.getElem?_map
  unfold Pass.arrive
  rw [hinflow]
  rcases pass.inflow[block]? with _ | _ | old
  · rfl
  · simp only [Option.map_some, Option.map_none, set_rename, schedule_rename]
  · simp only [Option.map_some, Facts.join_mapKeys, set_rename, schedule_rename]
    -- facts grow after the renaming exactly when they do before it
    by_cases hjoin : Facts.join old facts = old
    · rw [if_pos hjoin, if_pos (congrArg (FiniteMap.mapKeys ρ.value) hjoin)]
    · rw [if_neg hjoin, if_neg fun h => hjoin (FiniteMap.mapKeys_injective ρ.value_injective h)]

theorem spread_rename (facts : Facts) (targets : List UInt64) (pass : Pass) :
    Pass.spread (facts.mapKeys ρ.value) targets (pass.rename ρ) =
      (Pass.spread facts targets pass).rename ρ :=
  List.foldl_hom (Pass.rename ρ) fun pass target => arrive_rename ρ facts pass target.toNat

theorem start_rename (blocks : Nat) (entry : Facts) (table : Table) :
    Pass.start blocks (entry.mapKeys ρ.value) (table.rename ρ) =
      (Pass.start blocks entry table).rename ρ := by
  unfold Pass.start Pass.rename
  simp [List.map_set]
  rfl

end

namespace Mirrors

variable (h : Mirrors ρ K program model program' model')
include h

/-- Visits to one block take corresponding passes to corresponding passes. -/
theorem visit (summaries : Summaries) {f : Function}
    (hf : ∀ i ∈ f.instructions, i.CalledFrom program K) (pass : Pass) (k : Nat) :
    Pass.visit program' model' (Summaries.rename ρ summaries) (f.rename ρ) (pass.rename ρ) k =
      (Pass.visit program model summaries f pass k).rename ρ := by
  unfold Pass.visit
  have hblock : (f.rename ρ).blocks[k]? = f.blocks[k]?.map (Block.rename ρ) := List.getElem?_map
  rw [hblock]
  cases hb : f.blocks[k]? with
  | none => rfl
  | some b =>
    -- the block is entered with corresponding facts
    have hentry : ((pass.rename ρ).inflow[k]?.bind id).getD .empty =
        ((pass.inflow[k]?.bind id).getD .empty).mapKeys ρ.value := by
      show (((pass.inflow.map (Option.map (FiniteMap.mapKeys ρ.value)))[k]?).bind id).getD .empty = _
      rw [List.getElem?_map]
      rcases pass.inflow[k]? with _ | _ | facts <;> rfl
    simp only [Option.map_some, hentry]
    generalize (pass.inflow[k]?.bind id).getD .empty = entry
    -- all that the block calls is called from a body with a name in `K`
    have hcode : ∀ i ∈ b.instructions, i.CalledFrom program K := fun i hi =>
      hf i (List.mem_flatMap.2 ⟨b, List.mem_of_getElem? hb, hi⟩)
    have hstream := h.stream summaries f hcode ⟨entry, pass.outcome, pass.table⟩
    generalize b.instructions.foldl (Pass.Stream.advance program model summaries f)
      ⟨entry, pass.outcome, pass.table⟩ = s at hstream ⊢
    have hstream : (b.rename ρ).instructions.foldl
        (Pass.Stream.advance program' model' (Summaries.rename ρ summaries) (f.rename ρ))
        ⟨entry.mapKeys ρ.value, (pass.rename ρ).outcome, (pass.rename ρ).table⟩ = s.rename ρ :=
      hstream
    rw [hstream]
    exact spread_rename ρ s.facts b.successors
      { pass with outcome := s.outcome, table := s.table }

/-- Corresponding passes end alike, and what they leave of the budget is the same. -/
theorem sweep (summaries : Summaries) {f : Function}
    (hf : ∀ i ∈ f.instructions, i.CalledFrom program K) (budget : Nat) (pass : Pass) :
    Pass.sweep program' model' (Summaries.rename ρ summaries) (f.rename ρ) budget (pass.rename ρ) =
      (Pass.sweep program model summaries f budget pass).map (Prod.map id (Pass.rename ρ)) := by
  induction budget generalizing pass with
  | zero =>
    cases hpending : pass.pending with
    | nil =>
      have hpending' : (pass.rename ρ).pending = [] := hpending
      rw [Pass.sweep_of_nil hpending, Pass.sweep_of_nil hpending']
      rfl
    | cons k rest =>
      have hpending' : (pass.rename ρ).pending = k :: rest := hpending
      rw [Pass.sweep_zero_of_cons hpending, Pass.sweep_zero_of_cons hpending']
      rfl
  | succ budget ih =>
    cases hpending : pass.pending with
    | nil =>
      have hpending' : (pass.rename ρ).pending = [] := hpending
      rw [Pass.sweep_of_nil hpending, Pass.sweep_of_nil hpending']
      rfl
    | cons k rest =>
      have hpending' : (pass.rename ρ).pending = k :: rest := hpending
      rw [Pass.sweep_succ_of_cons hpending, Pass.sweep_succ_of_cons hpending', ← ih,
        ← h.visit summaries hf]
      rfl

end Mirrors

/-! ## §4 One round -/

namespace Propagation

section
variable (ρ)

theorem summary_rename (p : Propagation) (name : String) :
    (p.rename ρ).summary name = (p.summary name).rename ρ := by
  unfold summary
  show (FiniteMap.get? (FiniteMap.mapValues (Summary.rename ρ) p.summaries) name).getD .empty = _
  rw [FiniteMap.get?_mapValues]
  cases FiniteMap.get? p.summaries name <;> rfl

theorem withSummary_rename (p : Propagation) (name : String) (s : Summary) :
    (p.rename ρ).withSummary name (s.rename ρ) = (p.withSummary name s).rename ρ := by
  unfold withSummary rename Summaries.rename
  simp only [FiniteMap.mapValues_insert]

theorem grownExit_rename (old : Summary) (outcome : Outcome) :
    grownExit (old.rename ρ) (outcome.rename ρ) = (grownExit old outcome).rename ρ := by
  simp only [grownExit, Summary.rename, Outcome.rename, Facts.join_mapKeys]

theorem grownEntry_rename (old : Summary) (passed : Facts) :
    grownEntry (old.rename ρ) (passed.mapKeys ρ.value) = (grownEntry old passed).rename ρ := by
  simp only [grownEntry, Summary.rename, Facts.join_mapKeys]

theorem recordPass_rename (p : Propagation) (name : String) (outcome : Outcome) (table : Table) :
    (p.rename ρ).recordPass name (outcome.rename ρ) (table.rename ρ) =
      (p.recordPass name outcome table).rename ρ := by
  unfold recordPass rename Outcome.rename
  simp only [FiniteMap.keys_mapValues]

theorem openPass_rename (p : Propagation) (name : String) (f : Function) :
    (p.rename ρ).openPass name (f.rename ρ) = (p.openPass name f).rename ρ := by
  unfold openPass
  rw [summary_rename, ← start_rename]
  simp only [Function.rename, List.length_map]
  rfl

end

end Propagation

namespace Mirrors

variable (h : Mirrors ρ K program model program' model')
include h

/-- A function is put into both worklists or into neither, as it has a body in both or in neither. -/
theorem enqueue {name : String} (hname : K name) (p : Propagation) :
    Propagation.enqueue program' (p.rename ρ) name =
      (Propagation.enqueue program p name).rename ρ := by
  unfold Propagation.enqueue
  rw [h.body name hname, Option.isSome_map]
  by_cases hwaits : ((program.body? name).isSome && !p.worklist.contains name) = true
  · rw [if_pos hwaits]
    exact if_pos hwaits
  · rw [if_neg hwaits]
    exact if_neg hwaits

theorem foldl_enqueue {names : List String} (hnames : ∀ n ∈ names, K n) (p : Propagation) :
    names.foldl (Propagation.enqueue program') (p.rename ρ) =
      (names.foldl (Propagation.enqueue program) p).rename ρ := by
  induction names generalizing p with
  | nil => rfl
  | cons n names ih =>
    rw [List.foldl_cons, List.foldl_cons, h.enqueue (hnames n (List.mem_cons_self ..))]
    exact ih (fun m hm => hnames m (List.mem_cons_of_mem _ hm)) _

/-- A summary grows at the same returns, so the same callers are woken, in the same order. -/
theorem absorbExit {p : Propagation} {name : String} (hcallers : ∀ n, p.Calls n name → K n)
    (outcome : Outcome) :
    Propagation.absorbExit program' (p.rename ρ) name (outcome.rename ρ) =
      (Propagation.absorbExit program p name outcome).rename ρ := by
  rw [Propagation.absorbExit_eq, Propagation.absorbExit_eq, Propagation.summary_rename,
    Propagation.grownExit_rename, Propagation.withSummary_rename]
  simp only [(Summary.rename_injective ρ).eq_iff]
  split
  · rfl
  · exact h.foldl_enqueue (fun n hn => hcallers n (Propagation.mem_callersOf.1 hn)) _

/-- A summary grows at the same calls, so the same callee is put into the worklist. -/
theorem absorbCall {callee : String} (hcallee : K callee) (passed : Facts) (p : Propagation) :
    Propagation.absorbCall program' (p.rename ρ) (callee, passed.mapKeys ρ.value) =
      (Propagation.absorbCall program p (callee, passed)).rename ρ := by
  rw [Propagation.absorbCall_eq_ite, Propagation.absorbCall_eq_ite, Propagation.summary_rename,
    Propagation.grownEntry_rename, Propagation.withSummary_rename]
  simp only [(Summary.rename_injective ρ).eq_iff]
  split
  · next hold =>
    rw [if_pos]
    exact hold
  · next hnew =>
    rw [if_neg]
    · exact h.enqueue hcallee _
    · exact hnew

/-- Taking in what corresponding passes have found keeps propagations in correspondence. -/
theorem absorb {p : Propagation} {name : String} (hname : K name)
    (hcallers : ∀ n, p.Calls n name → K n) {outcome : Outcome}
    (hcallees : ∀ n ∈ outcome.calls.keys, K n) (table : Table) :
    Propagation.absorb program' (p.rename ρ) name (outcome.rename ρ) (table.rename ρ) =
      (Propagation.absorb program p name outcome table).rename ρ := by
  have hrecorded : ∀ n, (p.recordPass name outcome table).Calls n name → K n := by
    intro n hn
    rcases Propagation.calls_recordPass.1 hn with hold | ⟨rfl, -⟩
    · exact hcallers n hold
    · exact hname
  unfold Propagation.absorb
  rw [Propagation.recordPass_rename, h.absorbExit hrecorded]
  generalize Propagation.absorbExit program (p.recordPass name outcome table) name outcome = q
  -- the callees are taken in one after the other, in the same order on both sides
  have hlist : (outcome.rename ρ).calls.toList =
      outcome.calls.toList.map (Prod.map id (FiniteMap.mapKeys ρ.value)) := rfl
  rw [hlist, List.foldl_map]
  have hkeys : ∀ call ∈ outcome.calls.toList, K call.1 := fun call hcall =>
    hcallees call.1 (List.mem_map_of_mem hcall)
  generalize outcome.calls.toList = calls at hkeys
  induction calls generalizing q with
  | nil => rfl
  | cons call calls ih =>
    rw [List.foldl_cons, List.foldl_cons]
    have hcall : Propagation.absorbCall program' (q.rename ρ)
        (Prod.map id (FiniteMap.mapKeys ρ.value) call) =
          (Propagation.absorbCall program q call).rename ρ :=
      h.absorbCall (hkeys call (List.mem_cons_self ..)) call.2 q
    rw [hcall]
    exact ih _ fun c hc => hkeys c (List.mem_cons_of_mem _ hc)

end Mirrors

/-! ## §5 Whole runs -/

/-- Whoever waits or is known to call something has a name in `K`. -/
structure Propagation.Within (K : String → Prop) (p : Propagation) : Prop where
  waiting : ∀ n ∈ p.worklist, K n
  callers : ∀ n m, p.Calls n m → K n

/-- No names come in with a pass but those that its body calls. -/
theorem Propagation.Within.absorb {p : Propagation} (hp : p.Within K) {name : String}
    (hname : K name) {outcome : Outcome} (hcallees : ∀ n ∈ outcome.calls.keys, K n)
    (table : Table) : (p.absorb program name outcome table).Within K := by
  have h := absorbed_absorb program p name outcome table
  have hcallers : ∀ n m, (p.absorb program name outcome table).Calls n m → K n := by
    intro n m hn
    rcases (h.calls n m).1 hn with hold | ⟨rfl, -⟩
    · exact hp.callers n m hold
    · exact hname
  refine ⟨?_, hcallers⟩
  intro n hn
  rcases h.queued n hn with hold | ⟨-, hcalls | hcalled⟩
  · exact hp.waiting n hold
  · exact hcallers n name hcalls
  · exact hcallees n hcalled

def SolveError.rename (ρ : Renaming) : SolveError → SolveError
  | .duplicateInstruction i => .duplicateInstruction (ρ.inst i)
  | e => e

namespace Mirrors

variable (h : Mirrors ρ K program model program' model')
include h

/-- **Corresponding states lead to corresponding ends** under the same budget. -/
theorem run {p : Propagation} (hp : p.Within K) (budget : Nat) :
    (p.rename ρ).run program' model' budget = (p.run program model budget).map (Propagation.rename ρ) := by
  -- a pass uses up part of the budget, so the induction is on all smaller budgets
  induction budget using Nat.strongRecOn generalizing p with
  | ind budget ih =>
    cases hworklist : p.worklist with
    | nil =>
      have hworklist' : (p.rename ρ).worklist = [] := hworklist
      rw [Propagation.run_of_nil hworklist, Propagation.run_of_nil hworklist']
      rfl
    | cons name rest =>
      have hworklist' : (p.rename ρ).worklist = name :: rest := hworklist
      have hname : K name := hp.waiting name (hworklist ▸ List.mem_cons_self ..)
      have hrest : ({ p with worklist := rest } : Propagation).Within K :=
        ⟨fun n hn => hp.waiting n (hworklist ▸ List.mem_cons_of_mem _ hn), hp.callers⟩
      cases budget with
      | zero =>
        rw [Propagation.run_zero_of_cons hworklist, Propagation.run_zero_of_cons hworklist']
        rfl
      | succ budget =>
        have hbody' := h.body name hname
        cases hbody : program.body? name with
        | none =>
          rw [hbody] at hbody'
          rw [Propagation.run_succ_of_none hworklist hbody,
            Propagation.run_succ_of_none hworklist' hbody']
          exact ih budget (Nat.lt_succ_self _) hrest
        | some f =>
          rw [hbody] at hbody'
          have hf : f.name = name := Program.name_of_body? hbody
          -- so the pass over this body calls names in `K` only
          have hcode : ∀ i ∈ f.instructions, i.CalledFrom program K := fun i hi callee hcallee =>
            ⟨f, i, hf ▸ hname, Program.body?_name hbody, hi, hcallee⟩
          rw [Propagation.run_succ_of_body hworklist hbody,
            Propagation.run_succ_of_body hworklist' hbody']
          -- the passes end alike, and what they found is taken in alike with the same budget left
          have hsweep := h.sweep p.summaries hcode budget
            (({ p with worklist := rest } : Propagation).openPass name f)
          rw [← Propagation.openPass_rename] at hsweep
          refine (congrArg (Option.bind · _) hsweep).trans ?_
          cases hresult : Pass.sweep program model p.summaries f budget
              (({ p with worklist := rest } : Propagation).openPass name f) with
          | none => rfl
          | some result =>
            obtain ⟨left, final⟩ := result
            have hcalled : ∀ n ∈ final.outcome.calls.keys, program.CalledFrom K n :=
              Pass.calls_sweep
                (fun i hi e he => hcode i hi e.target.name (Program.callee?_of_entering he))
                (by simp [Propagation.openPass, Pass.start, Outcome.empty, FiniteMap.keys,
                  FiniteMap.empty]) hresult
            have hcallees : ∀ n ∈ final.outcome.calls.keys, K n := fun n hn =>
              h.callees n (hcalled n hn)
            have habsorb := h.absorb hname (fun n hn => hrest.callers n name hn) hcallees final.table
            have hleft := Nat.lt_succ_of_le (Pass.sweep_left_le hresult)
            exact (congrArg (Propagation.run program' model' left) habsorb).trans
              (ih left hleft (hrest.absorb hname hcallees final.table))

/-- **A solver finds the same** over mirrored programs that pass the check alike. -/
theorem solve {entries : List String} (hentries : ∀ n ∈ entries, K n)
    (hvalidate : program'.validate entries =
      (program.validate entries).mapError (SolveError.rename ρ)) (limit : Nat) :
    solve program' model' limit entries =
      ((solve program model limit entries).map (Table.rename ρ)).mapError (SolveError.rename ρ) := by
  -- at the start nobody is known to call anything
  have hstart : (Propagation.start program entries).Within K := by
    refine ⟨fun n hn => hentries n (Propagation.mem_start.1 hn).1, ?_⟩
    rintro n m ⟨known, hknown, -⟩
    rw [Propagation.start_eq] at hknown
    cases hknown
  have hrun := h.run hstart limit
  have hstarts : Propagation.start program' entries = (Propagation.start program entries).rename ρ :=
    h.foldl_enqueue hentries .empty
  unfold Typestate.solve
  rw [hvalidate, hstarts, hrun]
  cases program.validate entries with
  | error e => rfl
  | ok u => cases Propagation.run program model limit (Propagation.start program entries) <;> rfl

end Mirrors

theorem SolveError.mapError_rename_identity {α : Type} (r : Except SolveError α) :
    r.mapError (SolveError.rename .identity) = r := by
  rcases r with e | a
  · cases e <;> rfl
  · rfl

/-- Two programs with the same bodies under the names in `K` mirror each other without a renaming. -/
theorem Mirrors.of_body_eq (hbody : ∀ n, K n → program'.body? n = program.body? n)
    (hcallees : ∀ callee, program.CalledFrom K callee → K callee)
    (hcalls : ∀ callee, program.CalledFrom K callee → program.body? callee = none →
      model'.apply callee = model.apply callee) :
    Mirrors .identity K program model program' model' := by
  refine ⟨fun n hn => ?_, hcallees, hcalls⟩
  rw [hbody n hn, funext Function.rename_identity]
  exact Option.map_id'.symm

/-- Without a renaming the two solvers find one and the same. -/
theorem Mirrors.solve_eq (h : Mirrors .identity K program model program' model')
    {entries : List String} (hentries : ∀ n ∈ entries, K n)
    (hvalidate : program'.validate entries = program.validate entries) (limit : Nat) :
    Typestate.solve program' model' limit entries = Typestate.solve program model limit entries := by
  have hsolve := h.solve hentries
    (hvalidate.trans (SolveError.mapError_rename_identity _).symm) limit
  have htable : Table.rename .identity = id := funext Table.rename_identity
  rwa [SolveError.mapError_rename_identity, htable, Except.map_id] at hsolve

end Typestate
