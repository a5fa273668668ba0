import Typestate.Proofs.FixedPoint
import Typestate.Proofs.Rounds
import Typestate.Proofs.Termination

/-!
# Functions that do not wait are up to date

At every head of the loop, a function that has been looked at and does not wait is *up to date*:
another pass over it, with what is known now, would end and find nothing that is not known already.
The argument is that such a pass repeats the last one step by step. Nothing that the last pass has
read has changed since, or the function would wait; and whatever it has written is in the table, so
that the repetition leaves the table as it is. The transfer is not monotone, so it is not enough that
less is passed in than is known: it has to be the same pass.

## Contents

- §1 Repeating a pass
- §2 `UpToDate`: a pass that would find nothing new
- §3 `LastPass`: the last pass over a function, seen from a later head
- §4 What a round keeps
- §5 Heads of a run
-/

namespace Typestate

/-! ## §1 Repeating a pass -/

/-- Behind a call into the function, the two summaries read the same. -/
def Summaries.Agree (summaries summaries' : Summaries) (name : String) : Prop :=
  (summaries'.of name).exit = (summaries.of name).exit ∧
    (summaries'.of name).ret = (summaries.of name).ret

theorem Outcome.Below.mem_keys {outcome outcome' : Outcome} (h : outcome.Below outcome')
    {name : String} (hname : name ∈ outcome.calls.keys) : name ∈ outcome'.calls.keys := by
  obtain ⟨known, hknown⟩ := FiniteMap.mem_keys_iff.1 hname
  obtain ⟨known', hknown', -⟩ := h.calls name known hknown
  exact FiniteMap.mem_keys_iff.2 ⟨known', hknown'⟩

section
variable {program : Program} {model : CallModel} {summaries summaries' : Summaries}
variable {function : Function}

/-- An instruction does the same under summaries that agree on the function it enters, if any. -/
theorem transfer_congr {i : Instruction}
    (h : ∀ e, program.entering? i = some e → summaries.Agree summaries' e.target.name)
    (facts : Facts) (outcome : Outcome) :
    transfer program model summaries' function i facts outcome =
      transfer program model summaries function i facts outcome := by
  cases he : program.entering? i with
  | some e =>
    obtain ⟨hexit, hret⟩ := h e he
    rw [transfer_of_entering he, transfer_of_entering he, flow_of_entering he, flow_of_entering he,
      hexit, hret]
  | none =>
    -- an instruction that enters nothing does not look at summaries
    by_cases hop : ∃ value, i.op = .ret value
    · obtain ⟨value, hop⟩ := hop
      rw [transfer_of_ret hop, transfer_of_ret hop, flow_of_not_entering he, flow_of_not_entering he]
    · have hop : ∀ value, i.op ≠ .ret value := fun value hvalue => hop ⟨value, hvalue⟩
      rw [transfer_of_other he hop, transfer_of_other he hop, flow_of_not_entering he,
        flow_of_not_entering he]

namespace Pass

/-- Going through instructions again, from the table as it is later on, goes the same way. -/
theorem Stream.run_again (is : List Instruction) (s : Stream) {table : Table}
    (hagree : ∀ n ∈ (is.foldl (Stream.advance program model summaries function)
      s).outcome.calls.keys, summaries.Agree summaries' n)
    (htable : (is.foldl (Stream.advance program model summaries function) s).table ≤ table) :
    is.foldl (Stream.advance program model summaries' function) { s with table := table } =
      { is.foldl (Stream.advance program model summaries function) s with table := table } := by
  induction is generalizing s with
  | nil => rfl
  | cons i is ih =>
    rw [List.foldl_cons] at hagree htable ⊢
    obtain ⟨hfound, hwritten⟩ := Stream.keeps_run program model summaries function is
      (s.advance program model summaries function i)
    have htransfer : transfer program model summaries' function i s.facts s.outcome =
        transfer program model summaries function i s.facts s.outcome := by
      refine transfer_congr (fun e he => hagree _ (hfound.mem_keys ?_)) _ _
      -- the function entered has been noted down, so the summaries agree on it
      show e.target.name ∈
        (transfer program model summaries function i s.facts s.outcome).2.calls.keys
      rw [transfer_of_entering he]
      exact FiniteMap.mem_keys_alter.2 (Or.inl rfl)
    -- the row that this instruction would write is in the later table already
    have hheld : table.Holds i.id s.facts :=
      (Table.holds_joinRow s.table i.id s.facts).mono (Table.le_trans hwritten htable)
    have hstep : Stream.advance program model summaries' function { s with table := table } i =
        { s.advance program model summaries function i with table := table } := by
      unfold Stream.advance
      simp only [htransfer, Table.joinRow_eq_self hheld]
    rw [hstep]
    exact ih _ hagree htable

/-- The pass with another table. -/
def withTable (pass : Pass) (table : Table) : Pass := { pass with table := table }

/-- Arrival does not look at the table. -/
theorem arrive_withTable (facts : Facts) (pass : Pass) (table : Table) (block : Nat) :
    arrive facts (pass.withTable table) block = (arrive facts pass block).withTable table := by
  -- neither does the queue
  have hschedule : ∀ pass : Pass,
      (pass.withTable table).schedule block = (pass.schedule block).withTable table := by
    intro pass
    unfold schedule withTable
    simp only
    split <;> rfl
  have hinflow : (pass.withTable table).inflow = pass.inflow := rfl
  unfold arrive
  rw [hinflow]
  split
  · rfl
  · exact hschedule { pass with inflow := pass.inflow.set block (some facts) }
  · next old _ =>
    simp only
    split
    · rfl
    · exact hschedule { pass with inflow := pass.inflow.set block (some (Facts.join old facts)) }

theorem spread_withTable (facts : Facts) (targets : List UInt64) (pass : Pass) (table : Table) :
    spread facts targets (pass.withTable table) = (spread facts targets pass).withTable table := by
  induction targets generalizing pass with
  | nil => rfl
  | cons t targets ih =>
    show spread facts targets (arrive facts (pass.withTable table) t.toNat) = _
    rw [arrive_withTable]
    exact ih (arrive facts pass t.toNat)

theorem visit_again (pass : Pass) (k : Nat) {table : Table}
    (hagree : ∀ n ∈ (visit program model summaries function pass k).outcome.calls.keys,
      summaries.Agree summaries' n)
    (htable : (visit program model summaries function pass k).table ≤ table) :
    visit program model summaries' function (pass.withTable table) k =
      (visit program model summaries function pass k).withTable table := by
  cases hb : function.blocks[k]? with
  | none => rw [visit_of_no_block _ hb, visit_of_no_block _ hb]
  | some b =>
    rw [visit_of_block pass hb, outcome_spread] at hagree
    rw [visit_of_block pass hb, table_spread] at htable
    -- the block is gone through with the same facts, and writes what is in the table already
    have hleaving : (pass.withTable table).leaving program model summaries' function k b =
        { pass.leaving program model summaries function k b with table := table } :=
      Stream.run_again b.instructions
        ⟨(pass.inflow[k]?.bind id).getD .empty, pass.outcome, pass.table⟩ hagree htable
    rw [visit_of_block _ hb, visit_of_block _ hb, hleaving, ← spread_withTable]
    rfl

/-- **A pass repeats itself** under summaries that agree on what it has called into, and from any
table that has all that it has written: it ends in the same place and leaves that table alone. -/
theorem sweep_again {budget left : Nat} {pass final : Pass} {table : Table}
    (hsweep : sweep program model summaries function budget pass = some (left, final))
    (hagree : ∀ n ∈ final.outcome.calls.keys, summaries.Agree summaries' n)
    (htable : final.table ≤ table) :
    sweep program model summaries' function budget (pass.withTable table) =
      some (left, final.withTable table) := by
  have hpending' : (pass.withTable table).pending = pass.pending := rfl
  -- the induction is on the budget, which both passes spend visit by visit
  induction budget generalizing pass with
  | zero =>
    cases hpending : pass.pending with
    | nil =>
      rw [sweep_of_nil hpending] at hsweep
      cases hsweep
      exact sweep_of_nil (hpending'.trans hpending) _
    | cons k rest =>
      rw [sweep_zero_of_cons hpending] at hsweep
      cases hsweep
  | succ budget ih =>
    cases hpending : pass.pending with
    | nil =>
      rw [sweep_of_nil hpending] at hsweep
      cases hsweep
      exact sweep_of_nil (hpending'.trans hpending) _
    | cons k rest =>
      rw [sweep_succ_of_cons hpending] at hsweep
      rw [sweep_succ_of_cons (hpending'.trans hpending)]
      -- what the visit has found and written is part of what the whole pass has
      obtain ⟨hfound, hwritten⟩ := keeps_sweep hsweep
      have hvisit : visit program model summaries' function
          { pass.withTable table with pending := rest } k = _ :=
        visit_again { pass with pending := rest } k (fun n hn => hagree n (hfound.mem_keys hn))
          (Table.le_trans hwritten htable)
      rw [hvisit]
      exact ih hsweep rfl

/-- Where a pass ends does not depend on the budget. -/
theorem sweep_unique {budget budget' left left' : Nat} {pass final final' : Pass}
    (h : sweep program model summaries function budget pass = some (left, final))
    (h' : sweep program model summaries function budget' pass = some (left', final')) :
    final = final' := by
  have hmore := sweep_add h budget'
  rw [Nat.add_comm, sweep_add h' budget] at hmore
  exact (congrArg Prod.snd (Option.some.inj hmore)).symm

/-- A pass over a function calls into functions with a body only. -/
theorem bodies_of_sweep {budget left blocks : Nat} {entry : Facts} {table : Table} {final : Pass}
    (h : sweep program model summaries function budget (start blocks entry table) =
      some (left, final)) :
    ∀ n ∈ final.outcome.calls.keys, (program.body? n).isSome = true := by
  refine calls_sweep (fun i _ e he => ?_) ?_ h
  · exact Option.isSome_iff_exists.2 ⟨e.target, Program.body?_of_entering he⟩
  · intro n hn
    cases hn

end Pass

end

namespace Propagation

variable {program : Program} {model : CallModel}

/-! ## §2 Up to date -/

/-- The outcome of a pass over `name` changes no summary and no cell, and names only functions that
take part already. -/
structure AddsNothing (p : Propagation) (name : String) (pass : Pass) : Prop where
  exit : grownExit (p.summary name) pass.outcome = p.summary name
  entries : ∀ callee passed, pass.outcome.calls.get? callee = some passed →
    grownEntry (p.summary callee) passed = p.summary callee
  callees : ∀ callee ∈ pass.outcome.calls.keys, p.Active callee
  table : pass.table = p.table

/-- Another pass over the function, with what is known now, ends and adds nothing. -/
def UpToDate (program : Program) (model : CallModel) (p : Propagation) (name : String) : Prop :=
  ∃ f, program.body? name = some f ∧
    (∃ budget left pass,
      Pass.sweep program model p.summaries f budget (p.openPass name f) = some (left, pass)) ∧
    ∀ budget left pass,
      Pass.sweep program model p.summaries f budget (p.openPass name f) = some (left, pass) →
        p.AddsNothing name pass

theorem grownExit_eq_self {old : Summary} {outcome : Outcome} (hexit : outcome.exit ≤ old.exit)
    (hret : (outcome.ret : Observation) ≤ old.ret) : grownExit old outcome = old := by
  have hret' : (grownExit old outcome).ret = old.ret := by
    rw [ret_grownExit]
    exact Observation.join_eq_left_iff.2 hret
  have hexit' : (grownExit old outcome).exit = old.exit := Facts.join_eq_left_iff.2 hexit
  cases old
  exact congr (congrArg _ hexit') hret'

/-! ## §3 The last pass -/

/-- A pass over `f`, from what is still known on entry to it, that has ended: everything it has found
has been taken in, and what it has read of the functions it has called into is still what is known of
them. The summaries and the table are those of that time. -/
structure LastPass (program : Program) (model : CallModel) (p : Propagation) (f : Function)
    (summaries : Summaries) (table : Table) (pass : Pass) : Prop where
  ended : ∃ budget left, Pass.sweep program model summaries f budget
    (Pass.start f.blocks.length (p.summary f.name).entry table) = some (left, pass)
  below : pass.ledger.Below program (p.ledger f.name)
  agree : ∀ n ∈ pass.outcome.calls.keys, summaries.Agree p.summaries n

/-- A function whose last pass still stands is up to date. -/
theorem LastPass.upToDate {p : Propagation} {f : Function} {summaries : Summaries} {table : Table}
    {pass : Pass} (h : LastPass program model p f summaries table pass)
    (hbody : program.body? f.name = some f) : UpToDate program model p f.name := by
  obtain ⟨budget, left, hended⟩ := h.ended
  have hbodies := Pass.bodies_of_sweep hended
  have hagain : Pass.sweep program model p.summaries f budget (p.openPass f.name f) =
      some (left, pass.withTable p.table) :=
    Pass.sweep_again hended h.agree h.below.table
  refine ⟨f, hbody, ⟨budget, left, _, hagain⟩, fun budget' left' pass' hsweep => ?_⟩
  -- under any other budget the pass ends where the repetition does
  obtain rfl := Pass.sweep_unique hagain hsweep
  have hentry : ∀ callee passed, pass.outcome.calls.get? callee = some passed →
      p.Active callee ∧ passed ≤ (p.summary callee).entry := by
    intro callee passed hpassed
    have hcallee := hbodies callee (FiniteMap.mem_keys_iff.2 ⟨passed, hpassed⟩)
    obtain ⟨_, ⟨hactive, -, rfl⟩, hle⟩ := h.below.entry callee passed hcallee hpassed
    exact ⟨hactive, hle⟩
  refine ⟨grownExit_eq_self h.below.exit h.below.ret, ?_, ?_, rfl⟩
  · exact fun callee passed hpassed => grownEntry_eq_iff.2 (hentry callee passed hpassed).2
  · intro callee hcallee
    obtain ⟨passed, hpassed⟩ := FiniteMap.mem_keys_iff.1 hcallee
    exact (hentry callee passed hpassed).1

section
variable {p p' : Propagation} {name : String} {rest : List String} {outcome : Outcome}
variable {table : Table} {f : Function}

/-- The pass of this round is the last one over its function, unless the round puts it back. -/
theorem lastPass_of_pass {budget left : Nat} {pass : Pass}
    (h : Absorbed program { p with worklist := rest } f.name pass.outcome pass.table p')
    (hsweep : Pass.sweep program model p.summaries f budget
      (Pass.start f.blocks.length (p.summary f.name).entry p.table) = some (left, pass))
    (hbody : program.body? f.name = some f) (hidle : f.name ∉ p'.worklist) :
    LastPass program model p' f p.summaries p.table pass where
  ended := by
    rw [entry_eq_of_absorbed h (Option.isSome_iff_exists.2 ⟨f, hbody⟩) hidle]
    exact ⟨budget, left, hsweep⟩
  below := pass_below_of_absorbed h
  agree := fun n hn => reads_eq_of_absorbed h (Option.isSome_iff_exists.2 ⟨f, hbody⟩) hidle
    ((h.calls f.name n).2 (Or.inr ⟨rfl, hn⟩))

/-- The last pass over a function still stands after a round that does not put the function back. -/
theorem LastPass.of_absorbed {summaries : Summaries} {before : Table} {pass : Pass}
    (hlast : LastPass program model p f summaries before pass) (hworklist : p.worklist = name :: rest)
    (h : Absorbed program { p with worklist := rest } name outcome table p')
    (hkept : p.table ≤ table) (hbody : program.body? f.name = some f)
    (hidle : f.name ∉ p'.worklist) : LastPass program model p' f summaries before pass where
  ended := by
    rw [entry_eq_of_absorbed h (Option.isSome_iff_exists.2 ⟨f, hbody⟩) hidle]
    exact hlast.ended
  below := hlast.below.trans (ledger_below_of_absorbed hworklist h hkept f.name)
  agree := by
    intro n hn
    obtain ⟨budget, left, hended⟩ := hlast.ended
    obtain ⟨passed, hpassed⟩ := FiniteMap.mem_keys_iff.1 hn
    -- the loop knows the calls that the pass has made, and would have put the caller back
    obtain ⟨_, ⟨-, hcalls, -⟩, -⟩ :=
      hlast.below.entry n passed (Pass.bodies_of_sweep hended n hn) hpassed
    obtain ⟨hexit, hret⟩ := reads_eq_of_absorbed h (Option.isSome_iff_exists.2 ⟨f, hbody⟩) hidle
      ((h.calls f.name n).2 (Or.inl hcalls))
    exact ⟨hexit.trans (hlast.agree n hn).1, hret.trans (hlast.agree n hn).2⟩

end

/-! ## §4 What a round keeps -/

/-- Whoever waits, has been looked at, is known to be called or has a summary has a body. -/
structure Bodied (program : Program) (p : Propagation) : Prop where
  waiting : ∀ n ∈ p.worklist, (program.body? n).isSome = true
  visited : ∀ n, p.visited.contains n = true → (program.body? n).isSome = true
  called : ∀ n ∈ p.callers.keys, (program.body? n).isSome = true
  summarised : ∀ n ∈ p.summaries.keys, (program.body? n).isSome = true

theorem mem_keys_callers_recordPass {p : Propagation} {name n : String} {outcome : Outcome}
    {table : Table} (h : n ∈ (p.recordPass name outcome table).callers.keys) :
    n ∈ p.callers.keys ∨ n ∈ outcome.calls.keys := by
  unfold recordPass at h
  simp only at h
  generalize outcome.calls.keys = callees at h ⊢
  generalize p.callers = callers at h ⊢
  -- the callees are recorded one by one
  induction callees generalizing callers with
  | nil => exact Or.inl h
  | cons callee callees ih =>
    rcases ih _ h with hold | hlater
    · rcases FiniteMap.mem_keys_alter.1 hold with rfl | hold
      · exact Or.inr (List.mem_cons_self ..)
      · exact Or.inl hold
    · exact Or.inr (List.mem_cons_of_mem _ hlater)

theorem mem_keys_summaries_foldl_absorbCall {calls : List (String × Facts)} {p : Propagation}
    {n : String} (h : n ∈ (calls.foldl (absorbCall program) p).summaries.keys) :
    n ∈ p.summaries.keys ∨ n ∈ calls.map (·.1) := by
  induction calls generalizing p with
  | nil => exact Or.inl h
  | cons call calls ih =>
    obtain ⟨worklist, hstep, -⟩ := absorbCall_eq program p call
    rcases ih h with hold | hlater
    · rw [hstep] at hold
      rcases FiniteMap.mem_keys_alter.1 hold with rfl | hold
      · exact Or.inr (List.mem_cons_self ..)
      · exact Or.inl hold
    · exact Or.inr (List.mem_cons_of_mem _ hlater)

/-- The names that a round brings into the state are those of its function and of what it calls. -/
theorem Bodied.absorb {p : Propagation} (hp : p.Bodied program) {name : String}
    (hname : (program.body? name).isSome = true) {outcome : Outcome}
    (hcalls : ∀ n ∈ outcome.calls.keys, (program.body? n).isSome = true) (table : Table) :
    (p.absorb program name outcome table).Bodied program := by
  have habsorbed := absorbed_absorb program p name outcome table
  -- the exit side replaces one summary, the entry sides replace those of the callees
  have hexit := absorbExit_eq_withSummary program (p.recordPass name outcome table) name outcome
  have hentries := entriesAbsorbed_foldl program outcome.calls.ascending
    ((p.recordPass name outcome table).absorbExit program name outcome)
  have hcallers : (p.absorb program name outcome table).callers =
      (p.recordPass name outcome table).callers := by
    have hsame : (p.absorb program name outcome table).callers =
        ((p.recordPass name outcome table).absorbExit program name outcome).callers :=
      hentries.callers
    rw [hsame, hexit]
    rfl
  refine ⟨?_, ?_, ?_, ?_⟩
  · intro n hn
    rcases habsorbed.queued n hn with hold | ⟨hbody, -⟩
    · exact hp.waiting n hold
    · exact hbody
  · intro n hn
    rcases (habsorbed.visited n).1 hn with rfl | hold
    · exact hname
    · exact hp.visited n hold
  · intro n hn
    rw [hcallers] at hn
    rcases mem_keys_callers_recordPass hn with hold | hnew
    · exact hp.called n hold
    · exact hcalls n hnew
  · intro n hn
    rcases mem_keys_summaries_foldl_absorbCall hn with hold | hnew
    · rw [hexit] at hold
      rcases FiniteMap.mem_keys_alter.1 hold with rfl | hold
      · exact hname
      · exact hp.summarised n hold
    · exact hcalls n hnew

/-- What holds at every head of the loop. -/
structure Steady (program : Program) (model : CallModel) (p : Propagation) : Prop where
  bodied : p.Bodied program
  last : ∀ f, program.body? f.name = some f → p.visited.contains f.name = true →
    f.name ∉ p.worklist → ∃ summaries table pass, LastPass program model p f summaries table pass

/-- **A round keeps every idle function up to date.** -/
theorem Steady.absorb {p : Propagation} (hp : Steady program model p) {name : String}
    {rest : List String} (hworklist : p.worklist = name :: rest) {f : Function}
    (hbody : program.body? name = some f) {budget left : Nat} {pass : Pass}
    (hsweep : Pass.sweep program model p.summaries f budget
      (openPass { p with worklist := rest } name f) = some (left, pass)) :
    Steady program model
      (absorb program { p with worklist := rest } name pass.outcome pass.table) := by
  obtain rfl : f.name = name := Program.name_of_body? hbody
  have habsorbed := absorbed_absorb program { p with worklist := rest } f.name pass.outcome
    pass.table
  have hkept : p.table ≤ pass.table := (Pass.keeps_sweep hsweep).2
  have hrest : ({ p with worklist := rest } : Propagation).Bodied program :=
    ⟨fun n hn => hp.bodied.waiting n (hworklist ▸ List.mem_cons_of_mem _ hn), hp.bodied.visited,
      hp.bodied.called, hp.bodied.summarised⟩
  refine ⟨hrest.absorb (Option.isSome_iff_exists.2 ⟨f, hbody⟩) (Pass.bodies_of_sweep hsweep)
    pass.table, ?_⟩
  intro g hg hvisited hidle
  by_cases hfg : g.name = f.name
  · -- the pass of this round may have put its own function back; if not, it is the last one
    obtain rfl := Program.eq_of_body? hbody hg hfg
    exact ⟨_, _, _, lastPass_of_pass habsorbed hsweep hbody hidle⟩
  · -- any other function was idle before the round as well
    obtain ⟨hvisited', hidle'⟩ := idle_of_absorbed hworklist habsorbed hfg hvisited hidle
    obtain ⟨summaries, table, last, hlast⟩ := hp.last g hg hvisited' hidle'
    exact ⟨_, _, _, hlast.of_absorbed hworklist habsorbed hkept hg hidle⟩

theorem steady_start (program : Program) (model : CallModel) (entries : List String) :
    Steady program model (start program entries) := by
  have hstart : start program entries =
      { empty with worklist := (start program entries).worklist } := start_eq entries
  -- nobody has been visited, so nothing need be up to date
  refine ⟨⟨fun n hn => (mem_start.1 hn).2, ?_, ?_, ?_⟩, ?_⟩
  · intro n hn
    rw [hstart] at hn
    cases hn
  · intro n hn
    rw [hstart] at hn
    cases hn
  · intro n hn
    rw [hstart] at hn
    cases hn
  · intro f _ hvisited
    rw [hstart] at hvisited
    cases hvisited

/-! ## §5 Heads of a run -/

/-- The state at a head of the loop is in order: the queue is a set and its members wait, whoever is
named has a body, and whoever has been looked at and does not wait is up to date. -/
structure Head.InOrder (program : Program) (model : CallModel) (head : Head) : Prop where
  nodup : head.state.worklist.Nodup
  order : head.queue.waiting = head.state.worklist
  members : ∀ n, head.queue.members.contains n = true ↔ n ∈ head.state.worklist
  bodied : head.state.Bodied program
  upToDate : ∀ n, head.state.visited.contains n = true →
    head.queue.members.contains n = false → UpToDate program model head.state n

/-- **Every head of the loop is in order**, and it is a head of the run: the run goes on from it, and
ends at the last one, with a result if nobody waits there. -/
theorem heads_in_order {limit rounds : Nat} {entries : List String} {head : Head}
    (h : afterSteps (Head.next? program model) rounds (Head.start program limit entries) =
      some head) :
    head.InOrder program model ∧
      run program model limit (start program entries) =
        run program model head.budget head.state ∧
      (head.next? program model = none →
        run program model limit (start program entries) =
          if head.state.worklist = [] then some head.state else none) := by
  -- the invariant holds at the start and is kept by a round
  have hsteady : head.Queued ∧ Steady program model head.state := by
    refine afterSteps_invariant (I := fun head => head.Queued ∧ Steady program model head.state)
      ?_ h ⟨Head.queued_start program limit entries, steady_start program model entries⟩
    rintro head head' hnext ⟨hqueued, hp⟩
    refine ⟨hqueued.next hnext, ?_⟩
    obtain ⟨budget, name, rest, f, left, pass, -, hworklist, hbody, hsweep, rfl⟩ :=
      Head.next?_eq_some_iff.1 hnext
    exact hp.absorb hworklist hbody hsweep
  have hrun : run program model limit (start program entries) =
      run program model head.budget head.state := Head.run_of_afterSteps h
  obtain ⟨hqueued, hp⟩ := hsteady
  refine ⟨⟨hqueued.nodup, hqueued.order, hqueued.members, hp.bodied, ?_⟩, hrun, ?_⟩
  · intro n hvisited hidle
    obtain ⟨f, hbody⟩ := Option.isSome_iff_exists.1 (hp.bodied.visited n hvisited)
    obtain rfl : f.name = n := Program.name_of_body? hbody
    -- who does not wait has not been put into the queue since
    have hidle : f.name ∉ head.state.worklist := by
      intro hmem
      rw [(hqueued.members f.name).2 hmem] at hidle
      cases hidle
    obtain ⟨summaries, table, pass, hlast⟩ := hp.last f hbody hvisited hidle
    exact hlast.upToDate hbody
  · intro hlast
    rw [hrun]
    exact Head.run_of_next?_none hp.bodied.waiting hlast

/-- Under mutual recursion: after two rounds `ping` waits again and `pong` is up to date, and after
five the run ends. -/
theorem heads_of_bouncing :
    let model : CallModel := .small .full .factory
    let first := Head.start bouncing 100 ["ping"]
    (∃ head, afterSteps (Head.next? bouncing model) 2 first = some head ∧
      head.state.worklist = ["ping"] ∧ head.InOrder bouncing model ∧
      UpToDate bouncing model head.state "pong") ∧
    ∃ head, afterSteps (Head.next? bouncing model) 5 first = some head ∧
      run bouncing model 100 (start bouncing ["ping"]) = some head.state := by
  intro model first
  constructor
  · -- the head is found by running the rounds
    have heval : (afterSteps (Head.next? bouncing model) 2 first).map (fun head =>
        (head.state.worklist, head.state.visited.contains "pong",
          head.queue.members.contains "pong")) = some (["ping"], true, false) := by decide +kernel
    obtain ⟨head, hhead, heval⟩ := Option.map_eq_some_iff.1 heval
    simp only [Prod.mk.injEq] at heval
    obtain ⟨hworklist, hvisited, hidle⟩ := heval
    have horder := (heads_in_order hhead).1
    exact ⟨head, hhead, hworklist, horder, horder.upToDate "pong" hvisited hidle⟩
  · have heval : (afterSteps (Head.next? bouncing model) 5 first).map (fun head =>
        (head.state.worklist, (head.next? bouncing model).isNone)) = some ([], true) := by
      decide +kernel
    obtain ⟨head, hhead, heval⟩ := Option.map_eq_some_iff.1 heval
    simp only [Prod.mk.injEq, Option.isNone_iff_eq_none] at heval
    obtain ⟨hworklist, hlast⟩ := heval
    have hrun := (heads_in_order hhead).2.2 hlast
    rw [if_pos hworklist] at hrun
    exact ⟨head, hhead, hrun⟩

end Propagation

end Typestate
