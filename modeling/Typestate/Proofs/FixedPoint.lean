import Typestate.Proofs.Pass
import Typestate.Proofs.Propagation

/-!
# What a finished run leaves behind

Between two rounds every function that has been looked at and does not wait is *current*: its last
pass would find nothing new, since neither what is passed to it nor what it reads from the functions
it enters has changed in the meantime. At the end nobody waits, so every function that can be
reached is current. The cells of the table need a second invariant, because the table keeps what
earlier passes have seen with less information: each cell comes from a visit all of whose
consequences have been taken in.

## Contents

- §1 `Settled`: following the next instruction inside a settled function
- §2 `Current` functions and `Witnessed` cells
- §3 A round keeps the invariant
- §4 Finished runs
-/

namespace Typestate

/-! ## §1 Inside a settled function -/

theorem Table.Holds.anti {t : Table} {i : InstId} {facts facts' : Facts} (h : t.Holds i facts')
    (hle : facts ≤ facts') : t.Holds i facts := fun v => Observation.le_trans (hle v) (h v)

/-- The consequences of every block with facts have been taken in. -/
def Settled (program : Program) (model : CallModel) (summaries : Summaries) (function : Function)
    (ledger : Ledger) (inflow : List (Option Facts)) : Prop :=
  ∀ (k : Nat) (b : Block) (facts : Facts), function.blocks[k]? = some b →
    inflow[k]? = some (some facts) →
    Along program model summaries (Recorded ledger program function (Pass.Arrived inflow b))
      b.instructions facts

section
variable {program : Program} {model : CallModel} {summaries : Summaries} {function : Function}
variable {ledger : Ledger} {inflow : List (Option Facts)}

/-- The facts at any point of a settled function are held at the instruction that comes next. -/
theorem Settled.holds_next (h : Settled program model summaries function ledger inflow) {k : Nat}
    {b : Block} {rest : List Instruction} {j : Instruction} (hb : function.blocks[k]? = some b)
    (hnext : Next function k rest j) {facts : Facts}
    (hpoint : Recorded ledger program function (Pass.Arrived inflow b) rest facts) :
    ledger.table.Holds j.id facts := by
  induction hnext generalizing b facts with
  | here => exact Ledger.Records.holds hpoint
  | jump hk ht hb' _ ih =>
    -- behind the last instruction the facts have arrived at the successor
    rw [hb] at hk
    cases hk
    obtain ⟨known, hknown, hle⟩ := hpoint _ ht
    have hhead := (h _ _ known hb' hknown).head
    exact (ih hb' hhead).anti hle

theorem Settled.exists_point (h : Settled program model summaries function ledger inflow) {k : Nat}
    {b : Block} {facts : Facts} {i : Instruction} {rest : List Instruction}
    (hb : function.blocks[k]? = some b) (hk : inflow[k]? = some (some facts))
    (hi : i :: rest <:+ b.instructions) :
    ∃ facts', Along program model summaries (Recorded ledger program function (Pass.Arrived inflow b))
      (i :: rest) facts' :=
  (h k b facts hb hk).exists_of_suffix hi

theorem Settled.exists_inflow (h : Settled program model summaries function ledger inflow) {k : Nat}
    {b : Block} {facts : Facts} {t : UInt64} (hb : function.blocks[k]? = some b)
    (hk : inflow[k]? = some (some facts)) (ht : t ∈ b.successors) :
    ∃ facts', inflow[t.toNat]? = some (some facts') := by
  -- going through the whole block ends with facts that have arrived
  have hend : ∀ rest facts, Along program model summaries
      (Recorded ledger program function (Pass.Arrived inflow b)) rest facts →
      ∃ facts', Pass.Arrived inflow b facts' := by
    intro rest
    induction rest with
    | nil => exact fun facts h => ⟨facts, h⟩
    | cons i rest ih => exact fun _ h => ih _ h.2
  obtain ⟨last, hlast⟩ := hend _ _ (h k b facts hb hk)
  obtain ⟨known, hknown, -⟩ := hlast t ht
  exact ⟨known, hknown⟩

end

namespace Propagation

variable {program : Program} {model : CallModel} {entries : List String}

/-! ## §2 The invariant -/

/-- What is written down about a function and about those it enters. -/
def ledger (p : Propagation) (name : String) : Ledger where
  table := p.table
  exit := (p.summary name).exit
  ret := (p.summary name).ret
  entry := fun callee known =>
    p.Active callee ∧ p.Calls name callee ∧ known = (p.summary callee).entry

/-- Another pass over `f` would find nothing new. -/
structure Current (program : Program) (model : CallModel) (p : Propagation) (f : Function)
    (inflow : List (Option Facts)) : Prop where
  entered : ∃ facts, inflow[0]? = some (some facts) ∧ (p.summary f.name).entry ≤ facts
  settled : Settled program model p.summaries f (p.ledger f.name) inflow

/-- The facts behind block `k` are held wherever control may go from there. -/
def Onward (p : Propagation) (f : Function) (k : Nat) (facts : Facts) : Prop :=
  ∀ j, Next f k [] j → p.table.Holds j.id facts

/-- The facts before `rest` come from a visit all of whose consequences have been taken in. The
summaries are those of that visit. -/
def Seen (program : Program) (model : CallModel) (p : Propagation) (f : Function) (k : Nat)
    (summaries : Summaries) (rest : List Instruction) (facts : Facts) : Prop :=
  Along program model summaries (Recorded (p.ledger f.name) program f (p.Onward f k)) rest facts

/-- Some visit that has been taken in shows state `σ` for `v` at the instruction. -/
def Witnessed (program : Program) (model : CallModel) (p : Propagation) (id : InstId) (v : ValueId)
    (σ : State) : Prop :=
  ∃ (f : Function) (k : Nat) (i : Instruction) (rest : List Instruction) (summaries : Summaries)
    (facts : Facts), program.body? f.name = some f ∧ Remains f k (i :: rest) ∧ i.id = id ∧
    Seen program model p f k summaries (i :: rest) facts ∧ facts.get? v = some σ

/-- What holds between two rounds. -/
structure Stable (program : Program) (model : CallModel) (entries : List String)
    (p : Propagation) : Prop where
  bodies : ∀ n ∈ p.worklist, (program.body? n).isSome = true
  started : ∀ n ∈ entries, (program.body? n).isSome = true → p.Active n
  current : ∀ f, program.body? f.name = some f → p.visited.contains f.name = true →
    f.name ∉ p.worklist → ∃ inflow, Current program model p f inflow
  cells : ∀ id v σ, p.table.get? id v = some σ → Witnessed program model p id v σ

/-! ## §3 One round -/

section
variable {p p' : Propagation} {name : String} {rest : List String} {outcome : Outcome}
variable {table : Table}

/-- A round loses nothing that was written down about any function. -/
theorem ledger_below_of_absorbed (hworklist : p.worklist = name :: rest)
    (h : Absorbed program { p with worklist := rest } name outcome table p')
    (hkept : p.table ≤ table) (caller : String) :
    (p.ledger caller).Below program (p'.ledger caller) where
  table := by
    show p.table ≤ p'.table
    rw [h.table_eq]
    exact hkept
  exit := by
    show (p.summary caller).exit ≤ (p'.summary caller).exit
    rw [h.exit]
    -- only the function of the round gets a new exit
    split
    · next hn => exact hn ▸ Facts.le_join_left _ _
    · exact Facts.le_refl _
  ret := by
    show (p.summary caller).ret ≤ (p'.summary caller).ret
    rw [h.ret]
    split
    · next hn => exact hn ▸ Observation.le_join_left _ _
    · exact Observation.le_refl _
  entry := by
    rintro callee known - ⟨hactive, hcalls, rfl⟩
    refine ⟨_, ⟨active_of_absorbed hworklist h hactive, ?_, rfl⟩, ?_⟩
    · exact (h.calls caller callee).2 (Or.inl hcalls)
    · rw [h.entry]
      exact Facts.le_join_left _ _

/-- What the pass over a function has written down is taken in. -/
theorem pass_below_of_absorbed
    (h : Absorbed program { p with worklist := rest } name outcome table p') :
    (outcome.ledger table).Below program (p'.ledger name) where
  table := by
    show table ≤ p'.table
    rw [h.table_eq]
    exact Table.le_refl _
  exit := by
    show outcome.exit ≤ (p'.summary name).exit
    rw [h.exit, if_pos rfl]
    exact Facts.le_join_right _ _
  ret := by
    show outcome.ret ≤ (p'.summary name).ret
    rw [h.ret, if_pos rfl]
    exact Observation.le_join_right _ _
  entry := by
    intro callee known hbody hknown
    have hknown : outcome.calls.get? callee = some known := hknown
    refine ⟨_, ⟨?_, (h.calls name callee).2 (Or.inr ⟨rfl, ?_⟩), rfl⟩, ?_⟩
    · -- a callee that has never been looked at waits now
      by_cases hvisited : p'.visited.contains callee = true
      · exact Or.inl hvisited
      · have hnew : p'.visited.contains callee = false := by simpa using hvisited
        exact Or.inr (h.callees callee known hknown hbody (Or.inr hnew))
    · exact FiniteMap.mem_keys_iff.2 ⟨known, hknown⟩
    · rw [h.entry, hknown]
      exact Facts.le_join_right _ _

/-- A function that does not wait after the round has been passed nothing new. -/
theorem entry_eq_of_absorbed
    (h : Absorbed program { p with worklist := rest } name outcome table p') {n : String}
    (hbody : (program.body? n).isSome = true) (hidle : n ∉ p'.worklist) :
    (p'.summary n).entry = (p.summary n).entry := by
  rw [h.entry]
  show Facts.join (p.summary n).entry _ = (p.summary n).entry
  cases hcall : outcome.calls.get? n with
  | none => exact Facts.join_empty _
  | some passed =>
    rw [Option.getD_some, Facts.join_eq_left_iff]
    -- anything more would have put the function into the worklist
    apply Classical.byContradiction
    intro hmore
    exact hidle (h.callees n passed hcall hbody (Or.inl hmore))

/-- What a caller that does not wait after the round reads of a function it calls has not changed. -/
theorem reads_eq_of_absorbed
    (h : Absorbed program { p with worklist := rest } name outcome table p') {caller : String}
    (hbody : (program.body? caller).isSome = true) (hidle : caller ∉ p'.worklist)
    {callee : String} (hcalls : p'.Calls caller callee) :
    (p'.summary callee).exit = (p.summary callee).exit ∧
      (p'.summary callee).ret = (p.summary callee).ret := by
  by_cases hn : callee = name
  · -- a grown summary would have put its callers into the worklist
    subst hn
    apply Classical.byContradiction
    intro hgrown
    rw [Classical.not_and_iff_not_or_not] at hgrown
    exact hidle (h.callers hgrown caller hcalls hbody)
  · have hexit := h.exit callee
    have hret := h.ret callee
    rw [if_neg hn] at hexit hret
    exact ⟨hexit, hret⟩

/-- A caller that does not wait after the round finds the same facts behind every instruction. -/
theorem flow_eq_of_absorbed
    (h : Absorbed program { p with worklist := rest } name outcome table p') {caller : String}
    (hbody : (program.body? caller).isSome = true) (hidle : caller ∉ p'.worklist) {i : Instruction}
    (hcalls : ∀ e, program.entering? i = some e → p'.Calls caller e.target.name) (facts : Facts) :
    flow program model p.summaries i facts = flow program model p'.summaries i facts := by
  cases he : program.entering? i with
  | none => rw [flow_of_not_entering he, flow_of_not_entering he]
  | some e =>
    have hsame := reads_eq_of_absorbed h hbody hidle (hcalls e he)
    rw [flow_of_entering he, flow_of_entering he]
    show e.resume (p.summary e.target.name).exit (p.summary e.target.name).ret facts =
      e.resume (p'.summary e.target.name).exit (p'.summary e.target.name).ret facts
    rw [hsame.1, hsame.2]

/-- A block all of whose consequences were taken in before the round is so after it, if the function
does not wait. -/
theorem along_of_absorbed {f : Function}
    (h : Absorbed program { p with worklist := rest } name outcome table p')
    (hbody : program.body? f.name = some f) (hidle : f.name ∉ p'.worklist) {ledger : Ledger}
    (hbelow : ledger.Below program (p'.ledger f.name)) {onward : Facts → Prop}
    {is : List Instruction} {facts : Facts}
    (hpoints : Along program model p.summaries (Recorded ledger program f onward) is facts) :
    Along program model p'.summaries (Recorded (p'.ledger f.name) program f onward) is facts := by
  have hrecorded := hpoints.mono fun _ _ => Recorded.mono hbelow fun _ honward => honward
  refine hrecorded.of_summaries fun i rest facts hpoint => ?_
  apply flow_eq_of_absorbed h (Option.isSome_iff_exists.2 ⟨f, hbody⟩) hidle
  -- a call that has been recorded is known to the loop
  intro e he
  obtain ⟨known, ⟨-, hcalls, -⟩, -⟩ := Ledger.Records.passed hpoint e he
  exact hcalls

/-- A function that was current and does not wait after the round is current still. -/
theorem current_of_absorbed (hworklist : p.worklist = name :: rest)
    (h : Absorbed program { p with worklist := rest } name outcome table p')
    (hkept : p.table ≤ table) {f : Function} {inflow : List (Option Facts)}
    (hbody : program.body? f.name = some f) (hidle : f.name ∉ p'.worklist)
    (hf : Current program model p f inflow) : Current program model p' f inflow where
  entered := by
    rw [entry_eq_of_absorbed h (Option.isSome_iff_exists.2 ⟨f, hbody⟩) hidle]
    exact hf.entered
  settled := by
    intro k b facts hb hk
    have hbelow := ledger_below_of_absorbed hworklist h hkept f.name
    exact along_of_absorbed h hbody hidle hbelow (hf.settled k b facts hb hk)

/-- The function just looked at is current, unless the round has put it back. -/
theorem current_of_pass {f : Function} {pass : Pass}
    (h : Absorbed program { p with worklist := rest } f.name pass.outcome pass.table p')
    (hbody : program.body? f.name = some f) (hidle : f.name ∉ p'.worklist)
    (hclosed : Pass.Closed program model p.summaries f (p.summary f.name).entry p.table pass)
    (hpending : pass.pending = []) : Current program model p' f pass.inflow where
  entered := by
    rw [entry_eq_of_absorbed h (Option.isSome_iff_exists.2 ⟨f, hbody⟩) hidle]
    exact hclosed.entered
  settled := by
    intro k b facts hb hk
    have hidle' : k ∉ pass.pending := by simp [hpending]
    exact along_of_absorbed h hbody hidle (pass_below_of_absorbed h)
      (hclosed.settled k b facts hb hk hidle')

theorem Witnessed.of_absorbed (hworklist : p.worklist = name :: rest)
    (h : Absorbed program { p with worklist := rest } name outcome table p')
    (hkept : p.table ≤ table) {id : InstId} {v : ValueId} {σ : State}
    (hw : Witnessed program model p id v σ) : Witnessed program model p' id v σ := by
  obtain ⟨f, k, i, behind, summaries, facts, hbody, hremains, hid, hseen, hv⟩ := hw
  have hbelow := ledger_below_of_absorbed hworklist h hkept f.name
  refine ⟨f, k, i, behind, summaries, facts, hbody, hremains, hid, ?_, hv⟩
  exact Along.mono hseen fun _ _ =>
    Recorded.mono hbelow fun _ honward j hj => (honward j hj).mono hbelow.table

/-- A cell that the pass has written is witnessed by the visit that wrote it. -/
theorem Witnessed.of_pass {f : Function} {pass : Pass}
    (h : Absorbed program { p with worklist := rest } f.name pass.outcome pass.table p')
    (hbody : program.body? f.name = some f)
    (hclosed : Pass.Closed program model p.summaries f (p.summary f.name).entry p.table pass)
    (hpending : pass.pending = []) {k : Nat} {b : Block} {i : Instruction}
    {behind : List Instruction} {facts : Facts} {v : ValueId} {σ : State}
    (hb : f.blocks[k]? = some b) (hsuffix : i :: behind <:+ b.instructions)
    (hpoint : Along program model p.summaries
      (Recorded pass.ledger program f (Pass.Arrived pass.inflow b)) (i :: behind) facts)
    (hv : facts.get? v = some σ) : Witnessed program model p' i.id v σ := by
  refine ⟨f, k, i, behind, p.summaries, facts, hbody, ⟨b, hb, hsuffix⟩, rfl, ?_, hv⟩
  have hsettled : Settled program model p.summaries f pass.ledger pass.inflow := by
    intro k b facts hb hk
    exact hclosed.settled k b facts hb hk (by simp [hpending])
  have hbelow : pass.ledger.Below program (p'.ledger f.name) := pass_below_of_absorbed h
  -- facts that have arrived at the successors are held at the instructions met there
  have honward : ∀ facts, Pass.Arrived pass.inflow b facts → p'.Onward f k facts := by
    intro facts harrived j hj
    exact (hsettled.holds_next hb hj harrived).mono hbelow.table
  exact hpoint.mono fun _ _ => Recorded.mono hbelow honward

/-- **One round keeps the invariant.** -/
theorem stable_round (hp : Stable program model entries p)
    (hworklist : p.worklist = name :: rest) {f : Function} (hbody : program.body? name = some f)
    {pass : Pass}
    (hclosed : Pass.Closed program model p.summaries f (p.summary name).entry p.table pass)
    (hpending : pass.pending = [])
    (h : Absorbed program { p with worklist := rest } name pass.outcome pass.table p') :
    Stable program model entries p' := by
  have hname : f.name = name := Program.name_of_body? hbody
  subst hname
  refine ⟨?_, ?_, ?_, ?_⟩
  · intro n hn
    rcases h.queued n hn with hn | ⟨hn, -⟩
    · exact hp.bodies n (hworklist ▸ List.mem_cons_of_mem _ hn)
    · exact hn
  · intro n hn hn'
    exact active_of_absorbed hworklist h (hp.started n hn hn')
  · -- either the function just looked at or one that has not changed
    intro g hg hvisited hidle
    by_cases hfg : g.name = f.name
    · obtain rfl := Program.eq_of_body? hbody hg hfg
      exact ⟨pass.inflow, current_of_pass h hbody hidle hclosed hpending⟩
    · obtain ⟨hvisited', hidle'⟩ := idle_of_absorbed hworklist h hfg hvisited hidle
      obtain ⟨inflow, hcurrent⟩ := hp.current g hg hvisited' hidle'
      exact ⟨inflow, current_of_absorbed hworklist h hclosed.kept hg hidle hcurrent⟩
  · intro id v σ hcell
    rw [h.table_eq] at hcell
    -- the pass has kept the old cells, and knows the visit behind each new one
    rcases hclosed.cells id v σ hcell with hold | hnew
    · exact (hp.cells id v σ hold).of_absorbed hworklist h hclosed.kept
    · obtain ⟨k, b, i, behind, facts, hb, hsuffix, rfl, hpoint, hv⟩ := hnew
      exact Witnessed.of_pass h hbody hclosed hpending hb hsuffix hpoint hv

end

/-! ## §4 Finished runs -/

theorem stable_start (entries : List String) :
    Stable program model entries (start program entries) := by
  have hstart : start program entries =
      { empty with worklist := (start program entries).worklist } := start_eq entries
  have hworklist : ∀ n, n ∈ (start program entries).worklist ↔
      n ∈ entries ∧ (program.body? n).isSome = true := fun n => mem_start
  refine ⟨fun n hn => ((hworklist n).1 hn).2, fun n hn hn' => Or.inr ((hworklist n).2 ⟨hn, hn'⟩),
    ?_, ?_⟩
  · -- nothing has been looked at and nothing has been written
    intro f _ hvisited _
    rw [hstart] at hvisited
    cases hvisited
  · intro id v σ hcell
    rw [hstart] at hcell
    cases hcell

/-- **A finished run is stable and nobody waits.** -/
theorem stable_of_solve {limit : Nat} {t : Table} (h : solve program model limit entries = .ok t) :
    program.Checked entries ∧
      ∃ p, Stable program model entries p ∧ p.worklist = [] ∧ p.table = t := by
  obtain ⟨hvalidate, p, hrun, htable⟩ := exists_of_solve h
  have hchecked := Program.checked_of_validate hvalidate
  refine ⟨hchecked, ?_⟩
  -- one round keeps the invariant, and the run ends when nobody waits
  have hfinal : Stable program model entries p ∧ p.worklist = [] := by
    refine run_invariant (fun p hp => hp.bodies) ?_ hrun (stable_start entries)
    intro p name rest f budget left pass hp hworklist hbody hsweep p' habsorbed
    have hmem := Program.mem_of_body? hbody
    have hblocks : 0 < f.blocks.length := Program.blocks_of_body? hbody
    obtain ⟨hclosed, hpending⟩ := Pass.closed_of_sweep (hchecked.successors f hmem) hblocks hsweep
    exact stable_round hp hworklist hbody hclosed hpending habsorbed
  exact ⟨p, hfinal.1, hfinal.2, htable⟩

section
variable {p : Propagation}

theorem Stable.current_of_active (hp : Stable program model entries p) (hidle : p.worklist = [])
    {f : Function} (hbody : program.body? f.name = some f) (hactive : p.Active f.name) :
    ∃ inflow, Current program model p f inflow := by
  have hvisited : p.visited.contains f.name = true := by
    rcases hactive with h | h
    · exact h
    · rw [hidle] at h
      cases h
  exact hp.current f hbody hvisited (by simp [hidle])

/-- **Reached blocks have facts**, and the function they belong to is current. -/
theorem Stable.exists_inflow (hp : Stable program model entries p) (hidle : p.worklist = [])
    {f : Function} {k : Nat} (hreached : Reached program entries f k) :
    ∃ (inflow : List (Option Facts)) (facts : Facts),
      Current program model p f inflow ∧ inflow[k]? = some (some facts) := by
  induction hreached with
  | entry hname hbody =>
    have hbody' := Program.body?_name hbody
    have hactive := hp.started _ hname (Option.isSome_iff_exists.2 ⟨_, hbody⟩)
    rw [← Program.name_of_body? hbody] at hactive
    obtain ⟨inflow, hcurrent⟩ := hp.current_of_active hidle hbody' hactive
    obtain ⟨facts, hfacts, -⟩ := hcurrent.entered
    exact ⟨inflow, facts, hcurrent, hfacts⟩
  | jump _ hb ht ih =>
    obtain ⟨inflow, facts, hcurrent, hfacts⟩ := ih
    obtain ⟨facts', hfacts'⟩ := hcurrent.settled.exists_inflow hb hfacts ht
    exact ⟨inflow, facts', hcurrent, hfacts'⟩
  | enter _ hb hi he ih =>
    -- the caller has passed something to the body, so the body takes part
    obtain ⟨inflow, facts, hcurrent, hfacts⟩ := ih
    obtain ⟨behind, facts', hpoint⟩ := (hcurrent.settled _ _ _ hb hfacts).exists_of_mem hi
    obtain ⟨known, ⟨hactive, -, -⟩, -⟩ := Ledger.Records.passed hpoint _ he
    obtain ⟨inflow', hcurrent'⟩ :=
      hp.current_of_active hidle (Program.body?_of_entering he) hactive
    obtain ⟨first, hfirst, -⟩ := hcurrent'.entered
    exact ⟨inflow', first, hcurrent', hfirst⟩

end

end Propagation

end Typestate
