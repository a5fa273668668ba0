import Typestate.Proofs.Pass
import Typestate.Proofs.Propagation

/-!
# Where the cells of a table come from

Closed tables bound a run from below. This module bounds it from above: everything a run writes down
is gained by a small set of rules, which know nothing about worklists, budgets or the order of
visits. Whatever the rules preserve therefore holds of every cell, whichever way the run went.

Note the rule `nothing`: a body is entered before anything is known of its returns, and control is
then taken past the call with the facts as they are.

## Contents

- §1 The rules
- §2 Gained knowledge is about reached code and holds no sentinel
- §3 A pass gains what it writes down
- §4 So does a whole run
-/

namespace Typestate

/-! ## §1 Rules -/

/-- What a run may come to know: facts on entry to a function, facts before the rest of a block, and
what is known at the returns of a function. -/
inductive Knowledge where
  | entry (f : Function) (facts : Facts)
  | before (f : Function) (k : Nat) (rest : List Instruction) (facts : Facts)
  | exit (f : Function) (facts : Facts) (ret : Observation)

/-- The rules by which a run gains knowledge. -/
inductive Gained (program : Program) (model : CallModel) (entries : List String) :
    Knowledge → Prop where
  /-- Nothing is known on entry to an entry point. -/
  | start {name : String} {f : Function} :
      name ∈ entries → program.body? name = some f → Gained program model entries (.entry f .empty)
  /-- A call passes the facts of its arguments on to the parameters. -/
  | enter {f : Function} {k : Nat} {i : Instruction} {rest : List Instruction} {facts : Facts}
      {e : Entering} :
      Gained program model entries (.before f k (i :: rest) facts) →
      program.entering? i = some e →
      Gained program model entries (.entry e.target (e.passed facts))
  | joinEntry {f : Function} {facts facts' : Facts} :
      Gained program model entries (.entry f facts) →
      Gained program model entries (.entry f facts') →
      Gained program model entries (.entry f (Facts.join facts facts'))
  /-- A function starts in its first block. -/
  | begin {f : Function} {b : Block} {facts : Facts} :
      Gained program model entries (.entry f facts) → f.blocks[0]? = some b →
      Gained program model entries (.before f 0 b.instructions facts)
  /-- Control goes from the end of a block to its successors. -/
  | jump {f : Function} {k : Nat} {b b' : Block} {t : UInt64} {facts : Facts} :
      Gained program model entries (.before f k [] facts) → f.blocks[k]? = some b →
      t ∈ b.successors → f.blocks[t.toNat]? = some b' →
      Gained program model entries (.before f t.toNat b'.instructions facts)
  | joinBefore {f : Function} {k : Nat} {rest : List Instruction} {facts facts' : Facts} :
      Gained program model entries (.before f k rest facts) →
      Gained program model entries (.before f k rest facts') →
      Gained program model entries (.before f k rest (Facts.join facts facts'))
  /-- An instruction that enters no body acts by itself. -/
  | through {f : Function} {k : Nat} {i : Instruction} {rest : List Instruction} {facts : Facts} :
      Gained program model entries (.before f k (i :: rest) facts) → program.entering? i = none →
      Gained program model entries (.before f k rest (model.through i facts))
  /-- A call into a body resumes with what is known at the returns. -/
  | resume {f : Function} {k : Nat} {i : Instruction} {rest : List Instruction}
      {facts exit : Facts} {e : Entering} {ret : Observation} :
      Gained program model entries (.before f k (i :: rest) facts) →
      program.entering? i = some e → Gained program model entries (.exit e.target exit ret) →
      Gained program model entries (.before f k rest (e.resume exit ret facts))
  /-- At first nothing is known at the returns of a function. -/
  | nothing {f : Function} : Gained program model entries (.exit f .empty none)
  /-- A return records parameters and the returned value. -/
  | leave {f : Function} {k : Nat} {i : Instruction} {rest : List Instruction} {facts : Facts}
      {value : Option ValueId} :
      Gained program model entries (.before f k (i :: rest) facts) → i.op = .ret value →
      Gained program model entries
        (.exit f (recordExit f.params facts .empty) (value.bind facts.get?))
  | joinExit {f : Function} {exit exit' : Facts} {ret ret' : Observation} :
      Gained program model entries (.exit f exit ret) →
      Gained program model entries (.exit f exit' ret') →
      Gained program model entries (.exit f (Facts.join exit exit') (Observation.join ret ret'))

variable {program : Program} {model : CallModel} {entries : List String}

/-! ## §2 Reached code, no sentinels -/

/-- Knowledge about reached code. -/
def Knowledge.OfReached (program : Program) (entries : List String) : Knowledge → Prop
  | .entry f _ => Reached program entries f 0
  | .before f k rest _ => Reached program entries f k ∧ Remains f k rest
  | .exit _ _ _ => True

/-- What is gained concerns reached code. -/
theorem Gained.ofReached {know : Knowledge} (h : Gained program model entries know) :
    know.OfReached program entries := by
  induction h with
  | start hname hbody => exact Reached.entry hname hbody
  | enter _ he ih =>
    obtain ⟨hreached, b, hb, hsuffix⟩ := ih
    exact Reached.enter hreached hb (hsuffix.subset (List.mem_cons_self ..)) he
  | joinEntry _ _ ih _ => exact ih
  | begin _ hb ih => exact ⟨ih, _, hb, List.suffix_refl _⟩
  | jump _ hb ht hb' ih => exact ⟨Reached.jump ih.1 hb ht, _, hb', List.suffix_refl _⟩
  | joinBefore _ _ ih _ => exact ih
  | through _ _ ih => exact ⟨ih.1, ih.2.tail⟩
  | resume _ _ _ ih _ => exact ⟨ih.1, ih.2.tail⟩
  | nothing => trivial
  | leave _ _ _ => trivial
  | joinExit _ _ _ _ => trivial

/-- Every state known of the value satisfies `Good`. -/
def Observation.All (Good : State → Prop) (o : Observation) : Prop := ∀ s, o = some s → Good s

section
variable {Good : State → Prop}

theorem Observation.all_none : Observation.All Good none := fun _ hs => nomatch hs

theorem Observation.All.getD {o : Observation} (h : o.All Good) (huninit : Good .uninit) :
    Good (o.getD .uninit) := by
  cases o with
  | none => exact huninit
  | some s => exact h s rfl

theorem Observation.All.join {a b : Observation} (ha : a.All Good) (hb : b.All Good) :
    (Observation.join a b).All Good := by
  rcases Observation.join_eq_or a b with h | h
  · rwa [h]
  · rwa [h]

/-- What steps keep, and `uninit` has, holds of every state behind a call. -/
theorem CallModel.all_effect (m : CallModel) (callee : String) (args : List ValueId)
    (result : Option ValueId) (huninit : Good .uninit)
    (hnext : ∀ s, Good s → Good (m.next callee s)) (v : ValueId) {o : Observation}
    (h : o.All Good) : (m.effect callee args result v o).All Good := by
  have hmoved : ∀ o : Observation, o.All Good →
      Observation.All Good (some (m.next callee (o.getD .uninit))) := by
    rintro o ho _ ⟨⟩
    exact hnext _ (ho.getD huninit)
  have hset := hmoved none Observation.all_none
  have hkept := m.effect_rel callee args result (v := v)
    (R := fun o o' => Observation.All Good o ∧ Observation.All Good o') ?_ ⟨hset, hset⟩ ⟨h, h⟩
  · exact hkept.1
  · exact fun o o' h => ⟨hmoved o h.1, hmoved o' h.2⟩

end

/-- Knowledge in which every state satisfies `Good`. -/
def Knowledge.All (Good : State → Prop) : Knowledge → Prop
  | .entry _ facts => ∀ v, Observation.All Good (facts.get? v)
  | .before _ _ _ facts => ∀ v, Observation.All Good (facts.get? v)
  | .exit _ facts ret => (∀ v, Observation.All Good (facts.get? v)) ∧ ret.All Good

/-- A reached block calls `callee`, which has no body in the program. -/
def Program.ReachesOut (program : Program) (entries : List String) (callee : String) : Prop :=
  ∃ f k b i, Reached program entries f k ∧ f.blocks[k]? = some b ∧ i ∈ b.instructions ∧
    i.callee? = some callee ∧ program.body? callee = none

/-- **Only reached calls out of the program make states.** What they keep, and `uninit` has, holds of
every state there is. -/
theorem Gained.all {Good : State → Prop} (huninit : Good .uninit)
    (hnext : ∀ callee, program.ReachesOut entries callee → ∀ s, Good s → Good (model.next callee s))
    {know : Knowledge} (h : Gained program model entries know) : know.All Good := by
  have hempty : ∀ v, Observation.All Good ((FiniteMap.empty : Facts).get? v) := by
    intro v s hs
    simp at hs
  -- a join keeps one of two states, so what holds of both holds of it
  have hjoin : ∀ {facts facts' : Facts}, (∀ v, Observation.All Good (facts.get? v)) →
      (∀ v, Observation.All Good (facts'.get? v)) →
      ∀ v, Observation.All Good ((Facts.join facts facts').get? v) := by
    intro facts facts' h h' v
    rw [Facts.get?_join]
    exact (h v).join (h' v)
  induction h with
  | start _ _ => exact hempty
  | enter _ _ ih =>
    intro v s hs
    obtain ⟨a, -, ha⟩ := get?_passArguments_eq_some hs
    exact ih a s ha
  | joinEntry _ _ ih ih' => exact hjoin ih ih'
  | begin _ _ ih => exact ih
  | jump _ _ _ _ ih => exact ih
  | joinBefore _ _ ih ih' => exact hjoin ih ih'
  | @through f k i rest facts hbefore hout ih =>
    intro v
    unfold CallModel.through
    cases hop : i.op with
    | call callee args result =>
      obtain ⟨hreached, b, hb, hsuffix⟩ := hbefore.ofReached
      have hbody : program.body? callee = none := by
        simpa [Program.entering?, hop] using hout
      -- the call goes out of the program from reached code
      have hcallee : program.ReachesOut entries callee :=
        ⟨f, k, b, i, hreached, hb, hsuffix.subset (List.mem_cons_self ..),
          by simp [Instruction.callee?, hop], hbody⟩
      show Observation.All Good ((model.apply callee args result facts).get? v)
      rw [CallModel.get?_apply]
      exact model.all_effect callee args result huninit (hnext callee hcallee) v (ih v)
    | ret value => exact ih v
    | other text => exact ih v
  | @resume f k i rest facts exit e ret _ _ _ ih ih' =>
    intro v
    -- behind a body a state is an old one, one of its exit or the returned one
    rcases e.get?_resume_eq_or exit ret facts v with h | ⟨q, -, h⟩ | ⟨-, h⟩
    · rw [h]
      exact ih v
    · rw [h]
      exact ih'.1 q
    · rw [h]
      exact ih'.2
  | nothing => exact ⟨hempty, Observation.all_none⟩
  | @leave f k i rest facts value _ _ ih =>
    refine ⟨?_, ?_⟩
    · intro v s hs
      exact ih v s (get?_recordExit_eq_some hs).2
    · intro s hs
      obtain ⟨v, -, hv⟩ := Option.bind_eq_some_iff.1 hs
      exact ih v s hv
  | joinExit _ _ ih ih' => exact ⟨hjoin ih.1 ih'.1, ih.2.join ih'.2⟩

/-- Neither of the two sentinels, which no run writes down. -/
def Observation.Proper (o : Observation) : Prop := o.All (State.uninit ≤ ·)

theorem Observation.proper_none : Observation.Proper none := Observation.all_none

theorem Observation.Proper.getD {o : Observation} (h : o.Proper) :
    State.uninit ≤ o.getD .uninit := All.getD h (State.le_refl _)

/-- A step never loses information, so it cannot lead to a sentinel. -/
theorem CallModel.proper_next (m : CallModel) (callee : String) {o : Observation} (h : o.Proper) :
    Observation.Proper (some (m.next callee (o.getD .uninit))) := by
  rintro _ ⟨⟩
  exact State.le_trans h.getD (Token.le_step m.mode _ _)

theorem CallModel.proper_effect (m : CallModel) (callee : String) (args : List ValueId)
    (result : Option ValueId) (v : ValueId) {o : Observation} (h : o.Proper) :
    (m.effect callee args result v o).Proper :=
  m.all_effect callee args result (State.le_refl _)
    (fun _ hs => State.le_trans hs (Token.le_step m.mode _ _)) v h

/-- A relation that steps keep is kept by a whole call, sentinels on the right aside. -/
theorem CallModel.effect_rel_of_proper (m : CallModel) (callee : String) (args : List ValueId)
    (result : Option ValueId) {R : Observation → Observation → Prop} {v : ValueId}
    (hnone : R none none)
    (hstep : ∀ o o', R o o' → o'.Proper →
      R (some (m.next callee (o.getD .uninit))) (some (m.next callee (o'.getD .uninit))))
    {o o' : Observation} (h : R o o') (ho' : o'.Proper) :
    R (m.effect callee args result v o) (m.effect callee args result v o') := by
  have hkept := m.effect_rel callee args result (v := v)
    (R := fun o o' => R o o' ∧ Observation.Proper o') ?_ ?_ ⟨h, ho'⟩
  · exact hkept.1
  · exact fun o o' h => ⟨hstep o o' h.1 h.2, m.proper_next callee h.2⟩
  · exact ⟨hstep none none hnone Observation.proper_none,
      m.proper_next callee Observation.proper_none⟩

/-- Knowledge without sentinels. -/
def Knowledge.Proper (know : Knowledge) : Prop := know.All (State.uninit ≤ ·)

theorem Gained.proper {know : Knowledge} (h : Gained program model entries know) :
    know.Proper :=
  h.all (State.le_refl _) fun _ _ _ hs => State.le_trans hs (Token.le_step model.mode _ _)

/-! ## §3 Passes -/

/-- A cell with gained facts behind it. -/
def GainedCell (program : Program) (model : CallModel) (entries : List String) (id : InstId)
    (v : ValueId) (σ : State) : Prop :=
  ∃ (f : Function) (k : Nat) (i : Instruction) (rest : List Instruction) (facts : Facts),
    Gained program model entries (.before f k (i :: rest) facts) ∧ i.id = id ∧
    facts.get? v = some σ

/-- What has been written down in a pass over `f` has been gained. -/
structure Outcome.Gains (program : Program) (model : CallModel) (entries : List String)
    (f : Function) (outcome : Outcome) (table : Table) : Prop where
  exit : Gained program model entries (.exit f outcome.exit outcome.ret)
  calls : ∀ name passed, outcome.calls.get? name = some passed →
    ∃ g, program.body? name = some g ∧ Gained program model entries (.entry g passed)
  cells : ∀ id v σ, table.get? id v = some σ → GainedCell program model entries id v σ

/-- All summaries hold gained knowledge about the returns. -/
def Summaries.Gain (program : Program) (model : CallModel) (entries : List String)
    (summaries : Summaries) : Prop :=
  ∀ g, program.body? g.name = some g →
    Gained program model entries (.exit g (summaries.of g.name).exit (summaries.of g.name).ret)

theorem Gained.flow {summaries : Summaries} (hsummaries : summaries.Gain program model entries)
    {f : Function} {k : Nat} {i : Instruction} {rest : List Instruction} {facts : Facts}
    (h : Gained program model entries (.before f k (i :: rest) facts)) :
    Gained program model entries (.before f k rest (flow program model summaries i facts)) := by
  cases he : program.entering? i with
  | none =>
    rw [flow_of_not_entering he]
    exact h.through he
  | some e =>
    rw [flow_of_entering he]
    exact h.resume he (hsummaries _ (Program.body?_of_entering he))

theorem gains_transfer {summaries : Summaries} {f : Function} {k : Nat} {i : Instruction}
    {rest : List Instruction} {facts : Facts} {outcome : Outcome} {table : Table}
    (hfacts : Gained program model entries (.before f k (i :: rest) facts))
    (h : outcome.Gains program model entries f table) :
    (transfer program model summaries f i facts outcome).2.Gains program model entries f
      (table.joinRow i.id facts) := by
  have hcells : ∀ id v σ, (table.joinRow i.id facts).get? id v = some σ →
      GainedCell program model entries id v σ := by
    intro id v σ hcell
    rcases Table.get?_joinRow_eq_or table i.id id facts v with hold | ⟨rfl, hnew⟩
    · exact h.cells id v σ (hold ▸ hcell)
    · exact ⟨f, k, i, rest, facts, hfacts, rfl, hnew ▸ hcell⟩
  rcases transfer_cases program model summaries f i facts outcome with
    ⟨e, he, heq⟩ | ⟨value, hret, heq⟩ | heq
  · rw [heq]
    refine ⟨h.exit, ?_, hcells⟩
    intro name passed hpassed
    have hentry := hfacts.enter he
    simp only [FiniteMap.get?_alter] at hpassed
    by_cases hname : name = e.target.name
    · subst hname
      rw [if_pos rfl] at hpassed
      cases hpassed
      refine ⟨e.target, Program.body?_of_entering he, ?_⟩
      cases hold : outcome.calls.get? e.target.name with
      | none => exact hentry
      | some passed =>
        -- a second call into the same body adds to what the first one has passed
        obtain ⟨g, hg, hgained⟩ := h.calls _ _ hold
        rw [Program.body?_of_entering he] at hg
        cases hg
        rw [Option.getD_some, passArguments_eq_join]
        exact hgained.joinEntry hentry
    · rw [if_neg hname] at hpassed
      exact h.calls name passed hpassed
  · rw [heq]
    refine ⟨?_, h.calls, hcells⟩
    simp only
    rw [recordExit_eq_join, recordReturn_eq]
    exact h.exit.joinExit (hfacts.leave hret)
  · rw [heq]
    exact ⟨h.exit, h.calls, hcells⟩

namespace Pass

variable {summaries : Summaries} {f : Function}

/-- A run through the rest of a block gains what it writes down, and the facts it ends with. -/
theorem Stream.gains_run (hsummaries : summaries.Gain program model entries) {k : Nat}
    (is : List Instruction) (s : Stream)
    (hfacts : Gained program model entries (.before f k is s.facts))
    (h : s.outcome.Gains program model entries f s.table) :
    let s' := is.foldl (Stream.advance program model summaries f) s
    Gained program model entries (.before f k [] s'.facts) ∧
      s'.outcome.Gains program model entries f s'.table := by
  induction is generalizing s with
  | nil => exact ⟨hfacts, h⟩
  | cons i is ih =>
    apply ih (s.advance program model summaries f i)
    · rw [Stream.facts_advance]
      exact hfacts.flow hsummaries
    · exact gains_transfer hfacts h

/-- The facts of every block have been gained, and so has what is written down. -/
structure Gains (program : Program) (model : CallModel) (entries : List String) (f : Function)
    (pass : Pass) : Prop where
  inflow : ∀ (k : Nat) (b : Block) (facts : Facts), f.blocks[k]? = some b →
    pass.inflow[k]? = some (some facts) →
    Gained program model entries (.before f k b.instructions facts)
  outcome : pass.outcome.Gains program model entries f pass.table
  reached : ∀ k ∈ pass.pending, ∃ facts, pass.inflow[k]? = some (some facts)

/-- What arrives at a block has been gained there, alone or joined to what was there. -/
theorem gains_arrive {facts : Facts} {pass : Pass} {block : Nat}
    (h : Gains program model entries f pass)
    (hfacts : ∀ b, f.blocks[block]? = some b →
      Gained program model entries (.before f block b.instructions facts)) :
    Gains program model entries f (arrive facts pass block) := by
  have hgrows := (grows_arrive facts pass block).1
  refine ⟨?_, ?_, ?_⟩
  · intro k b facts' hb hk
    -- the facts of a block are old, new, or joined from both
    rcases inflow_arrive hk with hold | ⟨rfl, rfl | ⟨old, hold, rfl⟩⟩
    · exact h.inflow k b facts' hb hold
    · exact hfacts b hb
    · exact (h.inflow _ b old hb hold).joinBefore (hfacts b hb)
  · obtain ⟨inflow, pending, heq⟩ := arrive_eq facts pass block
    rw [heq]
    exact h.outcome
  · exact hgrows.reached_of h.reached

theorem gains_spread {facts : Facts} {targets : List UInt64} {pass : Pass}
    (h : Gains program model entries f pass)
    (hfacts : ∀ t ∈ targets, ∀ b, f.blocks[t.toNat]? = some b →
      Gained program model entries (.before f t.toNat b.instructions facts)) :
    Gains program model entries f (spread facts targets pass) := by
  induction targets generalizing pass with
  | nil => exact h
  | cons t targets ih =>
    apply ih (gains_arrive h (hfacts t (List.mem_cons_self ..)))
    intro u hu
    exact hfacts u (List.mem_cons_of_mem _ hu)

theorem gains_start {entry : Facts} {table : Table} (hblocks : 0 < f.blocks.length)
    (hentry : Gained program model entries (.entry f entry))
    (hcells : ∀ id v σ, table.get? id v = some σ → GainedCell program model entries id v σ) :
    Gains program model entries f (start f.blocks.length entry table) := by
  refine ⟨?_, ⟨Gained.nothing, ?_, hcells⟩, ?_⟩
  · intro k b facts hb hk
    obtain ⟨rfl, rfl⟩ := (inflow_start hblocks).1 hk
    exact hentry.begin hb
  · intro name passed hpassed
    simp [start, Outcome.empty] at hpassed
  · exact fun k hk => ⟨entry, (inflow_start hblocks).2 ⟨mem_pending_start.1 hk, rfl⟩⟩

theorem gains_visit (hsummaries : summaries.Gain program model entries) {pass : Pass} {k : Nat}
    {rest : List Nat} (h : Gains program model entries f pass) (hpending : pass.pending = k :: rest) :
    Gains program model entries f
      (visit program model summaries f { pass with pending := rest } k) := by
  cases hb : f.blocks[k]? with
  | none =>
    -- there is no such block, and the visit does nothing
    have hvisit : visit program model summaries f { pass with pending := rest } k =
        { pass with pending := rest } := by
      unfold visit
      rw [hb]
    rw [hvisit]
    exact ⟨h.inflow, h.outcome, fun l hl => h.reached l (hpending ▸ List.mem_cons_of_mem _ hl)⟩
  | some b =>
    obtain ⟨facts, hfacts⟩ := h.reached k (hpending ▸ List.mem_cons_self ..)
    have hfacts' : ({ pass with pending := rest } : Pass).inflow[k]? = some (some facts) := hfacts
    rw [visit_eq hb hfacts']
    obtain ⟨hlast, houtcome⟩ := Stream.gains_run hsummaries b.instructions
      ⟨facts, pass.outcome, pass.table⟩ (h.inflow k b facts hb hfacts) h.outcome
    apply gains_spread
    · exact ⟨h.inflow, houtcome,
        fun l hl => h.reached l (hpending ▸ List.mem_cons_of_mem _ hl)⟩
    · intro t ht b' hb'
      exact hlast.jump hb ht hb'

end Pass

/-! ## §4 Runs -/

namespace Propagation

/-- What is known between two rounds has been gained. -/
structure Gains (program : Program) (model : CallModel) (entries : List String)
    (p : Propagation) : Prop where
  bodies : ∀ n ∈ p.worklist, (program.body? n).isSome = true
  callers : ∀ n m, p.Calls n m → p.Active n
  /-- A function that does not take part yet has been passed nothing. -/
  idle : ∀ n, (program.body? n).isSome = true → ¬ p.Active n → (p.summary n).entry = .empty
  entry : ∀ g, program.body? g.name = some g → p.Active g.name →
    Gained program model entries (.entry g (p.summary g.name).entry)
  exit : p.summaries.Gain program model entries
  cells : ∀ id v σ, p.table.get? id v = some σ → GainedCell program model entries id v σ

theorem gains_start (entries : List String) :
    Gains program model entries (start program entries) := by
  have hstart : start program entries =
      { empty with worklist := (start program entries).worklist } := start_eq entries
  have hworklist : ∀ n, n ∈ (start program entries).worklist ↔
      n ∈ entries ∧ (program.body? n).isSome = true := fun n => mem_start
  have hsummary : ∀ n, (start program entries).summary n = .empty := by
    intro n
    rw [hstart]
    rfl
  refine ⟨fun n hn => ((hworklist n).1 hn).2, ?_, fun n _ _ => by rw [hsummary]; rfl, ?_, ?_, ?_⟩
  · rintro n m ⟨known, hknown, -⟩
    rw [hstart] at hknown
    cases hknown
  · intro g hg hactive
    have hname : g.name ∈ entries := by
      rcases hactive with hvisited | hwaits
      · rw [hstart] at hvisited
        cases hvisited
      · exact ((hworklist g.name).1 hwaits).1
    rw [hsummary]
    exact Gained.start hname hg
  · intro g _
    show Gained program model entries
      (.exit g ((start program entries).summary g.name).exit
        ((start program entries).summary g.name).ret)
    rw [hsummary]
    exact Gained.nothing
  · intro id v σ hcell
    rw [hstart] at hcell
    cases hcell

/-- **One round gains what it takes in.** -/
theorem gains_round {p p' : Propagation} {name : String} {rest : List String} {f : Function}
    {pass : Pass} (hp : Gains program model entries p) (hworklist : p.worklist = name :: rest)
    (hbody : program.body? name = some f) (hpass : Pass.Gains program model entries f pass)
    (h : Absorbed program { p with worklist := rest } name pass.outcome pass.table p') :
    Gains program model entries p' := by
  have hname : f.name = name := Program.name_of_body? hbody
  subst hname
  have hmono : ∀ n, p.Active n → p'.Active n := fun n => active_of_absorbed hworklist h
  have hself : p'.Active f.name := Or.inl ((h.visited f.name).2 (Or.inl rfl))
  have hcallers : ∀ n m, p'.Calls n m → p'.Active n := by
    intro n m hcalls
    rcases (h.calls n m).1 hcalls with hold | ⟨rfl, -⟩
    · exact hmono n (hp.callers n m hold)
    · exact hself
  -- whoever takes part now did so before or has just been called
  have hactive : ∀ n, p'.Active n → p.Active n ∨ n ∈ pass.outcome.calls.keys := by
    have hf : p.Active f.name := Or.inr (hworklist ▸ List.mem_cons_self ..)
    intro n hn
    rcases hn with hvisited | hwaits
    · rcases (h.visited n).1 hvisited with rfl | hvisited
      · exact Or.inl hf
      · exact Or.inl (Or.inl hvisited)
    · rcases h.queued n hwaits with hwaits | ⟨-, hcalls | hcalled⟩
      · exact Or.inl (Or.inr (hworklist ▸ List.mem_cons_of_mem _ hwaits))
      · rcases (h.calls n f.name).1 hcalls with hold | ⟨rfl, -⟩
        · exact Or.inl (hp.callers n f.name hold)
        · exact Or.inl hf
      · exact Or.inr hcalled
  refine ⟨?_, hcallers, ?_, ?_, ?_, ?_⟩
  · intro n hn
    rcases h.queued n hn with hn | ⟨hn, -⟩
    · exact hp.bodies n (hworklist ▸ List.mem_cons_of_mem _ hn)
    · exact hn
  · -- a call would have made the function take part
    intro n hn hidle
    have hcall : pass.outcome.calls.get? n = none := by
      cases hcall : pass.outcome.calls.get? n with
      | none => rfl
      | some passed =>
        have hnew : p'.visited.contains n = false := by
          cases hvisited : p'.visited.contains n with
          | false => rfl
          | true => exact absurd (Or.inl hvisited) hidle
        exact absurd (Or.inr (h.callees n passed hcall hn (Or.inr hnew))) hidle
    rw [h.entry, hcall]
    show Facts.join (p.summary n).entry FiniteMap.empty = FiniteMap.empty
    rw [hp.idle n hn fun hn => hidle (hmono n hn), Facts.join_empty]
  · intro g hg hg'
    rw [h.entry]
    show Gained program model entries (.entry g (Facts.join (p.summary g.name).entry _))
    cases hcall : pass.outcome.calls.get? g.name with
    | none =>
      rw [Option.getD_none, Facts.join_empty]
      refine hp.entry g hg ((hactive g.name hg').resolve_right fun hmem => ?_)
      obtain ⟨passed, hpassed⟩ := FiniteMap.mem_keys_iff.1 hmem
      rw [hcall] at hpassed
      cases hpassed
    | some passed =>
      -- joined to what earlier rounds have passed, or to nothing at the first call
      obtain ⟨g', hg', hgained⟩ := hpass.outcome.calls g.name passed hcall
      rw [hg] at hg'
      cases hg'
      rw [Option.getD_some]
      by_cases hold : p.Active g.name
      · exact (hp.entry g hg hold).joinEntry hgained
      · rw [hp.idle g.name (Option.isSome_iff_exists.2 ⟨g, hg⟩) hold, Facts.empty_join]
        exact hgained
  · intro g hg
    show Gained program model entries
      (.exit g (p'.summary g.name).exit (p'.summary g.name).ret)
    rw [h.exit, h.ret]
    by_cases hgf : g.name = f.name
    · obtain rfl := Program.eq_of_body? hbody hg hgf
      rw [if_pos rfl, if_pos rfl]
      exact (hp.exit g hg).joinExit hpass.outcome.exit
    · rw [if_neg hgf, if_neg hgf]
      exact hp.exit g hg
  · intro id v σ hcell
    rw [h.table_eq] at hcell
    exact hpass.outcome.cells id v σ hcell

/-- **Every cell of a table has been gained**, and it is a cell of reached code. -/
theorem gained_of_solve {limit : Nat} {t : Table} (h : solve program model limit entries = .ok t)
    {id : InstId} {v : ValueId} {σ : State} (hcell : t.get? id v = some σ) :
    GainedCell program model entries id v σ := by
  obtain ⟨hvalidate, p, hrun, rfl⟩ := exists_of_solve h
  have hfinal : Gains program model entries p ∧ p.worklist = [] := by
    refine run_invariant (fun p hp => hp.bodies) ?_ hrun (gains_start entries)
    intro p name rest f budget left pass hp hworklist hbody hsweep p' habsorbed
    have hname : f.name = name := Program.name_of_body? hbody
    have hbody' := Program.body?_name hbody
    have hactive : p.Active f.name := by
      rw [hname]
      exact Or.inr (hworklist ▸ List.mem_cons_self ..)
    have hentry := hp.entry f hbody' hactive
    rw [hname] at hentry
    -- the pass begins with what was gained, and every visit gains
    obtain ⟨hpass, -⟩ := Pass.sweep_invariant
      (fun _ _ _ h hpending => Pass.gains_visit hp.exit h hpending) hsweep
      (Pass.gains_start (Program.blocks_of_body? hbody) hentry hp.cells)
    exact gains_round hp hworklist hbody hpass habsorbed
  exact hfinal.1.cells id v σ hcell

/-- A cell at an instruction shows that the function has been reached. -/
theorem reached_of_cell {limit : Nat} {t : Table}
    (h : solve program model limit entries = .ok t) {f : Function} (hf : f ∈ program.functions)
    {i : Instruction} (hi : i ∈ f.instructions) {v : ValueId} {s : State}
    (hcell : t.get? i.id v = some s) : ∃ k, Reached program entries f k := by
  have hchecked := Program.checked_of_validate (exists_of_solve h).1
  obtain ⟨g, k, j, rest, facts, hgained, hid, -⟩ := gained_of_solve h hcell
  obtain ⟨hreached, hremains⟩ := hgained.ofReached
  obtain ⟨k', rest', hremains'⟩ := Function.remains_of_mem hi
  obtain ⟨rfl, -, -⟩ := hchecked.place_unique hf (Program.mem_of_body? hreached.body) hremains'
    hremains hid.symm
  exact ⟨k, hreached⟩

theorem all_of_solve {Good : State → Prop} (huninit : Good .uninit)
    (hnext : ∀ callee, program.ReachesOut entries callee → ∀ s, Good s → Good (model.next callee s))
    {limit : Nat} {t : Table} (h : solve program model limit entries = .ok t) (id : InstId)
    (v : ValueId) : Observation.All Good (t.get? id v) := by
  intro s hcell
  obtain ⟨f, k, i, rest, facts, hgained, -, hs⟩ := gained_of_solve h hcell
  exact hgained.all huninit hnext v s hs

theorem proper_of_solve {limit : Nat} {t : Table} (h : solve program model limit entries = .ok t)
    (id : InstId) (v : ValueId) : Observation.Proper (t.get? id v) :=
  all_of_solve (State.le_refl _) (fun _ _ _ hs => State.le_trans hs (Token.le_step model.mode _ _))
    h id v

end Propagation

end Typestate
