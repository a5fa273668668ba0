import Typestate.Proofs.FixedPoint

/-!
# The table of a finished run is closed

Whatever the table says about a value at a reached instruction, it also says, moved on by that
instruction, at every instruction that comes next; and it says it of parameters and returned values
across the edges into and out of bodies.

The transfer is not monotone, so that the facts of the last visit are settled does not help with a
cell in which an earlier visit has left more. What helps is that states are totally ordered: the
state in a cell is *attained* by a single visit, and that visit has been taken in as a whole.

## Contents

- §1 Visits behind a cell
- §2 `Table.Closed`
- §3 Finished runs give closed tables
-/

namespace Typestate

variable {program : Program} {model : CallModel} {entries : List String}

/-! ## §1 Visits behind a cell -/

namespace Propagation

variable {p : Propagation} {f : Function} {k : Nat} {i j : Instruction} {rest : List Instruction}
variable {summaries : Summaries} {facts : Facts}

theorem Seen.records (h : Seen program model p f k summaries (i :: rest) facts) :
    (p.ledger f.name).Records program f i facts := Along.head h

/-- What a visit brings out of an instruction is held at the one that comes next. -/
theorem Seen.holds_next (h : Seen program model p f k summaries (i :: rest) facts)
    (hnext : Next f k rest j) : p.table.Holds j.id (flow program model summaries i facts) := by
  have hbehind := Along.head h.2
  cases rest with
  | nil => exact hbehind j hnext
  | cons i' rest =>
    cases hnext
    exact Ledger.Records.holds hbehind

/-- Behind a call into a body that is what the summary of the body makes of the facts. -/
theorem Seen.holds_resume (h : Seen program model p f k summaries (i :: rest) facts)
    (hnext : Next f k rest j) {e : Entering} (he : program.entering? i = some e) :
    p.table.Holds j.id
      (e.resume (summaries.of e.target.name).exit (summaries.of e.target.name).ret facts) := by
  rw [← flow_of_entering he]
  exact h.holds_next hnext

/-- The last visits of a current function have been taken in. -/
theorem Current.exists_seen {inflow : List (Option Facts)} (h : Current program model p f inflow)
    (hk : inflow[k]? = some (some facts)) (hremains : Remains f k (i :: rest)) :
    ∃ facts', Seen program model p f k p.summaries (i :: rest) facts' := by
  obtain ⟨b, hb, hsuffix⟩ := hremains
  obtain ⟨facts', hpoint⟩ := h.settled.exists_point hb hk hsuffix
  refine ⟨facts', hpoint.mono fun _ _ => Recorded.mono (Ledger.Below.refl _) ?_⟩
  intro facts harrived j hj
  exact h.settled.holds_next hb hj harrived

theorem Stable.exists_seen (hp : Stable program model entries p) (hidle : p.worklist = [])
    (hreached : Reached program entries f k) (hremains : Remains f k (i :: rest)) :
    ∃ facts, Seen program model p f k p.summaries (i :: rest) facts := by
  obtain ⟨inflow, facts, hcurrent, hfacts⟩ := hp.exists_inflow hidle hreached
  exact hcurrent.exists_seen hfacts hremains

/-- The visit behind a cell is at the place of its instruction. -/
theorem Stable.exists_seen_of_cell (hchecked : program.Checked entries)
    (hp : Stable program model entries p) (hbody : program.body? f.name = some f)
    (hremains : Remains f k (i :: rest)) {v : ValueId} {σ : State}
    (hcell : p.table.get? i.id v = some σ) :
    ∃ summaries facts, Seen program model p f k summaries (i :: rest) facts ∧
      facts.get? v = some σ := by
  obtain ⟨f', k', i', rest', summaries, facts, hbody', hremains', hid, hseen, hv⟩ :=
    hp.cells i.id v σ hcell
  obtain ⟨rfl, rfl, heq⟩ := hchecked.place_unique (Program.mem_of_body? hbody')
    (Program.mem_of_body? hbody) hremains' hremains hid
  obtain ⟨rfl, rfl⟩ := List.cons.inj heq
  exact ⟨summaries, facts, hseen, hv⟩

/-- **The table is attained**: at a reached instruction some visit shows exactly what the table says
about a value, be it a state or nothing. -/
theorem Stable.attained (hchecked : program.Checked entries) (hp : Stable program model entries p)
    (hidle : p.worklist = []) (hreached : Reached program entries f k)
    (hremains : Remains f k (i :: rest)) (v : ValueId) :
    ∃ summaries facts, Seen program model p f k summaries (i :: rest) facts ∧
      facts.get? v = p.table.get? i.id v := by
  cases hcell : p.table.get? i.id v with
  | some σ => exact hp.exists_seen_of_cell hchecked hreached.body hremains hcell
  | none =>
    -- where the table has nothing, no visit has anything
    obtain ⟨facts, hseen⟩ := hp.exists_seen hidle hreached hremains
    have hle : facts.get? v ≤ p.table.get? i.id v := hseen.records.holds v
    rw [hcell, Option.le_none] at hle
    exact ⟨p.summaries, facts, hseen, hle⟩

end Propagation

/-! ## §2 Closed tables -/

/-- The instruction acts on `v`: a call into a body on its paired arguments and its result, any other
call on what it touches. -/
def Instruction.Writes (program : Program) (model : CallModel) (i : Instruction) (v : ValueId) :
    Prop :=
  match program.entering? i with
  | some e => (∃ p, (v, p) ∈ e.pairs) ∨ e.result = some v
  | none =>
    match i.op with
    | .call callee args result => model.Touches callee args result v
    | _ => False

namespace Table

/-- What the table knows of `v` at `i` it also knows of `w` at `j`. -/
def Carries (t : Table) (i : InstId) (v : ValueId) (j : InstId) (w : ValueId) : Prop :=
  ∀ s, t.get? i v = some s → ∃ s', t.get? j w = some s' ∧ s ≤ s'

theorem carries_iff {t : Table} {i j : InstId} {v w : ValueId} :
    t.Carries i v j w ↔ t.get? i v ≤ t.get? j w := Observation.le_iff.symm

/-- The table is closed under the transfer along every edge of the reached code. -/
structure Closed (program : Program) (model : CallModel) (entries : List String) (t : Table) :
    Prop where
  /-- A value that an instruction does not write keeps its state. -/
  kept : ∀ {f k i rest j v}, Reached program entries f k → Remains f k (i :: rest) →
    Next f k rest j → ¬ i.Writes program model v → t.Carries i.id v j.id v
  /-- A value that a call without a body touches gets the state that the call makes of the row. -/
  applied : ∀ {f k i rest j callee args result v}, Reached program entries f k →
    Remains f k (i :: rest) → Next f k rest j → i.op = .call callee args result →
    program.body? callee = none → model.Touches callee args result v →
    ∃ s s', (model.apply callee args result (t.factsAt i.id)).get? v = some s ∧
      t.get? j.id v = some s' ∧ s ≤ s'
  /-- An argument arrives at its parameter, at the first instruction met in the body. -/
  passed : ∀ {f k i rest e b j a p}, Reached program entries f k → Remains f k (i :: rest) →
    program.entering? i = some e → e.target.blocks[0]? = some b →
    Next e.target 0 b.instructions j → (a, p) ∈ e.pairs → t.Carries i.id a j.id p
  /-- An argument keeps its state across a call into a body, unless it is the result. -/
  resumed : ∀ {f k i rest e j a p}, Reached program entries f k → Remains f k (i :: rest) →
    Next f k rest j → program.entering? i = some e → (a, p) ∈ e.pairs → e.result ≠ some a →
    t.Carries i.id a j.id a
  /-- A parameter at a return comes back to its argument, unless that is the result. -/
  exit : ∀ {f k i rest e j a p k' r rest' value}, Reached program entries f k →
    Remains f k (i :: rest) → Next f k rest j → program.entering? i = some e → (a, p) ∈ e.pairs →
    e.result ≠ some a → Remains e.target k' (r :: rest') → r.op = .ret value →
    t.Carries r.id p j.id a
  /-- The returned value comes back to the result. -/
  returned : ∀ {f k i rest e j w k' r rest' value}, Reached program entries f k →
    Remains f k (i :: rest) → Next f k rest j → program.entering? i = some e →
    e.result = some w → Remains e.target k' (r :: rest') → r.op = .ret (some value) →
    t.Carries r.id value j.id w
  /-- Whatever has a state before a call into a body, its result included, has one behind it. -/
  tracked : ∀ {f k i rest e j v}, Reached program entries f k → Remains f k (i :: rest) →
    Next f k rest j → program.entering? i = some e → (t.get? i.id v).isSome = true →
    (t.get? j.id v).isSome = true
  /-- And so has an argument, the result included, whose parameter has a state at a return. -/
  trackedExit : ∀ {f k i rest e j a p k' r rest' value}, Reached program entries f k →
    Remains f k (i :: rest) → Next f k rest j → program.entering? i = some e → (a, p) ∈ e.pairs →
    Remains e.target k' (r :: rest') → r.op = .ret value → (t.get? r.id p).isSome = true →
    (t.get? j.id a).isSome = true

end Table

/-! ## §3 Finished runs -/

namespace Entering

theorem le_resume {e : Entering} {v : ValueId} (h : e.result ≠ some v) (exit : Facts)
    (ret : Observation) (facts : Facts) : facts.get? v ≤ (e.resume exit ret facts).get? v := by
  rw [resume, get?_bindResult, if_neg fun hv => h hv.1]
  exact le_readBack exit e.pairs facts v

theorem exit_le_resume {e : Entering} {a p : ValueId} (hpair : (a, p) ∈ e.pairs)
    (h : e.result ≠ some a) (exit : Facts) (ret : Observation) (facts : Facts) :
    exit.get? p ≤ (e.resume exit ret facts).get? a := by
  rw [resume, get?_bindResult, if_neg fun ha => h ha.1]
  exact le_get?_readBack hpair exit facts

theorem ret_le_resume {e : Entering} {w : ValueId} (h : e.result = some w) (exit : Facts)
    (ret : Observation) (facts : Facts) : ret ≤ (e.resume exit ret facts).get? w := by
  rw [resume, get?_bindResult]
  cases ret with
  | none => simp
  | some s => simp [h, State.le_refl]

/-- Behind a call nothing is untracked that would not be without the returned state. -/
theorem isSome_resume {e : Entering} {exit : Facts} (ret : Observation) {facts : Facts}
    {v : ValueId} (h : ((readBack exit e.pairs facts).get? v).isSome = true) :
    ((e.resume exit ret facts).get? v).isSome = true := by
  rw [resume, get?_bindResult]
  split
  · next hret => exact hret.2
  · exact h

end Entering

theorem through_of_not_writes {i : Instruction} {v : ValueId} (he : program.entering? i = none)
    (h : ¬ i.Writes program model v) (facts : Facts) :
    (model.through i facts).get? v = facts.get? v := by
  unfold Instruction.Writes at h
  rw [he] at h
  unfold CallModel.through
  cases hop : i.op with
  | call callee args result =>
    rw [hop] at h
    show (model.apply callee args result facts).get? v = facts.get? v
    rw [CallModel.get?_apply, model.effect_of_not_touches callee args result h]
  | ret value => rfl
  | other text => rfl

theorem le_flow {i : Instruction} {v : ValueId} (h : ¬ i.Writes program model v)
    (summaries : Summaries) (facts : Facts) :
    facts.get? v ≤ (flow program model summaries i facts).get? v := by
  cases he : program.entering? i with
  | some e =>
    unfold Instruction.Writes at h
    rw [he] at h
    rw [flow_of_entering he]
    exact e.le_resume (fun hv => h (Or.inr hv)) _ _ _
  | none =>
    rw [flow_of_not_entering he, through_of_not_writes he h]
    exact Observation.le_refl _

section
variable {p : Propagation} {f : Function} {k : Nat} {i j : Instruction} {rest : List Instruction}

/-- What a return of a body has seen of a parameter is in the summary. -/
theorem Propagation.Stable.le_exit (hchecked : program.Checked entries)
    (hp : Propagation.Stable program model entries p) (hbody : program.body? f.name = some f)
    (hremains : Remains f k (i :: rest)) {value : Option ValueId} (hret : i.op = .ret value)
    {v : ValueId} (hv : v ∈ f.params) : p.table.get? i.id v ≤ (p.summary f.name).exit.get? v := by
  rw [Observation.le_iff]
  intro σ hcell
  obtain ⟨summaries, facts, hseen, hσ⟩ := hp.exists_seen_of_cell hchecked hbody hremains hcell
  have hrecorded := hseen.records.exit value hret v
  have hle := Observation.le_trans (le_get?_recordExit hv facts .empty) hrecorded
  rw [hσ] at hle
  exact Observation.le_iff.1 hle σ rfl

theorem Propagation.Stable.le_ret (hchecked : program.Checked entries)
    (hp : Propagation.Stable program model entries p) (hbody : program.body? f.name = some f)
    (hremains : Remains f k (i :: rest)) {v : ValueId} (hret : i.op = .ret (some v)) :
    p.table.get? i.id v ≤ (p.summary f.name).ret := by
  rw [Observation.le_iff]
  intro σ hcell
  obtain ⟨summaries, facts, hseen, hσ⟩ := hp.exists_seen_of_cell hchecked hbody hremains hcell
  have hrecorded : facts.get? v ≤ (p.summary f.name).ret := hseen.records.ret (some v) hret
  rw [hσ] at hrecorded
  exact Observation.le_iff.1 hrecorded σ rfl

end

/-- A stable state in which nobody waits has a closed table. -/
theorem Propagation.Stable.closed {p : Propagation} (hchecked : program.Checked entries)
    (hp : Propagation.Stable program model entries p) (hidle : p.worklist = []) :
    p.table.Closed program model entries where
  kept := by
    intro f k i rest j v hreached hremains hnext hwrites
    rw [Table.carries_iff]
    obtain ⟨summaries, facts, hseen, hv⟩ := hp.attained hchecked hidle hreached hremains v
    rw [← hv]
    exact Observation.le_trans (le_flow hwrites summaries facts) (hseen.holds_next hnext v)
  applied := by
    intro f k i rest j callee args result v hreached hremains hnext hop hbody htouches
    obtain ⟨summaries, facts, hseen, hv⟩ := hp.attained hchecked hidle hreached hremains v
    have he : program.entering? i = none := by simp [Program.entering?, hop, hbody]
    -- a call acts on each value separately, so the visit that attains `v` is enough
    have hflow : (flow program model summaries i facts).get? v =
        model.effect callee args result v (p.table.get? i.id v) := by
      rw [flow_of_not_entering he]
      unfold CallModel.through
      rw [hop]
      show (model.apply callee args result facts).get? v = _
      rw [CallModel.get?_apply, hv]
    obtain ⟨s, hs⟩ := Option.isSome_iff_exists.1
      (model.isSome_effect callee args result htouches (p.table.get? i.id v))
    have hle := hseen.holds_next hnext v
    rw [hflow, hs] at hle
    obtain ⟨s', hs', hle⟩ := Observation.le_iff.1 hle s rfl
    refine ⟨s, s', ?_, hs', hle⟩
    rw [CallModel.get?_apply, Table.get?_factsAt]
    exact hs
  passed := by
    intro f k i rest e b j a v hreached hremains he hb hnext hpair
    rw [Table.carries_iff]
    obtain ⟨summaries, facts, hseen, ha⟩ := hp.attained hchecked hidle hreached hremains a
    -- the visit has passed its argument on, and the body has been looked at with it
    obtain ⟨known, ⟨hactive, -, rfl⟩, hpassed⟩ := hseen.records.passed e he
    obtain ⟨inflow, hcurrent⟩ :=
      hp.current_of_active hidle (Program.body?_of_entering he) hactive
    obtain ⟨first, hfirst, hentry⟩ := hcurrent.entered
    have hheld := hcurrent.settled.holds_next hb hnext (hcurrent.settled 0 b first hb hfirst).head
    rw [← ha]
    calc facts.get? a ≤ (e.passed facts).get? v := le_get?_passArguments hpair facts .empty
      _ ≤ (p.summary e.target.name).entry.get? v := hpassed v
      _ ≤ first.get? v := hentry v
      _ ≤ p.table.get? j.id v := hheld v
  resumed := by
    intro f k i rest e j a v hreached hremains hnext he hpair hresult
    rw [Table.carries_iff]
    obtain ⟨summaries, facts, hseen, ha⟩ := hp.attained hchecked hidle hreached hremains a
    have hheld := hseen.holds_resume hnext he a
    rw [← ha]
    exact Observation.le_trans (e.le_resume hresult _ _ _) hheld
  exit := by
    intro f k i rest e j a v k' r rest' value hreached hremains hnext he hpair hresult hreturn hop
    rw [Table.carries_iff]
    -- the last visit of the caller reads the final summary
    obtain ⟨facts, hseen⟩ := hp.exists_seen hidle hreached hremains
    have hheld := hseen.holds_resume hnext he a
    have hparam : v ∈ e.target.params := (List.of_mem_zip hpair).2
    have hexit := hp.le_exit hchecked (Program.body?_of_entering he) hreturn hop hparam
    exact Observation.le_trans hexit
      (Observation.le_trans (e.exit_le_resume hpair hresult _ _ _) hheld)
  returned := by
    intro f k i rest e j w k' r rest' value hreached hremains hnext he hresult hreturn hop
    rw [Table.carries_iff]
    obtain ⟨facts, hseen⟩ := hp.exists_seen hidle hreached hremains
    have hheld := hseen.holds_resume hnext he w
    have hret := hp.le_ret hchecked (Program.body?_of_entering he) hreturn hop
    exact Observation.le_trans hret
      (Observation.le_trans (e.ret_le_resume hresult _ _ _) hheld)
  tracked := by
    intro f k i rest e j v hreached hremains hnext he htracked
    obtain ⟨summaries, facts, hseen, hv⟩ := hp.attained hchecked hidle hreached hremains v
    have hheld := hseen.holds_resume hnext he v
    rw [← hv] at htracked
    exact Observation.isSome_of_le hheld
      (e.isSome_resume _ (Observation.isSome_of_le (le_readBack _ e.pairs facts v) htracked))
  trackedExit := by
    intro f k i rest e j a v k' r rest' value hreached hremains hnext he hpair hreturn hop htracked
    obtain ⟨facts, hseen⟩ := hp.exists_seen hidle hreached hremains
    have hheld := hseen.holds_resume hnext he a
    have hparam : v ∈ e.target.params := (List.of_mem_zip hpair).2
    have hexit := hp.le_exit hchecked (Program.body?_of_entering he) hreturn hop hparam
    have hback := le_get?_readBack hpair (p.summary e.target.name).exit facts
    exact Observation.isSome_of_le hheld (e.isSome_resume _
      (Observation.isSome_of_le (Observation.le_trans hexit hback) htracked))

/-- Across a call into a body a closed table carries on every value but the result. -/
theorem Table.Closed.carries_of_result_ne {t : Table} (h : t.Closed program model entries)
    {f : Function} {k : Nat} {i j : Instruction} {rest : List Instruction}
    (hreached : Reached program entries f k) (hremains : Remains f k (i :: rest))
    (hnext : Next f k rest j) {e : Entering} (he : program.entering? i = some e) {v : ValueId}
    (hresult : e.result ≠ some v) : t.Carries i.id v j.id v := by
  -- an argument resumes, any other value is not written
  by_cases hpaired : ∃ p, (v, p) ∈ e.pairs
  · obtain ⟨p, hpair⟩ := hpaired
    exact h.resumed hreached hremains hnext he hpair hresult
  · refine h.kept hreached hremains hnext ?_
    unfold Instruction.Writes
    rw [he]
    rintro (hwrites | hwrites)
    · exact hpaired hwrites
    · exact hresult hwrites

/-- **Through an instruction.** A relation between observations and what a table says, which calls
keep and which still holds when the table says more, is carried over an instruction that enters no
body. -/
theorem Table.Closed.through {t : Table} (h : t.Closed program model entries)
    {R : Observation → Observation → Prop}
    (hmore : ∀ {o a} id v, R o a → a ≤ t.get? id v → R o (t.get? id v))
    (heffect : ∀ callee args result v {o o'}, R o o' →
      R (model.effect callee args result v o) (model.effect callee args result v o'))
    {f : Function} {k : Nat} {i j : Instruction} {rest : List Instruction}
    (hreached : Reached program entries f k) (hremains : Remains f k (i :: rest))
    (hnext : Next f k rest j) (he : program.entering? i = none) {facts : Facts} {v : ValueId}
    (hv : R (facts.get? v) (t.get? i.id v)) :
    R ((model.through i facts).get? v) (t.get? j.id v) := by
  by_cases hwrites : i.Writes program model v
  · -- only a call writes, and the table is closed under what it does to the row
    unfold Instruction.Writes at hwrites
    rw [he] at hwrites
    unfold CallModel.through
    cases hop : i.op with
    | call callee args result =>
      rw [hop] at hwrites
      have hbody : program.body? callee = none := by simpa [Program.entering?, hop] using he
      obtain ⟨s, s', hs, hs', hle⟩ := h.applied hreached hremains hnext hop hbody hwrites
      rw [CallModel.get?_apply, Table.get?_factsAt] at hs
      show R ((model.apply callee args result facts).get? v) (t.get? j.id v)
      rw [CallModel.get?_apply]
      apply hmore j.id v (heffect callee args result v hv)
      rw [hs, hs']
      exact Option.some_le_some.2 hle
    | ret value => rw [hop] at hwrites; exact hwrites.elim
    | other text => rw [hop] at hwrites; exact hwrites.elim
  · rw [through_of_not_writes he hwrites]
    exact hmore j.id v hv (Table.carries_iff.1 (h.kept hreached hremains hnext hwrites))

/-- **Tables of finished runs are closed.** -/
theorem closed_of_solve {limit : Nat} {t : Table} (h : solve program model limit entries = .ok t) :
    t.Closed program model entries := by
  obtain ⟨hchecked, p, hp, hidle, rfl⟩ := Propagation.stable_of_solve h
  exact hp.closed hchecked hidle

/-- A body that releases its parameter and returns it. -/
def taker : Function where
  name := "take"
  params := [⟨1⟩]
  outputArg := none
  blocks := [
    { instructions := [⟨⟨4⟩, .call "release" [⟨1⟩] none⟩, ⟨⟨5⟩, .ret (some ⟨1⟩)⟩]
      successors := [] }]

/-- A body that gives a value to `taker` and accesses it afterwards. -/
def giver : Function where
  name := "main"
  params := []
  outputArg := none
  blocks := [
    { instructions := [
        ⟨⟨0⟩, .call "extract" [⟨0⟩] none⟩,
        ⟨⟨1⟩, .call "take" [⟨0⟩] (some ⟨2⟩)⟩,
        ⟨⟨2⟩, .call "access" [⟨0⟩] none⟩,
        ⟨⟨3⟩, .ret none⟩]
      successors := [] }]

def giving : Program := ⟨[giver, taker], .empty⟩

/-- The table of `giving`. -/
def givingTable : Table :=
  ⟨FiniteMap.ofList
    [(⟨⟨1⟩, ⟨0⟩⟩, .rawReferenced), (⟨⟨2⟩, ⟨0⟩⟩, .dropped), (⟨⟨2⟩, ⟨2⟩⟩, .dropped),
      (⟨⟨3⟩, ⟨0⟩⟩, .useAfterFree), (⟨⟨3⟩, ⟨2⟩⟩, .dropped), (⟨⟨4⟩, ⟨1⟩⟩, .rawReferenced),
      (⟨⟨5⟩, ⟨1⟩⟩, .dropped)]⟩

theorem solve_giving :
    solve giving (.small .full .consuming) 100 ["main"] = .ok givingTable :=
  eq_ok_of_toOption (by decide +kernel)

theorem closed_givingTable :
    solve giving (.small .full .consuming) 100 ["main"] = .ok givingTable ∧
      givingTable.Closed giving (.small .full .consuming) ["main"] :=
  ⟨solve_giving, closed_of_solve solve_giving⟩

end Typestate
