import Typestate.Proofs.Provenance

/-!
# Routes behind the cells of code that enters no body

Where no instruction enters a body, control only follows the edges between blocks, and values never
influence each other. The state in a cell is a join of joins, taken in whatever order the blocks were
visited; but a join of observations is always one of them, so for each value on its own there is a
single route through the blocks that shows exactly the state in the cell.

## Contents

- §1 Routes, and what a route makes of a value
- §2 Gained facts are shown by routes
- §3 Cells
-/

namespace Typestate

/-! ## §1 Routes -/

/-- What an instruction makes of the observation of `v`, bodies left aside. -/
def Instruction.stepOn (model : CallModel) (v : ValueId) (o : Observation) (i : Instruction) :
    Observation :=
  match i.op with
  | .call callee args result => model.effect callee args result v o
  | .ret _ | .other _ => o

/-- What a value that starts without a state has behind a sequence of instructions. -/
def observe (model : CallModel) (v : ValueId) (passed : List Instruction) : Observation :=
  passed.foldl (Instruction.stepOn model v) none

/-- Control can get from the start of the function to the rest of block `k`, along successors,
through exactly the instructions `passed`. -/
inductive Route (f : Function) : Nat → List Instruction → List Instruction → Prop where
  | start {b : Block} : f.blocks[0]? = some b → Route f 0 [] b.instructions
  | pass {k : Nat} {passed : List Instruction} {i : Instruction} {rest : List Instruction} :
      Route f k passed (i :: rest) → Route f k (passed ++ [i]) rest
  | jump {k : Nat} {passed : List Instruction} {b b' : Block} {t : UInt64} :
      Route f k passed [] → f.blocks[k]? = some b → t ∈ b.successors →
      f.blocks[t.toNat]? = some b' → Route f t.toNat passed b'.instructions

@[simp]
theorem observe_append_singleton (model : CallModel) (v : ValueId) (passed : List Instruction)
    (i : Instruction) :
    observe model v (passed ++ [i]) = i.stepOn model v (observe model v passed) := by
  simp [observe]

theorem get?_through (model : CallModel) (i : Instruction) (facts : Facts) (v : ValueId) :
    (model.through i facts).get? v = i.stepOn model v (facts.get? v) := by
  unfold CallModel.through Instruction.stepOn
  cases i.op with
  | call callee args result => exact model.get?_apply callee args result facts v
  | ret value => rfl
  | other text => rfl

/-- No call in the body of an entry point has a target with a body. -/
def Program.CallFree (program : Program) (entries : List String) : Prop :=
  ∀ name ∈ entries, ∀ f, program.body? name = some f → ∀ i ∈ f.instructions,
    ∀ callee, i.callee? = some callee → program.body? callee = none

theorem Program.entering?_eq_none_of_callee? {program : Program} {i : Instruction}
    (h : ∀ callee, i.callee? = some callee → program.body? callee = none) :
    program.entering? i = none := by
  unfold entering?
  cases hop : i.op with
  | call callee args result => simp [h callee (by simp [Instruction.callee?, hop])]
  | ret value => rfl
  | other text => rfl

/-! ## §2 Gained facts -/

/-- Facts in the body of an entry point for each of which some route accounts. Each value may need a
route of its own. -/
def Knowledge.Routed (program : Program) (model : CallModel) (entries : List String) :
    Knowledge → Prop
  | .entry f facts => (∃ name ∈ entries, program.body? name = some f) ∧ facts = .empty
  | .before f k rest facts => (∃ name ∈ entries, program.body? name = some f) ∧
    ∀ v, ∃ passed, Route f k passed rest ∧ observe model v passed = facts.get? v
  | .exit _ _ _ => True

section
variable {program : Program} {model : CallModel} {entries : List String}

/-- **Gained facts are shown by routes** when no body is entered. -/
theorem Gained.routed (hfree : program.CallFree entries) {know : Knowledge}
    (h : Gained program model entries know) : know.Routed program model entries := by
  -- so the two rules that enter a body or come back from one never apply
  have hnone : ∀ {f k i rest facts}, Gained program model entries (.before f k (i :: rest) facts) →
      (∃ name ∈ entries, program.body? name = some f) → program.entering? i = none := by
    rintro f k i rest facts hbefore ⟨name, hname, hbody⟩
    obtain ⟨-, b, hb, hsuffix⟩ := hbefore.ofReached
    have hi : i ∈ f.instructions :=
      List.mem_flatMap.2 ⟨b, List.mem_of_getElem? hb, hsuffix.subset (List.mem_cons_self ..)⟩
    exact Program.entering?_eq_none_of_callee? (hfree name hname f hbody i hi)
  induction h with
  | start hname hbody => exact ⟨⟨_, hname, hbody⟩, rfl⟩
  | enter hbefore he ih => cases (hnone hbefore ih.1).symm.trans he
  | joinEntry _ _ ih ih' =>
    refine ⟨ih.1, ?_⟩
    rw [ih.2, ih'.2]
    exact Facts.empty_join _
  | begin _ hb ih =>
    refine ⟨ih.1, fun v => ⟨[], Route.start hb, ?_⟩⟩
    rw [ih.2]
    rfl
  | jump _ hb ht hb' ih =>
    refine ⟨ih.1, fun v => ?_⟩
    obtain ⟨passed, hroute, hshows⟩ := ih.2 v
    exact ⟨passed, hroute.jump hb ht hb', hshows⟩
  | @joinBefore f k rest facts facts' _ _ ih ih' =>
    refine ⟨ih.1, fun v => ?_⟩
    rw [Facts.get?_join]
    -- the join is what one of the two sides has, and the route of that side will do
    rcases Observation.join_eq_or (facts.get? v) (facts'.get? v) with hj | hj
    · rw [hj]
      exact ih.2 v
    · rw [hj]
      exact ih'.2 v
  | @through f k i rest facts _ _ ih =>
    refine ⟨ih.1, fun v => ?_⟩
    obtain ⟨passed, hroute, hshows⟩ := ih.2 v
    refine ⟨passed ++ [i], hroute.pass, ?_⟩
    rw [observe_append_singleton, hshows, get?_through]
  | resume hbefore he _ ih _ => cases (hnone hbefore ih.1).symm.trans he
  | nothing => trivial
  | leave _ _ _ => trivial
  | joinExit _ _ _ _ => trivial

/-! ## §3 Cells -/

/-- **Every cell is shown by a route** to its instruction, when no call in the body of an entry point
enters a body. -/
theorem exists_route_of_cell {limit : Nat} {t : Table}
    (h : solve program model limit entries = .ok t) (hfree : program.CallFree entries)
    {id : InstId} {v : ValueId} {s : State} (hcell : t.get? id v = some s) :
    ∃ name ∈ entries, ∃ f k passed i rest, program.body? name = some f ∧
      Route f k passed (i :: rest) ∧ i.id = id ∧ observe model v passed = some s := by
  obtain ⟨f, k, i, rest, facts, hgained, hid, hv⟩ := Propagation.gained_of_solve h hcell
  obtain ⟨⟨name, hname, hbody⟩, hroutes⟩ := hgained.routed hfree
  obtain ⟨passed, hroute, hshows⟩ := hroutes v
  exact ⟨name, hname, f, k, passed, i, rest, hbody, hroute, hid, hshows.trans hv⟩

end

/-- A body that releases a value in a loop. -/
def looper : Function where
  name := "main"
  params := []
  outputArg := none
  blocks := [
    { instructions := [⟨⟨0⟩, .call "extract" [⟨0⟩] none⟩], successors := [1] },
    { instructions := [⟨⟨1⟩, .call "release" [⟨0⟩] none⟩], successors := [1, 2] },
    { instructions := [⟨⟨2⟩, .ret none⟩], successors := [] }]

def looping : Program := ⟨[looper], .empty⟩

/-- The table of `looping`. -/
def loopingTable : Table :=
  ⟨FiniteMap.ofList [(⟨⟨1⟩, ⟨0⟩⟩, .doubleFree), (⟨⟨2⟩, ⟨0⟩⟩, .doubleFree)]⟩

theorem solve_looping :
    solve looping (.small .full .consuming) 100 ["main"] = .ok loopingTable :=
  eq_ok_of_toOption (by decide +kernel)

theorem callFree_looping : looping.CallFree ["main"] := by
  intro name hname f hbody i hi callee hcallee
  obtain rfl := List.mem_singleton.1 hname
  cases hbody
  have hcalls : ∀ i ∈ looper.instructions, ∀ callee ∈ i.callee?, looping.body? callee = none := by
    decide +kernel
  exact hcalls i hi callee hcallee

/-- The double free behind the loop takes a route that goes round at least once. -/
theorem exists_route_looper :
    ∃ name ∈ ["main"], ∃ f k passed i rest, looping.body? name = some f ∧
      Route f k passed (i :: rest) ∧ i.id = ⟨2⟩ ∧
      observe (.small .full .consuming) ⟨0⟩ passed = some .doubleFree :=
  exists_route_of_cell solve_looping callFree_looping (by decide +kernel)

end Typestate
