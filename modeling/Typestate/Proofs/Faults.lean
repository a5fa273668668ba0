import Typestate.Proofs.Budget

/-!
# A solver that cannot go out of range

The solver looks things up by name and by block index, and a look-up that finds nothing is passed over
in silence. This module has the same solver with every such look-up guarded: whatever is not there is a
fault that ends the run. On inputs that pass the check the guarded solver gives what the solver gives,
so no look-up ever fails, and after the check the iteration limit is the only way not to get a table.

The check is made once, over all functions, while the look-ups are made later, over the functions that
are entered. Two invariants bridge the gap: only functions with a body wait, and only indices of blocks
are pending.

## Contents

- §1 `Fault` and the guarded solver
- §2 One pass stays in range
- §3 One run stays in range
- §4 The solver
-/

namespace Typestate

/-! ## §1 The guarded solver -/

/-- A look-up that finds nothing. -/
inductive Fault where
  /-- A function is looked at that has no body. -/
  | noBody (name : String)
  /-- A block index is used that is not below the number of blocks. -/
  | noBlock (name : String) (index : Nat)
  deriving DecidableEq

namespace Guarded

variable (program : Program) (model : CallModel) (summaries : Summaries) (function : Function)

/-- What is known about a block, which a pass keeps for every block of the function. -/
def known (pass : Pass) (index : Nat) : Except Fault (Option Facts) :=
  match pass.inflow[index]? with
  | some known => .ok known
  | none => .error (.noBlock function.name index)

/-- The block of an index. -/
def block (index : Nat) : Except Fault Block :=
  match function.blocks[index]? with
  | some block => .ok block
  | none => .error (.noBlock function.name index)

/-- Facts arrive at a block that has to exist. -/
def arrive (facts : Facts) (pass : Pass) (index : Nat) : Except Fault Pass := do
  let _ ← known function pass index
  pure (Pass.arrive facts pass index)

/-- Visits a block that has to exist, as have its successors. -/
def visit (pass : Pass) (index : Nat) : Except Fault Pass := do
  let known ← known function pass index
  let block ← block function index
  let s := block.instructions.foldl (Pass.Stream.advance program model summaries function)
    ⟨known.getD .empty, pass.outcome, pass.table⟩
  block.successors.foldlM (fun pass target => arrive function s.facts pass target.toNat)
    { pass with outcome := s.outcome, table := s.table }

/-- Visits pending blocks. A block is taken out of the pending ones before the budget is looked at. -/
def sweep : Nat → Pass → Except Fault (Option (Nat × Pass))
  | 0, pass =>
    match pass.pending with
    | [] => .ok (some (0, pass))
    | index :: _ => do
      let _ ← known function pass index
      pure none
  | budget + 1, pass =>
    match pass.pending with
    | [] => .ok (some (budget + 1, pass))
    | index :: rest => do
      let pass ← visit program model summaries function { pass with pending := rest } index
      sweep budget pass

theorem sweep_left_le {budget left : Nat} {pass final : Pass}
    (h : sweep program model summaries function budget pass = .ok (some (left, final))) :
    left ≤ budget := by
  induction budget generalizing pass with
  | zero =>
    unfold sweep at h
    split at h
    · cases h
      exact Nat.le_refl _
    · obtain ⟨known, -, hnone⟩ := exists_of_bind_eq_ok h
      cases hnone
  | succ budget ih =>
    unfold sweep at h
    split at h
    · cases h
      exact Nat.le_refl _
    · obtain ⟨next, -, hsweep⟩ := exists_of_bind_eq_ok h
      exact Nat.le_succ_of_le (ih hsweep)

/-- Looks at waiting functions. Each of them has to have a body, and its body a first block. -/
def run (budget : Nat) (p : Propagation) : Except Fault (Option Propagation) :=
  match p.worklist with
  | [] => .ok (some p)
  | name :: rest =>
    match budget with
    | 0 => .ok none
    | budget + 1 =>
      let p := { p with worklist := rest }
      match program.body? name with
      | none => .error (.noBody name)
      | some function =>
        if function.blocks.isEmpty then .error (.noBlock name 0)
        else
          match h : sweep program model p.summaries function budget (p.openPass name function) with
          | .error fault => .error fault
          | .ok none => .ok none
          | .ok (some (left, pass)) =>
            have := sweep_left_le program model p.summaries function h
            run left (p.absorb program name pass.outcome pass.table)
termination_by budget

/-- The table of a program or the reason why there is none, unless a look-up fails. -/
def solve (limit : Nat) (entries : List String) : Except Fault (Except SolveError Table) :=
  match program.validate entries with
  | .error e => .ok (.error e)
  | .ok () => do
    match ← run program model limit (.start program entries) with
    | some p => pure (.ok p.table)
    | none => pure (.error (.iterationLimit limit))

end Guarded

/-! ## §2 Passes -/

/-- A pass keeps facts for exactly the blocks of the function, and only indices of blocks are pending. -/
structure Pass.InRange (function : Function) (pass : Pass) : Prop where
  size : pass.inflow.length = function.blocks.length
  pending : ∀ k ∈ pass.pending, k < function.blocks.length

namespace Pass.InRange

variable {program : Program} {model : CallModel} {summaries : Summaries} {function : Function}

theorem start (hbody : 0 < function.blocks.length) (entry : Facts) (table : Table) :
    (Pass.start function.blocks.length entry table).InRange function where
  size := by simp [Pass.start]
  pending := fun _ hk => (mem_pending_start.1 hk).symm ▸ hbody

theorem grows {pass pass' : Pass} (h : pass.InRange function) (hgrows : pass.Grows pass') :
    pass'.InRange function where
  size := hgrows.size.trans h.size
  pending := by
    intro k hk
    rcases hgrows.reached k hk with hold | ⟨facts, hfacts⟩
    · exact h.pending k hold
    · -- facts are kept for blocks only
      rw [← h.size, ← hgrows.size]
      exact (List.getElem?_eq_some_iff.1 hfacts).1

end Pass.InRange

namespace Guarded

variable {function : Function}

theorem known_eq {pass : Pass} {index : Nat} (h : index < pass.inflow.length) :
    known function pass index = .ok pass.inflow[index] := by
  unfold known
  rw [List.getElem?_eq_getElem h]

theorem block_eq {index : Nat} (h : index < function.blocks.length) :
    block function index = .ok function.blocks[index] := by
  unfold block
  rw [List.getElem?_eq_getElem h]

/-- No arrival at a successor in range fails. -/
theorem spread_eq (facts : Facts) {targets : List UInt64}
    (htargets : ∀ t ∈ targets, t.toNat < function.blocks.length) {pass : Pass}
    (h : pass.InRange function) :
    targets.foldlM (fun pass target => arrive function facts pass target.toNat) pass =
      .ok (Pass.spread facts targets pass) := by
  induction targets generalizing pass with
  | nil => rfl
  | cons t targets ih =>
    have ht : t.toNat < pass.inflow.length := h.size ▸ htargets t (List.mem_cons_self ..)
    have harrive : arrive function facts pass t.toNat = .ok (Pass.arrive facts pass t.toNat) := by
      unfold arrive
      rw [known_eq ht]
      rfl
    rw [List.foldlM_cons, harrive]
    exact ih (fun u hu => htargets u (List.mem_cons_of_mem _ hu))
      (h.grows (Pass.grows_arrive facts pass t.toNat).1)

/-- **A visit stays in range** and leaves a pass in range behind. -/
theorem visit_eq (program : Program) (model : CallModel) (summaries : Summaries)
    (hrange : ∀ b ∈ function.blocks, ∀ t ∈ b.successors, t.toNat < function.blocks.length)
    {pass : Pass} (h : pass.InRange function) {k : Nat} (hk : k < function.blocks.length) :
    visit program model summaries function pass k =
        .ok (Pass.visit program model summaries function pass k) ∧
      (Pass.visit program model summaries function pass k).InRange function := by
  have hk' : k < pass.inflow.length := h.size ▸ hk
  unfold visit Pass.visit
  rw [known_eq hk', block_eq hk, List.getElem?_eq_getElem hk, List.getElem?_eq_getElem hk']
  -- what is written down does not matter for the range
  have hmid : ∀ outcome table, ({ pass with outcome := outcome, table := table } : Pass).InRange
      function := fun _ _ => ⟨h.size, h.pending⟩
  exact ⟨spread_eq _ (hrange _ (List.getElem_mem hk)) (hmid _ _),
    (hmid _ _).grows (Pass.grows_spread _ _ _)⟩

/-- A pass over a body with its successors in range never fails, so it is the pass without faults. -/
theorem sweep_eq (program : Program) (model : CallModel) (summaries : Summaries)
    (hrange : ∀ b ∈ function.blocks, ∀ t ∈ b.successors, t.toNat < function.blocks.length)
    (budget : Nat) {pass : Pass} (h : pass.InRange function) :
    sweep program model summaries function budget pass =
      .ok (Pass.sweep program model summaries function budget pass) := by
  induction budget generalizing pass with
  | zero =>
    unfold sweep
    split
    · next hnil => rw [Pass.sweep_of_nil hnil]
    · next k rest hpending =>
      have hk := h.pending k (hpending ▸ List.mem_cons_self ..)
      rw [known_eq (h.size ▸ hk), Pass.sweep_zero_of_cons hpending]
      rfl
  | succ budget ih =>
    unfold sweep
    split
    · next hnil => rw [Pass.sweep_of_nil hnil]
    · next k rest hpending =>
      have hk := h.pending k (hpending ▸ List.mem_cons_self ..)
      -- the rest of the queue is in range, and a visit adds only successors to it
      have hrest : ({ pass with pending := rest } : Pass).InRange function :=
        ⟨h.size, fun l hl => h.pending l (hpending ▸ List.mem_cons_of_mem _ hl)⟩
      obtain ⟨hvisit, hnext⟩ := visit_eq program model summaries hrange hrest hk
      rw [hvisit, Pass.sweep_succ_of_cons hpending]
      exact ih hnext

end Guarded

/-! ## §3 Runs -/

/-- Only functions with a body wait. -/
def Propagation.InRange (program : Program) (p : Propagation) : Prop :=
  ∀ n ∈ p.worklist, (program.body? n).isSome = true

namespace Propagation

variable {program : Program}

theorem inRange_start (program : Program) (entries : List String) :
    (start program entries).InRange program := fun _ hn => (mem_start.1 hn).2

theorem InRange.absorb {p : Propagation} (h : p.InRange program) (name : String)
    (outcome : Outcome) (table : Table) :
    (p.absorb program name outcome table).InRange program := by
  intro n hn
  rcases (absorbed_absorb program p name outcome table).queued n hn with hold | ⟨hbody, -⟩
  · exact h n hold
  · exact hbody

end Propagation

namespace Guarded

variable {program : Program}

theorem run_succ_of_sweep {model : CallModel} {p : Propagation} {name : String}
    {rest : List String} {f : Function} (hworklist : p.worklist = name :: rest)
    (hf : program.body? name = some f) {budget : Nat} {result : Option (Nat × Pass)}
    (hsweep : sweep program model p.summaries f budget
      (({ p with worklist := rest } : Propagation).openPass name f) = .ok result) :
    run program model (budget + 1) p =
      result.elim (.ok none) fun r =>
        run program model r.1
          (({ p with worklist := rest } : Propagation).absorb program name r.2.outcome r.2.table) := by
  -- a function that is entered has a body, so there is a first block
  have hblocks : ¬ f.blocks.isEmpty = true := by
    rw [List.isEmpty_iff_length_eq_zero]
    exact Nat.ne_of_gt (Program.blocks_of_body? hf)
  conv => lhs; unfold run
  simp only [hworklist, hf, if_neg hblocks]
  split
  · next fault hfault => cases hfault.symm.trans hsweep
  · next hnone =>
    cases hnone.symm.trans hsweep
    rfl
  · next left pass hsome =>
    cases hsome.symm.trans hsweep
    rfl

/-- **A run stays in range**, whatever its budget. -/
theorem run_eq (model : CallModel)
    (hrange : ∀ f ∈ program.functions, ∀ b ∈ f.blocks, ∀ t ∈ b.successors,
      t.toNat < f.blocks.length)
    (budget : Nat) {p : Propagation} (h : p.InRange program) :
    run program model budget p = .ok (p.run program model budget) := by
  -- a pass uses up part of the budget, so the induction is on all smaller budgets
  induction budget using Nat.strongRecOn generalizing p with
  | ind budget ih =>
    cases hworklist : p.worklist with
    | nil =>
      unfold run
      simp only [hworklist, Propagation.run_of_nil hworklist]
    | cons name rest =>
      cases budget with
      | zero =>
        unfold run
        simp only [hworklist, Propagation.run_zero_of_cons hworklist]
      | succ budget =>
        -- whoever is taken out has a body, and a body has a first block to start in
        obtain ⟨f, hf⟩ := Option.isSome_iff_exists.1 (h name (hworklist ▸ List.mem_cons_self ..))
        have hrest : ({ p with worklist := rest } : Propagation).InRange program :=
          fun n hn => h n (hworklist ▸ List.mem_cons_of_mem _ hn)
        have hopen : (({ p with worklist := rest } : Propagation).openPass name f).InRange f :=
          .start (Program.blocks_of_body? hf) _ _
        have hsweep := sweep_eq program model p.summaries (hrange f (Program.mem_of_body? hf)) budget
          hopen
        rw [run_succ_of_sweep hworklist hf hsweep, Propagation.run_succ_of_body hworklist hf]
        cases hresult : Pass.sweep program model p.summaries f budget
            (({ p with worklist := rest } : Propagation).openPass name f) with
        | none => rfl
        | some result =>
          obtain ⟨left, pass⟩ := result
          have hleft := Nat.lt_succ_of_le (Pass.sweep_left_le hresult)
          exact ih left hleft (hrest.absorb name pass.outcome pass.table)

end Guarded

/-! ## §4 The solver -/

/-- **On checked inputs no look-up fails.** Every function taken out of the worklist has a body with a
first block, and every block index that is pending or arrived at is that of a block: the solver with
guarded look-ups gives what the solver gives. That is a table, or the limit was reached. -/
theorem solve_in_range {program : Program} {entries : List String}
    (h : program.validate entries = .ok ()) (model : CallModel) (limit : Nat) :
    Guarded.solve program model limit entries = .ok (solve program model limit entries) ∧
      ((∃ t, solve program model limit entries = .ok t) ∨
        solve program model limit entries = .error (.iterationLimit limit)) := by
  have hrun := Guarded.run_eq model (Program.checked_of_validate h).successors limit
    (Propagation.inRange_start program entries)
  unfold Guarded.solve solve
  rw [h]
  simp only [hrun]
  cases (Propagation.start program entries).run program model limit with
  | none => exact ⟨rfl, Or.inr rfl⟩
  | some p => exact ⟨rfl, Or.inl ⟨p.table, rfl⟩⟩

/-- A body that calls itself with more arguments than it has parameters, and goes round a loop through
a block without instructions. -/
def tangle : Function where
  name := "main"
  params := [⟨0⟩]
  outputArg := none
  blocks := [
    { instructions := [⟨⟨0⟩, .call "main" [⟨1⟩, ⟨0⟩, ⟨2⟩] (some ⟨3⟩)⟩], successors := [1] },
    { instructions := [], successors := [0, 2, 2] },
    { instructions := [⟨⟨1⟩, .call "release" [⟨3⟩] none⟩, ⟨⟨2⟩, .ret (some ⟨3⟩)⟩]
      successors := [] }]

/-- The name of `tangle` three times: as a declaration, with its body, and with a body of one block. -/
def tangled : Program where
  functions := [
    ⟨"main", [], none, []⟩,
    tangle,
    ⟨"main", [⟨4⟩, ⟨5⟩], none, [⟨[⟨⟨3⟩, .ret none⟩], []⟩]⟩]
  valueNames := .empty

theorem validate_tangled : tangled.validate ["main", "main"] = .ok () :=
  eq_ok_of_toOption (by decide +kernel)

/-- Repeated names, empty blocks and surplus arguments do not lead out of range. -/
theorem in_range_tangled :
    tangled.validate ["main", "main"] = .ok () ∧
      Guarded.solve tangled (.small .full .consuming) 100 ["main", "main"] =
        .ok (solve tangled (.small .full .consuming) 100 ["main", "main"]) ∧
      ((∃ t, solve tangled (.small .full .consuming) 100 ["main", "main"] = .ok t) ∨
        solve tangled (.small .full .consuming) 100 ["main", "main"] =
          .error (.iterationLimit 100)) :=
  ⟨validate_tangled, solve_in_range validate_tangled _ _⟩

/-- A program that the check refuses: its only block goes on to a block that is not there. -/
def straying : Program := ⟨[⟨"main", [], none, [⟨[], [7]⟩]⟩], .empty⟩

-- without the check a guarded look-up does fail
example : (Guarded.run straying (.small .full .consuming) 9 (.start straying ["main"])).toOption.isNone
    = true := by decide +kernel

end Typestate
