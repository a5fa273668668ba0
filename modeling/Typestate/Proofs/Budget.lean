import Typestate.Proofs.Pass
import Typestate.Proofs.Propagation

/-!
# Budgets

Both loops of the solver run on a budget and give nothing when it is used up. This module has the
equations of the loops, one for each way a step can go, and from them that a greater budget changes
nothing but what is left over.

## Contents

- §1 Passes
- §2 Runs
-/

namespace Typestate

/-! ## §1 Passes -/

namespace Pass

variable {program : Program} {model : CallModel} {summaries : Summaries} {function : Function}

theorem sweep_of_nil {pass : Pass} (h : pass.pending = []) (budget : Nat) :
    sweep program model summaries function budget pass = some (budget, pass) := by
  cases budget <;> simp [sweep, h]

theorem sweep_zero_of_cons {pass : Pass} {k : Nat} {rest : List Nat}
    (h : pass.pending = k :: rest) : sweep program model summaries function 0 pass = none := by
  simp [sweep, h]

/-- A visit uses up one unit of the budget. -/
theorem sweep_succ_of_cons {pass : Pass} {k : Nat} {rest : List Nat}
    (h : pass.pending = k :: rest) (budget : Nat) :
    sweep program model summaries function (budget + 1) pass =
      sweep program model summaries function budget
        (visit program model summaries function { pass with pending := rest } k) := by
  simp [sweep, h]

/-- What a pass does not need is left over. -/
theorem sweep_add {budget left : Nat} {pass final : Pass}
    (h : sweep program model summaries function budget pass = some (left, final)) (extra : Nat) :
    sweep program model summaries function (budget + extra) pass = some (left + extra, final) := by
  -- the extra budget is never looked at before the pass has ended
  induction budget generalizing pass with
  | zero =>
    cases hpending : pass.pending with
    | nil =>
      rw [sweep_of_nil hpending] at h ⊢
      cases h
      rfl
    | cons k rest =>
      rw [sweep_zero_of_cons hpending] at h
      cases h
  | succ budget ih =>
    cases hpending : pass.pending with
    | nil =>
      rw [sweep_of_nil hpending] at h ⊢
      cases h
      rfl
    | cons k rest =>
      rw [sweep_succ_of_cons hpending] at h
      rw [Nat.succ_add, sweep_succ_of_cons hpending]
      exact ih h

end Pass

/-! ## §2 Runs -/

namespace Propagation

variable {program : Program} {model : CallModel} {p : Propagation} {name : String}
variable {rest : List String}

theorem run_of_nil (h : p.worklist = []) (budget : Nat) :
    run program model budget p = some p := by
  unfold run
  simp [h]

theorem run_zero_of_cons (h : p.worklist = name :: rest) : run program model 0 p = none := by
  unfold run
  simp [h]

/-- A function without a body uses up one unit and nothing else. -/
theorem run_succ_of_none (h : p.worklist = name :: rest) (hbody : program.body? name = none)
    (budget : Nat) :
    run program model (budget + 1) p = run program model budget { p with worklist := rest } := by
  conv => lhs; unfold run
  simp [h, hbody]

/-- A round uses up one unit and what its pass uses up; the rest of the run has what is left over. -/
theorem run_succ_of_body (h : p.worklist = name :: rest) {f : Function}
    (hbody : program.body? name = some f) (budget : Nat) :
    run program model (budget + 1) p =
      (Pass.sweep program model p.summaries f budget
        (openPass { p with worklist := rest } name f)).bind fun result =>
          run program model result.1
            (absorb program { p with worklist := rest } name result.2.outcome result.2.table) := by
  conv => lhs; unfold run
  simp only [h, hbody]
  cases Pass.sweep program model p.summaries f budget
    (openPass { p with worklist := rest } name f) <;> rfl

/-- A run that ends under a budget ends in the same way under any greater one. -/
theorem run_add {budget : Nat} {final : Propagation}
    (h : run program model budget p = some final) (extra : Nat) :
    run program model (budget + extra) p = some final := by
  -- a pass uses up part of the budget, so the induction is on all smaller budgets
  induction budget using Nat.strongRecOn generalizing p with
  | ind budget ih =>
    cases hworklist : p.worklist with
    | nil =>
      rw [run_of_nil hworklist] at h ⊢
      exact h
    | cons name rest =>
      cases budget with
      | zero =>
        rw [run_zero_of_cons hworklist] at h
        cases h
      | succ budget =>
        rw [Nat.succ_add]
        cases hbody : program.body? name with
        | none =>
          rw [run_succ_of_none hworklist hbody] at h ⊢
          exact ih budget (Nat.lt_succ_self _) h
        | some f =>
          rw [run_succ_of_body hworklist hbody] at h ⊢
          obtain ⟨⟨left, pass⟩, hsweep, hrun⟩ := Option.bind_eq_some_iff.1 h
          have hleft := Pass.sweep_left_le hsweep
          rw [Pass.sweep_add hsweep]
          exact ih left (Nat.lt_succ_of_le hleft) hrun

end Propagation

end Typestate
