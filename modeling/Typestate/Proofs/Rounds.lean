import Typestate.Proofs.Budget

/-!
# Heads of the loop over functions

A run is a chain of rounds, and this module gives names to the states between them. The worklist is
looked at as a queue that is kept together with the set of its members, so that asking whether a
function waits does not search the queue. The queue is moved by its own operations, from the names
that a round wakes; that it is the worklist of the run is a theorem, as is that no function waits in
it twice.

## Contents

- §1 States after a number of steps
- §2 `Queue`: waiting functions and the set of their names
- §3 The functions that a round wakes
- §4 `Head`: the state at the head of the loop
-/

namespace Typestate

/-! ## §1 Steps -/

/-- The state after the given number of steps, if so many can be taken. -/
def afterSteps {α : Type} (step : α → Option α) : Nat → α → Option α
  | 0, a => some a
  | n + 1, a => (step a).bind (afterSteps step n)

/-- A reflexive and transitive relation that each step keeps relates the ends of any number of
steps. -/
theorem afterSteps_rel {α : Type} {step : α → Option α} {R : α → α → Prop}
    (hrefl : ∀ a, R a a) (htrans : ∀ a b c, R a b → R b c → R a c)
    (hstep : ∀ a b, step a = some b → R a b) {n : Nat} {a b : α}
    (h : afterSteps step n a = some b) : R a b := by
  induction n generalizing a with
  | zero =>
    obtain rfl : a = b := Option.some.inj h
    exact hrefl a
  | succ n ih =>
    obtain ⟨next, hnext, hrest⟩ := Option.bind_eq_some_iff.1 h
    exact htrans a next b (hstep a next hnext) (ih hrest)

/-- What every step keeps holds after any number of steps. -/
theorem afterSteps_invariant {α : Type} {step : α → Option α} {I : α → Prop}
    (hstep : ∀ a b, step a = some b → I a → I b) {n : Nat} {a b : α}
    (h : afterSteps step n a = some b) : I a → I b :=
  afterSteps_rel (R := fun a b => I a → I b) (fun _ => id) (fun _ _ _ hab hbc => hbc ∘ hab) hstep h

namespace Propagation

/-! ## §2 Queues -/

/-- Puts a function with a body behind those that wait, unless it is among them. -/
def waitFor (program : Program) (waiting : List String) (name : String) : List String :=
  if (program.body? name).isSome && !waiting.contains name then waiting ++ [name] else waiting

/-- Waiting functions, in order and as a set. -/
structure Queue where
  waiting : List String
  members : FiniteSet String

namespace Queue

/-- Nobody waits. -/
def empty : Queue := ⟨[], FiniteSet.empty⟩

/-- Puts a function with a body at the end, unless the set has it. -/
def push (program : Program) (q : Queue) (name : String) : Queue :=
  if (program.body? name).isSome && !q.members.contains name then
    ⟨q.waiting ++ [name], FiniteSet.insert q.members name⟩
  else
    q

/-- Takes the first function out of the queue and out of the set. -/
def pop (q : Queue) : Queue :=
  match q.waiting with
  | [] => q
  | name :: rest => ⟨rest, q.members.filter fun n _ => n != name⟩

/-- Exactly the listed functions wait in the queue: in this order, each once, and as its members. -/
structure Holds (q : Queue) (waiting : List String) : Prop where
  order : q.waiting = waiting
  nodup : waiting.Nodup
  members : ∀ n, q.members.contains n = true ↔ n ∈ waiting

theorem holds_empty : empty.Holds [] where
  order := rfl
  nodup := List.nodup_nil
  members := fun _ => ⟨fun h => (nomatch h), fun h => (nomatch h)⟩

variable {program : Program} {q : Queue} {waiting : List String}

/-- Asking the set is asking the queue. -/
theorem Holds.contains_eq (h : q.Holds waiting) (name : String) :
    q.members.contains name = waiting.contains name := by
  rw [Bool.eq_iff_iff, h.members, List.contains_iff_mem]

theorem Holds.push (h : q.Holds waiting) (name : String) :
    (q.push program name).Holds (waitFor program waiting name) := by
  unfold Queue.push waitFor
  rw [h.contains_eq]
  split
  · next hnew =>
    -- the set did not have the name, so it did not wait
    have hidle : name ∉ waiting := by
      simp only [Bool.and_eq_true, Bool.not_eq_true', List.contains_eq_mem,
        decide_eq_false_iff_not] at hnew
      exact hnew.2
    refine ⟨by rw [h.order], ?_, ?_⟩
    · rw [List.nodup_append]
      refine ⟨h.nodup, by simp, ?_⟩
      rintro a ha b hb rfl
      exact hidle (List.mem_singleton.1 hb ▸ ha)
    · intro n
      rw [FiniteSet.contains_insert, h.members, List.mem_append, List.mem_singleton, or_comm]
  · exact h

theorem Holds.foldl_push (h : q.Holds waiting) (names : List String) :
    (names.foldl (Queue.push program) q).Holds (names.foldl (waitFor program) waiting) := by
  induction names generalizing q waiting with
  | nil => exact h
  | cons name names ih => exact ih (h.push name)

theorem Holds.pop {name : String} {rest : List String} (h : q.Holds (name :: rest)) :
    q.pop.Holds rest := by
  obtain ⟨hname, hrest⟩ := List.nodup_cons.1 h.nodup
  unfold Queue.pop
  rw [h.order]
  refine ⟨rfl, hrest, fun n => ?_⟩
  show (FiniteMap.get? (FiniteMap.filter (fun n _ => n != name) q.members) n).isSome = true ↔ _
  rw [FiniteMap.get?_filter_keys]
  by_cases hn : n = name
  · -- the name that is taken out does not stand behind itself
    subst hn
    simp [hname]
  · have hmember := h.members n
    rw [List.mem_cons] at hmember
    simpa [hn, FiniteMap.contains] using hmember

end Queue

/-! ## §3 Waking -/

section
variable (program : Program)

theorem worklist_enqueue (p : Propagation) (name : String) :
    (enqueue program p name).worklist = waitFor program p.worklist name := by
  unfold enqueue waitFor
  split <;> rfl

theorem worklist_foldl_enqueue (names : List String) (p : Propagation) :
    (names.foldl (enqueue program) p).worklist = names.foldl (waitFor program) p.worklist := by
  induction names generalizing p with
  | nil => rfl
  | cons name names ih => rw [List.foldl_cons, List.foldl_cons, ih, worklist_enqueue]

/-- Whether the states passed to a callee give a reason to look at it: they add something, or it has
never been looked at. -/
def rouses (p : Propagation) (call : String × Facts) : Bool :=
  !(decide (grownEntry (p.summary call.1) call.2 = p.summary call.1) && p.visited.contains call.1)

/-- The functions that a recorded pass over `name` puts back: its callers if its exit side has grown,
and the callees that it gives a reason to look at. -/
def woken (p : Propagation) (name : String) (outcome : Outcome) : List String :=
  (if grownExit (p.summary name) outcome = p.summary name then [] else p.callersOf name) ++
    (outcome.calls.toList.filter p.rouses).map (·.1)

theorem worklist_absorbExit (p : Propagation) (name : String) (outcome : Outcome) :
    (p.absorbExit program name outcome).worklist =
      (if grownExit (p.summary name) outcome = p.summary name then [] else p.callersOf name).foldl
        (waitFor program) p.worklist := by
  rw [absorbExit_eq]
  simp only
  split
  · rfl
  · exact worklist_foldl_enqueue program _ _

theorem worklist_absorbCall (p : Propagation) (call : String × Facts) :
    (p.absorbCall program call).worklist =
      if p.rouses call then waitFor program p.worklist call.1 else p.worklist := by
  rw [absorbCall_eq_ite]
  unfold rouses
  simp only
  split
  · next h => rw [h]; rfl
  · next h =>
    rw [Bool.not_eq_true] at h
    rw [h]
    exact worklist_enqueue program _ _

/-- Whether a callee is put back depends on what is passed to it and what is known on entry to it. -/
theorem rouses_congr {p p' : Propagation} {call : String × Facts}
    (hentry : (p'.summary call.1).entry = (p.summary call.1).entry)
    (hvisited : p'.visited = p.visited) : p'.rouses call = p.rouses call := by
  have hsame : grownEntry (p'.summary call.1) call.2 = p'.summary call.1 ↔
      grownEntry (p.summary call.1) call.2 = p.summary call.1 := by
    rw [grownEntry_eq_iff, grownEntry_eq_iff, hentry]
  unfold rouses
  rw [hvisited, decide_eq_decide.2 hsame]

theorem worklist_foldl_absorbCall {calls : List (String × Facts)} (hasc : Ascending calls)
    (p : Propagation) :
    (calls.foldl (absorbCall program) p).worklist =
      ((calls.filter p.rouses).map (·.1)).foldl (waitFor program) p.worklist := by
  induction calls generalizing p with
  | nil => rfl
  | cons call calls ih =>
    obtain ⟨worklist, hstep, -⟩ := absorbCall_eq program p call
    -- names ascend, so this call does not change what is known on entry to the later callees
    have hlater : ∀ later ∈ calls, (p.absorbCall program call).rouses later = p.rouses later := by
      intro later hmem
      have hlt : compare call.1 later.1 = .lt := (List.pairwise_cons.1 hasc).1 later hmem
      have hne : later.1 ≠ call.1 := by
        intro heq
        rw [heq, Std.compare_self] at hlt
        cases hlt
      apply rouses_congr
      · rw [hstep]
        show (({ p with summaries := p.summaries.insert call.1 _ } : Propagation).summary
          later.1).entry = _
        rw [summary_insert, if_neg hne]
      · rw [hstep]
    rw [List.foldl_cons, ih (List.Pairwise.of_cons hasc), List.filter_congr hlater,
      worklist_absorbCall, List.filter_cons]
    split <;> rfl

/-- The exit side of a pass touches one summary and the worklist. -/
theorem absorbExit_eq_withSummary (p : Propagation) (name : String) (outcome : Outcome) :
    p.absorbExit program name outcome =
      { p.withSummary name (grownExit (p.summary name) outcome) with
        worklist := (p.absorbExit program name outcome).worklist } := by
  rw [absorbExit_eq]
  simp only
  split
  · rfl
  · exact foldl_enqueue_eq program _ _

/-- **The worklist after a round**: what waited before, and behind it what the pass has woken. -/
theorem worklist_absorb (p : Propagation) (name : String) (outcome : Outcome) (table : Table) :
    (p.absorb program name outcome table).worklist =
      ((p.recordPass name outcome table).woken name outcome).foldl (waitFor program) p.worklist := by
  have hworklist : (p.recordPass name outcome table).worklist = p.worklist := rfl
  unfold absorb woken
  generalize p.recordPass name outcome table = q at hworklist
  have hexit := worklist_absorbExit program q name outcome
  have hcalls : (outcome.calls.toList.foldl (absorbCall program)
      (q.absorbExit program name outcome)).worklist = _ :=
    worklist_foldl_absorbCall program outcome.calls.ascending (q.absorbExit program name outcome)
  -- what the exit side adds to the summary of `name` is no reason to look at a callee
  have hrouses : ∀ call ∈ outcome.calls.entries,
      (q.absorbExit program name outcome).rouses call = q.rouses call := by
    intro call _
    rw [absorbExit_eq_withSummary]
    refine rouses_congr ?_ rfl
    show (({ q with summaries := q.summaries.insert name _ } : Propagation).summary call.1).entry = _
    rw [summary_insert]
    split
    · next hn => rw [hn]; rfl
    · rfl
  rw [hcalls, List.filter_congr hrouses, hexit, hworklist, List.foldl_append]
  rfl

end

/-! ## §4 Heads -/

/-- The state at the head of the loop: the budget left, what is known, and the queue. -/
structure Head where
  budget : Nat
  state : Propagation
  queue : Queue

namespace Head

/-- The head before the first round. -/
def start (program : Program) (limit : Nat) (entries : List String) : Head :=
  ⟨limit, Propagation.start program entries, entries.foldl (Queue.push program) .empty⟩

/-- One round of the loop; nothing when nobody waits or the budget does not suffice for it. -/
def next? (program : Program) (model : CallModel) (head : Head) : Option Head :=
  match head.budget, head.state.worklist with
  | budget + 1, name :: rest =>
    let p := { head.state with worklist := rest }
    (program.body? name).bind fun f =>
      (Pass.sweep program model p.summaries f budget (p.openPass name f)).map fun result =>
        let p' := p.recordPass name result.2.outcome result.2.table
        { budget := result.1
          state := p.absorb program name result.2.outcome result.2.table
          queue := (p'.woken name result.2.outcome).foldl (Queue.push program) head.queue.pop }
  | _, _ => none

variable {program : Program} {model : CallModel} {head head' : Head}

/-- **What a round does.** It looks at the first waiting function and takes in what the pass over it
found. -/
theorem next?_eq_some_iff :
    head.next? program model = some head' ↔
      ∃ budget name rest f left pass, head.budget = budget + 1 ∧
        head.state.worklist = name :: rest ∧ program.body? name = some f ∧
        Pass.sweep program model head.state.summaries f budget
          (openPass { head.state with worklist := rest } name f) = some (left, pass) ∧
        head' = ⟨left, absorb program { head.state with worklist := rest } name pass.outcome pass.table,
          ((recordPass { head.state with worklist := rest } name pass.outcome pass.table).woken name
            pass.outcome).foldl (Queue.push program) head.queue.pop⟩ := by
  constructor
  · intro h
    unfold next? at h
    split at h
    · next budget name rest hbudget hworklist =>
      obtain ⟨f, hbody, h⟩ := Option.bind_eq_some_iff.1 h
      obtain ⟨⟨left, pass⟩, hsweep, rfl⟩ := Option.map_eq_some_iff.1 h
      exact ⟨budget, name, rest, f, left, pass, hbudget, hworklist, hbody, hsweep, rfl⟩
    · cases h
  · rintro ⟨budget, name, rest, f, left, pass, hbudget, hworklist, hbody, hsweep, rfl⟩
    unfold next?
    simp only [hbudget, hworklist, hbody, Option.bind_some, hsweep, Option.map_some]

/-- A run goes on from the next head as it does from this one. -/
theorem run_of_next? (h : head.next? program model = some head') :
    run program model head.budget head.state = run program model head'.budget head'.state := by
  obtain ⟨budget, name, rest, f, left, pass, hbudget, hworklist, hbody, hsweep, rfl⟩ :=
    next?_eq_some_iff.1 h
  rw [hbudget, run_succ_of_body hworklist hbody, hsweep]
  rfl

theorem run_of_afterSteps {rounds : Nat}
    (h : afterSteps (next? program model) rounds head = some head') :
    run program model head.budget head.state = run program model head'.budget head'.state :=
  afterSteps_rel
    (R := fun a b : Head => run program model a.budget a.state = run program model b.budget b.state)
    (fun _ => rfl) (fun _ _ _ => Eq.trans) (fun _ _ => run_of_next?) h

/-- A run ends at the head that has no next one: with what is known there if nobody waits, and with
nothing otherwise. -/
theorem run_of_next?_none (hbodies : ∀ n ∈ head.state.worklist, (program.body? n).isSome = true)
    (h : head.next? program model = none) :
    run program model head.budget head.state =
      if head.state.worklist = [] then some head.state else none := by
  cases hworklist : head.state.worklist with
  | nil => rw [run_of_nil hworklist, if_pos rfl]
  | cons name rest =>
    rw [if_neg (List.cons_ne_nil name rest)]
    obtain ⟨f, hbody⟩ := Option.isSome_iff_exists.1 (hbodies name (hworklist ▸ List.mem_cons_self ..))
    -- somebody waits, so the budget is used up before the round or inside its pass
    cases hbudget : head.budget with
    | zero => exact run_zero_of_cons hworklist
    | succ budget =>
      rw [run_succ_of_body hworklist hbody]
      simp only [next?, hbudget, hworklist, hbody, Option.bind_some, Option.map_eq_none_iff] at h
      rw [h, Option.bind_none]

/-- The queue is the worklist of the run. -/
def Queued (head : Head) : Prop := head.queue.Holds head.state.worklist

theorem queued_start (program : Program) (limit : Nat) (entries : List String) :
    (start program limit entries).Queued := by
  have hworklist : (Propagation.start program entries).worklist =
      entries.foldl (waitFor program) [] := worklist_foldl_enqueue program entries .empty
  show Queue.Holds _ (Propagation.start program entries).worklist
  rw [hworklist]
  exact Queue.holds_empty.foldl_push entries

theorem Queued.next (hhead : head.Queued) (h : head.next? program model = some head') :
    head'.Queued := by
  obtain ⟨budget, name, rest, f, left, pass, -, hworklist, -, -, rfl⟩ := next?_eq_some_iff.1 h
  -- the queue is moved by pushes and a pop, the worklist by the round itself
  have hqueue : head.queue.Holds (name :: rest) := hworklist ▸ hhead
  show Queue.Holds _ (absorb program _ name pass.outcome pass.table).worklist
  rw [worklist_absorb]
  exact hqueue.pop.foldl_push _

end Head

end Propagation

end Typestate
