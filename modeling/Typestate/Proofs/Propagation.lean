import Typestate.Proofs.ControlFlow
import Typestate.Solver.Propagation

/-!
# What the loop over functions does in one round

Taking in the outcome of a pass is described once, by what it does to each component of the state:
which summaries grow and how, who is known to call whom, and who has to wait for another look.
Everything that is proved about whole runs goes through this description.

## Contents

- §1 Putting functions into the worklist
- §2 `Absorbed`: taking in the outcome of a pass
- §3 Invariants of whole runs
-/

namespace Typestate

@[simp]
theorem Facts.join_empty (facts : Facts) : Facts.join facts FiniteMap.empty = facts :=
  Facts.join_eq_left_iff.2 (Facts.empty_le facts)

namespace Propagation

/-- `caller` is known to call into `callee`. -/
def Calls (p : Propagation) (caller callee : String) : Prop :=
  ∃ known, p.callers.get? callee = some known ∧ known.contains caller = true

/-- The function has been looked at or waits to be. -/
def Active (p : Propagation) (name : String) : Prop :=
  p.visited.contains name = true ∨ name ∈ p.worklist

/-! ## §1 The worklist -/

section
variable (program : Program)

/-- Queueing touches the worklist only. -/
theorem enqueue_eq (p : Propagation) (name : String) :
    enqueue program p name = { p with worklist := (enqueue program p name).worklist } := by
  unfold enqueue
  split <;> rfl

/-- Whoever waits did before or is a function with a body that was put in. -/
theorem mem_enqueue {p : Propagation} {name n : String} :
    n ∈ (enqueue program p name).worklist ↔
      n ∈ p.worklist ∨ n = name ∧ (program.body? name).isSome = true := by
  unfold enqueue
  by_cases hbody : (program.body? name).isSome = true
  · by_cases hmem : name ∈ p.worklist
    · -- it waits already, and is not put in twice
      simp only [hbody, hmem, List.contains_iff_mem.2, Bool.not_true, Bool.and_false,
        Bool.false_eq_true, if_false, and_true]
      constructor
      · exact Or.inl
      · rintro (h | rfl)
        · exact h
        · exact hmem
    · simp [hbody, hmem]
  · simp [hbody]

theorem foldl_enqueue_eq (names : List String) (p : Propagation) :
    names.foldl (enqueue program) p =
      { p with worklist := (names.foldl (enqueue program) p).worklist } := by
  induction names generalizing p with
  | nil => rfl
  | cons name names ih =>
    have hq := enqueue_eq program p name
    rw [List.foldl_cons, ih]
    -- all components but the worklist can be read off `hq`
    generalize enqueue program p name = q at hq
    rw [Propagation.mk.injEq] at hq
    obtain ⟨hsummaries, hcallers, hvisited, -, htable⟩ := hq
    simp only [hsummaries, hcallers, hvisited, htable]

/-- Putting in a list of names puts in those that have a body. -/
theorem mem_foldl_enqueue {names : List String} {p : Propagation} {n : String} :
    n ∈ (names.foldl (enqueue program) p).worklist ↔
      n ∈ p.worklist ∨ n ∈ names ∧ (program.body? n).isSome = true := by
  induction names generalizing p with
  | nil => simp
  | cons name names ih =>
    rw [List.foldl_cons, ih, mem_enqueue, List.mem_cons]
    -- whoever waits did before, is this name, or is a later one
    constructor
    · rintro ((h | ⟨rfl, h⟩) | ⟨h, h'⟩)
      · exact Or.inl h
      · exact Or.inr ⟨Or.inl rfl, h⟩
      · exact Or.inr ⟨Or.inr h, h'⟩
    · rintro (h | ⟨rfl | h, h'⟩)
      · exact Or.inl (Or.inl h)
      · exact Or.inl (Or.inr ⟨rfl, h'⟩)
      · exact Or.inr ⟨h, h'⟩

end

/-! ## §2 Taking in an outcome -/

/-- Entering a caller at each of a list of callees makes it known there and nowhere else. -/
theorem calls_foldl_alter (keys : List String) (callers : FiniteMap String (FiniteSet String))
    (name caller callee : String) :
    (∃ known, (keys.foldl
        (fun callers callee =>
          callers.alter callee (fun known => FiniteSet.insert (known.getD FiniteSet.empty) name))
        callers).get? callee = some known ∧ known.contains caller = true) ↔
      (∃ known, callers.get? callee = some known ∧ known.contains caller = true) ∨
        caller = name ∧ callee ∈ keys := by
  induction keys generalizing callers with
  | nil => simp
  | cons key keys ih =>
    rw [List.foldl_cons, ih, FiniteMap.get?_alter, List.mem_cons]
    by_cases hkey : callee = key
    · subst hkey
      -- the callee has gained the caller `name`, whether or not it had others
      simp only [if_true, Option.some.injEq, exists_eq_left', FiniteSet.contains_insert, true_or,
        and_true]
      cases hget : callers.get? callee with
      | none =>
        have hempty : FiniteMap.contains (FiniteSet.empty : FiniteSet String) caller = false := rfl
        simp only [Option.getD_none, hempty, reduceCtorEq, false_and, exists_false]
        grind
      | some known =>
        simp only [Option.getD_some, Option.some.injEq, exists_eq_left']
        grind
    · simp [hkey]

theorem calls_recordPass {p : Propagation} {name : String} {outcome : Outcome} {table : Table}
    {caller callee : String} :
    (p.recordPass name outcome table).Calls caller callee ↔
      p.Calls caller callee ∨ caller = name ∧ callee ∈ outcome.calls.keys :=
  calls_foldl_alter outcome.calls.keys p.callers name caller callee

/-- A replaced summary is that of its function only. -/
theorem summary_insert (p : Propagation) (name n : String) (s : Summary) :
    ({ p with summaries := p.summaries.insert name s } : Propagation).summary n =
      if n = name then s else p.summary n := by
  unfold summary
  simp only [FiniteMap.get?_insert]
  split <;> rfl

/-- The summary of a function after the exit side of a pass has been joined in. -/
def grownExit (old : Summary) (outcome : Outcome) : Summary :=
  { old with
    exit := Facts.join old.exit outcome.exit
    ret := match outcome.ret with
      | some s => joinOption old.ret s
      | none => old.ret }

/-- The returned state is joined like the states of the parameters. -/
theorem ret_grownExit (old : Summary) (outcome : Outcome) :
    (grownExit old outcome).ret = Observation.join old.ret outcome.ret := by
  unfold grownExit
  cases h : outcome.ret with
  | none => simp
  | some s => exact joinOption_eq _ _

/-- What the exit side of a pass over `name` does to each component of the state. -/
structure ExitAbsorbed (program : Program) (p : Propagation) (name : String) (outcome : Outcome)
    (table : Table) (p' : Propagation) : Prop where
  table : p'.table = table
  visited : ∀ n, p'.visited.contains n = true ↔ n = name ∨ p.visited.contains n = true
  calls : ∀ caller callee, p'.Calls caller callee ↔
    p.Calls caller callee ∨ caller = name ∧ callee ∈ outcome.calls.keys
  summary : ∀ n, p'.summary n =
    if n = name then grownExit (p.summary name) outcome else p.summary n
  kept : ∀ n ∈ p.worklist, n ∈ p'.worklist
  queued : ∀ n ∈ p'.worklist, n ∈ p.worklist ∨ (program.body? n).isSome = true ∧ p'.Calls n name
  callers : grownExit (p.summary name) outcome ≠ p.summary name →
    ∀ n, p'.Calls n name → (program.body? n).isSome = true → n ∈ p'.worklist

/-- The exit side of a pass, component by component. -/
theorem exitAbsorbed_recordPass (program : Program) (p : Propagation) (name : String)
    (outcome : Outcome) (table : Table) :
    ExitAbsorbed program p name outcome table
      ((p.recordPass name outcome table).absorbExit program name outcome) := by
  have hvisited : ∀ n, (p.recordPass name outcome table).visited.contains n = true ↔
      n = name ∨ p.visited.contains n = true := FiniteSet.contains_insert p.visited name
  have hcalls : ∀ caller callee, (p.recordPass name outcome table).Calls caller callee ↔
      p.Calls caller callee ∨ caller = name ∧ callee ∈ outcome.calls.keys :=
    fun _ _ => calls_recordPass
  -- recording the pass touches neither the summaries nor the worklist
  have hsummary : ∀ n, (p.recordPass name outcome table).summary n = p.summary n := fun _ => rfl
  have hworklist : (p.recordPass name outcome table).worklist = p.worklist := rfl
  have htable : (p.recordPass name outcome table).table = table := rfl
  generalize p.recordPass name outcome table = q at hvisited hcalls hsummary hworklist htable
  have hinsert : ∀ n, ({ q with
      summaries := q.summaries.insert name (grownExit (p.summary name) outcome) } :
        Propagation).summary n =
      if n = name then grownExit (p.summary name) outcome else p.summary n := by
    intro n
    rw [summary_insert, hsummary]
  unfold absorbExit
  rw [hsummary]
  show ExitAbsorbed program p name outcome table
    (if grownExit (p.summary name) outcome = p.summary name then _ else _)
  by_cases hgrown : grownExit (p.summary name) outcome = p.summary name
  · rw [if_pos hgrown]
    exact ⟨htable, hvisited, hcalls, hinsert, fun n h => hworklist ▸ h,
      fun n h => Or.inl (hworklist ▸ h), fun h => absurd hgrown h⟩
  · -- the summary has grown: everybody known to call the function has to look again
    rw [if_neg hgrown]
    cases hcallers : q.callers.get? name with
    | none =>
      refine ⟨htable, hvisited, hcalls, hinsert, fun n h => hworklist ▸ h,
        fun n h => Or.inl (hworklist ▸ h), ?_⟩
      rintro - n ⟨known, hknown, -⟩
      have hknown : q.callers.get? name = some known := hknown
      rw [hcallers] at hknown
      cases hknown
    | some known =>
      simp only
      rw [foldl_enqueue_eq]
      refine ⟨htable, hvisited, hcalls, hinsert, ?_, ?_, ?_⟩
      · intro n hn
        exact (mem_foldl_enqueue program).2 (Or.inl (hworklist ▸ hn))
      · intro n hn
        rcases (mem_foldl_enqueue program).1 hn with hn | ⟨hn, hbody⟩
        · exact Or.inl (hworklist ▸ hn)
        · exact Or.inr ⟨hbody, known, hcallers, FiniteSet.mem_toList_iff.1 hn⟩
      · rintro - n ⟨known', hknown', hn⟩ hbody
        have hknown' : q.callers.get? name = some known' := hknown'
        rw [hcallers] at hknown'
        cases hknown'
        exact (mem_foldl_enqueue program).2 (Or.inr ⟨FiniteSet.mem_toList_iff.2 hn, hbody⟩)

/-- The summary of a callee after the states passed to it have been joined in. -/
def grownEntry (old : Summary) (passed : Facts) : Summary :=
  { old with entry := Facts.join old.entry passed }

/-- A summary does not grow exactly if it holds already what is passed. -/
theorem grownEntry_eq_iff {old : Summary} {passed : Facts} :
    grownEntry old passed = old ↔ passed ≤ old.entry := by
  -- only the entry side of the summary can differ
  rw [← Facts.join_eq_left_iff]
  constructor
  · intro h
    exact congrArg Summary.entry h
  · intro h
    unfold grownEntry
    rw [h]

/-- The entry side of one callee: its summary grows, and it waits if it does or is new. -/
theorem absorbCall_eq (program : Program) (p : Propagation) (call : String × Facts) :
    ∃ worklist, p.absorbCall program call =
        { p with
          summaries := p.summaries.insert call.1 (grownEntry (p.summary call.1) call.2)
          worklist := worklist } ∧
      (∀ n ∈ p.worklist, n ∈ worklist) ∧
      (∀ n ∈ worklist, n ∈ p.worklist ∨ (program.body? n).isSome = true ∧ n = call.1) ∧
      ((program.body? call.1).isSome = true →
        (¬ call.2 ≤ (p.summary call.1).entry ∨ p.visited.contains call.1 = false) →
        call.1 ∈ worklist) := by
  unfold absorbCall
  show ∃ worklist, (if (decide (grownEntry (p.summary call.1) call.2 = p.summary call.1) &&
      p.visited.contains call.1) = true then _ else _) = _ ∧ _
  -- either nothing is new about a callee that was visited, or it is queued
  split
  · next h =>
    simp only [Bool.and_eq_true, decide_eq_true_eq] at h
    refine ⟨p.worklist, rfl, fun _ h => h, fun _ h => Or.inl h, ?_⟩
    rintro - (hmore | hnew)
    · exact absurd (grownEntry_eq_iff.1 h.1) hmore
    · rw [h.2] at hnew
      cases hnew
  · refine ⟨_, enqueue_eq program _ _, ?_, ?_, ?_⟩
    · intro n hn
      exact (mem_enqueue program).2 (Or.inl hn)
    · intro n hn
      rcases (mem_enqueue program).1 hn with hn | ⟨rfl, hbody⟩
      · exact Or.inl hn
      · exact Or.inr ⟨hbody, rfl⟩
    · intro hbody _
      exact (mem_enqueue program).2 (Or.inr ⟨rfl, hbody⟩)

/-- What taking in the states passed to a list of callees does to each component of the state. -/
structure EntriesAbsorbed (program : Program) (p : Propagation) (calls : List (String × Facts))
    (p' : Propagation) : Prop where
  table : p'.table = p.table
  visited : p'.visited = p.visited
  callers : p'.callers = p.callers
  exit : ∀ n, (p'.summary n).exit = (p.summary n).exit
  ret : ∀ n, (p'.summary n).ret = (p.summary n).ret
  entry : ∀ n, (p'.summary n).entry =
    Facts.join (p.summary n).entry ((FiniteMap.find n calls).getD .empty)
  kept : ∀ n ∈ p.worklist, n ∈ p'.worklist
  queued : ∀ n ∈ p'.worklist, n ∈ p.worklist ∨
    (program.body? n).isSome = true ∧ n ∈ calls.map (·.1)
  callees : ∀ n passed, (n, passed) ∈ calls → (program.body? n).isSome = true →
    ¬ passed ≤ (p.summary n).entry ∨ p.visited.contains n = false → n ∈ p'.worklist

/-- The entry sides of all callees, component by component. Each callee occurs once, so what is passed
to it is looked at once. -/
theorem entriesAbsorbed_foldl (program : Program) {calls : List (String × Facts)}
    (hasc : Ascending calls) (p : Propagation) :
    EntriesAbsorbed program p calls (calls.foldl (absorbCall program) p) := by
  induction calls generalizing p with
  | nil =>
    exact ⟨rfl, rfl, rfl, fun _ => rfl, fun _ => rfl, fun n => by simp [FiniteMap.find],
      fun _ h => h, fun _ h => Or.inl h, by simp⟩
  | cons call calls ih =>
    obtain ⟨name, passed⟩ := call
    obtain ⟨worklist, hstep, hkept, hqueued, hcallee⟩ := absorbCall_eq program p (name, passed)
    have hbehind := (List.pairwise_cons.1 hasc).1
    have h := ih (List.Pairwise.of_cons hasc) (absorbCall program p (name, passed))
    rw [List.foldl_cons]
    rw [hstep] at h ⊢
    -- the summary of any other callee is not touched by this step
    have hsummary : ∀ n, ({ p with
        summaries := p.summaries.insert name (grownEntry (p.summary name) passed)
        worklist := worklist } : Propagation).summary n =
          if n = name then grownEntry (p.summary name) passed else p.summary n :=
      fun n => summary_insert p name n _
    refine ⟨h.table, h.visited, h.callers, ?_, ?_, ?_, ?_, ?_, ?_⟩
    · intro n
      rw [h.exit, hsummary]
      split
      · next hn => rw [hn]; rfl
      · rfl
    · intro n
      rw [h.ret, hsummary]
      split
      · next hn => rw [hn]; rfl
      · rfl
    · intro n
      rw [h.entry, hsummary]
      by_cases hn : n = name
      · subst hn
        simp [grownEntry, FiniteMap.find, FiniteMap.find_eq_none_of_lt hbehind]
      · have hne : compare n name ≠ .eq := fun e => hn (Std.compare_eq_iff_eq.1 e)
        simp [hn, FiniteMap.find, hne]
    · exact fun n hn => h.kept n (hkept n hn)
    · intro n hn
      rcases h.queued n hn with hn | ⟨hbody, hn⟩
      · rcases hqueued n hn with hn | ⟨hbody, rfl⟩
        · exact Or.inl hn
        · exact Or.inr ⟨hbody, by simp⟩
      · exact Or.inr ⟨hbody, by rw [List.map_cons]; exact List.mem_cons_of_mem _ hn⟩
    · intro n passed' hmem hbody hreason
      rcases List.mem_cons.1 hmem with heq | hmem
      · obtain ⟨rfl, rfl⟩ := Prod.mk.inj heq
        exact h.kept _ (hcallee hbody hreason)
      · -- names ascend, so the step for `name` has not touched the summary of `n`
        have hn : n ≠ name := by
          intro hn
          have hlt : compare name n = .lt := hbehind (n, passed') hmem
          rw [hn, Std.compare_self] at hlt
          cases hlt
        refine h.callees n passed' hmem hbody ?_
        rw [hsummary, if_neg hn]
        exact hreason

/-- The state once the summary of a function has been replaced. -/
def withSummary (p : Propagation) (name : String) (s : Summary) : Propagation :=
  { p with summaries := FiniteMap.insert p.summaries name s }

/-- The known callers of a function, in order. -/
def callersOf (p : Propagation) (name : String) : List String :=
  FiniteSet.toList ((p.callers.get? name).getD FiniteSet.empty)

theorem mem_callersOf {p : Propagation} {n name : String} :
    n ∈ p.callersOf name ↔ p.Calls n name := by
  unfold callersOf Calls
  rw [FiniteSet.mem_toList_iff]
  cases p.callers.get? name with
  | none => exact ⟨fun h => (nomatch h), fun ⟨_, h, _⟩ => (nomatch h)⟩
  | some known => simp

theorem absorbExit_eq (program : Program) (p : Propagation) (name : String) (outcome : Outcome) :
    absorbExit program p name outcome =
      let next := p.withSummary name (grownExit (p.summary name) outcome)
      if grownExit (p.summary name) outcome = p.summary name then next
      else (p.callersOf name).foldl (enqueue program) next := by
  unfold absorbExit callersOf
  cases hcallers : p.callers.get? name <;> simp only [hcallers] <;> rfl

theorem absorbCall_eq_ite (program : Program) (p : Propagation) (call : String × Facts) :
    absorbCall program p call =
      let next := p.withSummary call.1 (grownEntry (p.summary call.1) call.2)
      if (decide (grownEntry (p.summary call.1) call.2 = p.summary call.1) &&
        p.visited.contains call.1) = true then next
      else enqueue program next call.1 := rfl

/-- What taking in the outcome of a pass over `name` does to each component of the state. -/
structure Absorbed (program : Program) (p : Propagation) (name : String) (outcome : Outcome)
    (table : Table) (p' : Propagation) : Prop where
  table_eq : p'.table = table
  visited : ∀ n, p'.visited.contains n = true ↔ n = name ∨ p.visited.contains n = true
  calls : ∀ caller callee, p'.Calls caller callee ↔
    p.Calls caller callee ∨ caller = name ∧ callee ∈ outcome.calls.keys
  exit : ∀ n, (p'.summary n).exit =
    if n = name then Facts.join (p.summary n).exit outcome.exit else (p.summary n).exit
  ret : ∀ n, (p'.summary n).ret =
    if n = name then Observation.join (p.summary n).ret outcome.ret else (p.summary n).ret
  entry : ∀ n, (p'.summary n).entry =
    Facts.join (p.summary n).entry ((outcome.calls.get? n).getD .empty)
  kept : ∀ n ∈ p.worklist, n ∈ p'.worklist
  callers : (p'.summary name).exit ≠ (p.summary name).exit ∨
      (p'.summary name).ret ≠ (p.summary name).ret →
    ∀ n, p'.Calls n name → (program.body? n).isSome = true → n ∈ p'.worklist
  callees : ∀ n passed, outcome.calls.get? n = some passed → (program.body? n).isSome = true →
    ¬ passed ≤ (p.summary n).entry ∨ p'.visited.contains n = false → n ∈ p'.worklist
  queued : ∀ n ∈ p'.worklist, n ∈ p.worklist ∨
    (program.body? n).isSome = true ∧ (p'.Calls n name ∨ n ∈ outcome.calls.keys)

/-- **One round of the loop**, component by component. -/
theorem absorbed_absorb (program : Program) (p : Propagation) (name : String) (outcome : Outcome)
    (table : Table) :
    Absorbed program p name outcome table (p.absorb program name outcome table) := by
  have hexit := exitAbsorbed_recordPass program p name outcome table
  unfold absorb
  generalize (p.recordPass name outcome table).absorbExit program name outcome = q at hexit
  -- the round is taken apart: the exit side leads to `q`, the entry side from there on
  have hentries : EntriesAbsorbed program q outcome.calls.entries
      (outcome.calls.toList.foldl (absorbCall program) q) :=
    entriesAbsorbed_foldl program outcome.calls.ascending q
  generalize outcome.calls.toList.foldl (absorbCall program) q = p' at hentries
  have hcalls : ∀ caller callee, p'.Calls caller callee ↔ q.Calls caller callee := by
    intro caller callee
    unfold Calls
    rw [hentries.callers]
  -- the exit side leaves all entries as they were
  have hentry : ∀ n, (q.summary n).entry = (p.summary n).entry := by
    intro n
    rw [hexit.summary]
    split
    · next hn => rw [hn]; rfl
    · rfl
  refine ⟨hentries.table.trans hexit.table, ?_, ?_, ?_, ?_, ?_, ?_, ?_, ?_, ?_⟩
  · intro n
    rw [hentries.visited, hexit.visited]
  · intro caller callee
    rw [hcalls, hexit.calls]
  · intro n
    rw [hentries.exit, hexit.summary]
    split
    · next hn => rw [hn]; rfl
    · rfl
  · intro n
    rw [hentries.ret, hexit.summary]
    split
    · next hn => rw [hn]; exact ret_grownExit _ _
    · rfl
  · intro n
    rw [hentries.entry, hentry]
    rfl
  · exact fun n hn => hentries.kept n (hexit.kept n hn)
  · -- callers wake when the exit has grown, and the entry side wakes nobody less
    intro hgrown n hn hbody
    refine hentries.kept n (hexit.callers ?_ n ((hcalls n name).1 hn) hbody)
    intro hsame
    rw [hentries.exit, hentries.ret, hexit.summary, if_pos rfl, hsame] at hgrown
    rcases hgrown with h | h
    · exact h rfl
    · exact h rfl
  · intro n passed hpassed hbody hreason
    refine hentries.callees n passed (FiniteMap.mem_toList_iff.2 hpassed) hbody ?_
    rw [hentry, ← hentries.visited]
    exact hreason
  · intro n hn
    rcases hentries.queued n hn with hn | ⟨hbody, hn⟩
    · rcases hexit.queued n hn with hn | ⟨hbody, hn⟩
      · exact Or.inl hn
      · exact Or.inr ⟨hbody, Or.inl ((hcalls n name).2 hn)⟩
    · exact Or.inr ⟨hbody, Or.inr hn⟩

/-- Whoever takes part before a round takes part after it. -/
theorem active_of_absorbed {program : Program} {p p' : Propagation} {name : String}
    {rest : List String} {outcome : Outcome} {table : Table} (hworklist : p.worklist = name :: rest)
    (h : Absorbed program { p with worklist := rest } name outcome table p') {n : String}
    (hn : p.Active n) : p'.Active n := by
  rcases hn with hn | hn
  · exact Or.inl ((h.visited n).2 (Or.inr hn))
  · rw [hworklist] at hn
    rcases List.mem_cons.1 hn with rfl | hn
    · exact Or.inl ((h.visited n).2 (Or.inl rfl))
    · exact Or.inr (h.kept n hn)

/-- Whoever is idle after a round without having been looked at in it was idle before. -/
theorem idle_of_absorbed {program : Program} {p p' : Propagation} {name : String}
    {rest : List String} {outcome : Outcome} {table : Table} (hworklist : p.worklist = name :: rest)
    (h : Absorbed program { p with worklist := rest } name outcome table p') {n : String}
    (hname : n ≠ name) (hvisited : p'.visited.contains n = true) (hidle : n ∉ p'.worklist) :
    p.visited.contains n = true ∧ n ∉ p.worklist := by
  refine ⟨((h.visited n).1 hvisited).resolve_left hname, ?_⟩
  rw [hworklist, List.mem_cons, not_or]
  exact ⟨hname, fun hmem => hidle (h.kept n hmem)⟩

/-! ## §3 Whole runs -/

section
variable {program : Program} {model : CallModel}

/-- A property of the states between two rounds holds at the end of a run, when nobody waits. -/
theorem run_invariant {I : Propagation → Prop}
    (hbodies : ∀ p, I p → ∀ n ∈ p.worklist, (program.body? n).isSome = true)
    (hround : ∀ (p : Propagation) (name : String) (rest : List String) (f : Function)
      (budget left : Nat) (pass : Pass), I p → p.worklist = name :: rest →
      program.body? name = some f →
      Pass.sweep program model p.summaries f budget
        (Pass.start f.blocks.length (p.summary name).entry p.table) = some (left, pass) →
      ∀ p', Absorbed program { p with worklist := rest } name pass.outcome pass.table p' → I p')
    {budget : Nat} {p final : Propagation} (hrun : run program model budget p = some final)
    (hp : I p) : I final ∧ final.worklist = [] := by
  -- a pass uses up part of the budget, so the induction is on all smaller budgets
  induction budget using Nat.strongRecOn generalizing p with
  | ind budget ih =>
    unfold run at hrun
    split at hrun
    · next hnil =>
      cases hrun
      exact ⟨hp, hnil⟩
    · next name rest hworklist =>
      have hbody := hbodies p hp name (hworklist ▸ List.mem_cons_self ..)
      obtain ⟨f, hf⟩ := Option.isSome_iff_exists.1 hbody
      split at hrun
      · cases hrun
      · next budget =>
        simp only [hf] at hrun
        split at hrun
        · cases hrun
        · next left pass hsweep =>
          have hleft := Pass.sweep_left_le hsweep
          refine ih left (by omega) hrun ?_
          exact hround p name rest f _ left pass hp hworklist hf hsweep _
            (absorbed_absorb program { p with worklist := rest } name pass.outcome pass.table)

/-- At the start the entry points with a body wait. -/
theorem mem_start {entries : List String} {n : String} :
    n ∈ (start program entries).worklist ↔
      n ∈ entries ∧ (program.body? n).isSome = true := by
  unfold start
  rw [mem_foldl_enqueue]
  simp [empty]

theorem start_eq (entries : List String) :
    start program entries = { empty with worklist := (start program entries).worklist } :=
  foldl_enqueue_eq program entries empty

/-- A table is what a run over a checked program ends with. -/
theorem exists_of_solve {limit : Nat} {entries : List String} {t : Table}
    (h : solve program model limit entries = .ok t) :
    program.validate entries = .ok () ∧
      ∃ final, run program model limit (start program entries) = some final ∧ final.table = t := by
  obtain ⟨u, hvalidate, h⟩ := exists_of_bind_eq_ok h
  refine ⟨hvalidate, ?_⟩
  cases hrun : run program model limit (start program entries) with
  | none =>
    rw [hrun] at h
    cases h
  | some final =>
    rw [hrun] at h
    cases h
    exact ⟨final, rfl, rfl⟩

end

end Propagation

end Typestate
