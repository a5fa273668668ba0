import Mathlib.Data.List.Forall2
import Typestate.Analysis
import Typestate.Proofs.Filtering

/-!
# Which calls are findings

A finding is decided by the two raw tables alone. Of the consuming table count the values that were in
a memory error somewhere and never in a violation, of the factory table those that were rewrapped
somewhere and never in a violation; at a call, the cells of these values in their tables contribute.
There is a finding where the contributions hold a memory error and a rewrapped value, whichever table
either comes from. Calls are looked at in program order, and of each instruction identity only the
first call.

## Contents

- §1 Contributions
- §2 What the contributions at a call say
- §3 First calls
- §4 Findings
- §5 An analysis as two solved tables
-/

namespace Typestate

/-! ## §1 Contributions -/

/-- `v` was in a memory error somewhere and never in a violation. -/
def Table.Errs (t : Table) (v : ValueId) : Prop :=
  (∃ s, t.Shows v s ∧ s.isMemoryError = true) ∧ ¬ t.Shows v .violation

/-- `v` was rewrapped somewhere and never in a violation. -/
def Table.Wraps (t : Table) (v : ValueId) : Prop :=
  t.Shows v .rawWrapped ∧ ¬ t.Shows v .violation

/-- At the instruction, `v` contributes the state `s` of its cell in either table. -/
def Contributes (consuming factory : Table) (i : InstId) (v : ValueId) (s : State) : Prop :=
  consuming.get? i v = some s ∧ consuming.Errs v ∨ factory.get? i v = some s ∧ factory.Wraps v

/-- The runs of two raw tables, without their noise. -/
def RunPair.ofTables (consuming factory : Table) : RunPair :=
  RunPair.filter ⟨.ofTable .consuming consuming, .ofTable .factory factory⟩

namespace Run

variable {mode : Mode} {t : Table} {v : ValueId}

theorem mem_errored_iff :
    v ∈ (ofTable mode t).filter.valuesWhere State.isMemoryError ↔ t.Errs v :=
  mem_valuesWhere_filter_iff (by decide) (by decide)

theorem mem_wrapped_iff :
    v ∈ (ofTable mode t).filter.valuesWhere (· == State.rawWrapped) ↔ t.Wraps v := by
  rw [mem_valuesWhere_filter_iff (by decide) (by decide)]
  simp [Table.Wraps]

/-- Observations of chosen values are cells of the raw table: none of them is filtered out. -/
theorem mem_observations_iff (mode : Mode) (t : Table) (p : State → Bool) (i : InstId)
    (v : ValueId) (s : State) :
    (v, s) ∈ (ofTable mode t).filter.observations i ((ofTable mode t).filter.valuesWhere p) ↔
      t.get? i v = some s ∧ v ∈ (ofTable mode t).filter.valuesWhere p := by
  unfold observations
  rw [List.mem_filter, Table.mem_row_iff, get?_table_filter, List.contains_iff_mem]
  constructor
  · rintro ⟨⟨hs, -⟩, hv⟩
    exact ⟨hs, hv⟩
  · rintro ⟨hs, hv⟩
    exact ⟨⟨hs, ((mem_valuesWhere_filter mode t p v).1 hv).1⟩, hv⟩

end Run

/-- **The contributions at an instruction**, grouped by value. -/
theorem groups_contributions (consuming factory : Table) (i : InstId) :
    (contributions (.ofTables consuming factory) i).Groups (Contributes consuming factory i) := by
  unfold contributions
  refine (StateSets.groups_of_foldl _).congr fun v s => ?_
  have herrored := Run.mem_observations_iff .consuming consuming State.isMemoryError i v s
  have hwrapped := Run.mem_observations_iff .factory factory (· == State.rawWrapped) i v s
  rw [Run.mem_errored_iff] at herrored
  rw [Run.mem_wrapped_iff] at hwrapped
  exact List.mem_append.trans (or_congr herrored hwrapped)

/-! ## §2 At a call -/

section
variable {values : StateSets} {R : ValueId → State → Prop}

theorem contains_errorKinds (h : values.Groups R) (kind : MemoryError) :
    (errorKinds values).contains kind = true ↔ ∃ v s, R v s ∧ s.memoryError? = some kind := by
  unfold errorKinds
  rw [FiniteSet.contains_ofList]
  simp only [List.mem_flatMap, List.mem_filterMap, FiniteSet.mem_toList_iff]
  constructor
  · rintro ⟨set, hset, s, hs, hkind⟩
    obtain ⟨v, hv⟩ := (h.exists_values_iff s).1 ⟨set, hset, hs⟩
    exact ⟨v, s, hv, hkind⟩
  · rintro ⟨v, s, hv, hkind⟩
    obtain ⟨set, hset, hs⟩ := (h.exists_values_iff s).2 ⟨v, hv⟩
    exact ⟨set, hset, s, hs, hkind⟩

theorem errorKinds_nonempty_iff (h : values.Groups R) :
    (errorKinds values).isEmpty = false ↔ ∃ v s, R v s ∧ s.isMemoryError = true := by
  rw [FiniteSet.isEmpty_eq_false_iff]
  simp only [contains_errorKinds h, State.isMemoryError, Option.isSome_iff_exists]
  constructor
  · rintro ⟨kind, v, s, hv, hkind⟩
    exact ⟨v, s, hv, kind, hkind⟩
  · rintro ⟨v, s, hv, kind, hkind⟩
    exact ⟨kind, v, s, hv, hkind⟩

theorem any_contains_iff (h : values.Groups R) (s : State) :
    values.values.any (FiniteMap.contains · s) = true ↔ ∃ v, R v s := by
  rw [List.any_eq_true]
  exact h.exists_values_iff s

end

/-- The call at the site is a finding: its token is asked for, and both a memory error and a
rewrapped value contribute. -/
structure Reportable (classifier : Classifier) (scope : Scope) (consuming factory : Table)
    (site : CallSite) : Prop where
  token : scope = .rebuildSites → classifier.tokenOf site.callee = .rebuild
  errs : ∃ v s, Contributes consuming factory site.instruction v s ∧ s.isMemoryError = true
  wraps : ∃ v, Contributes consuming factory site.instruction v .rawWrapped

/-- The finding says of the site what it has to say. -/
structure Describes (classifier : Classifier) (consuming factory : Table) (site : CallSite)
    (finding : Finding) : Prop where
  instruction : finding.instruction = site.instruction
  function : finding.function = site.function
  callee : finding.callee = site.callee
  token : finding.token = classifier.tokenOf site.callee
  values : finding.values.Groups (Contributes consuming factory site.instruction)
  kinds : ∀ kind, finding.kinds.contains kind = true ↔
    ∃ v s, Contributes consuming factory site.instruction v s ∧ s.memoryError? = some kind

section
variable {classifier : Classifier} {scope : Scope} {consuming factory : Table} {site : CallSite}

theorem covers_iff {token : Token} :
    scope.covers token = true ↔ (scope = .rebuildSites → token = .rebuild) := by
  cases scope <;> simp [Scope.covers]

theorem isSome_findingAt?_iff :
    (findingAt? classifier scope (.ofTables consuming factory) site).isSome = true ↔
      Reportable classifier scope consuming factory site := by
  have hgroups := groups_contributions consuming factory site.instruction
  unfold findingAt?
  simp only
  rw [← ite_and, Option.isSome_ite, Bool.and_eq_true, Bool.not_eq_true', covers_iff,
    errorKinds_nonempty_iff hgroups, any_contains_iff hgroups]
  constructor
  · rintro ⟨htoken, herrs, hwraps⟩
    exact ⟨htoken, herrs, hwraps⟩
  · intro h
    exact ⟨h.token, h.errs, h.wraps⟩

theorem describes_of_findingAt? {finding : Finding}
    (h : findingAt? classifier scope (.ofTables consuming factory) site = some finding) :
    Describes classifier consuming factory site finding := by
  have hgroups := groups_contributions consuming factory site.instruction
  unfold findingAt? at h
  simp only at h
  split at h
  · split at h
    · cases h
      exact ⟨rfl, rfl, rfl, rfl, hgroups, contains_errorKinds hgroups⟩
    · cases h
  · cases h

end

/-! ## §3 First calls -/

/-- The `n`-th instruction is the call at the site, and no call before it has its identity. -/
structure FirstCall (code : List (Function × Instruction)) (n : Nat) (site : CallSite) : Prop where
  call : ∃ f i, code[n]? = some (f, i) ∧ i.callee? = some site.callee ∧
    i.id = site.instruction ∧ f.name = site.function
  first : ∀ m < n, ∀ g j, code[m]? = some (g, j) → j.id = site.instruction → j.callee? = none

/-- A first call whose identity is not among those already seen. -/
def NewCall (seen : FiniteSet InstId) (code : List (Function × Instruction)) (n : Nat)
    (site : CallSite) : Prop :=
  FirstCall code n site ∧ ¬ seen.contains site.instruction = true

section
variable {seen : FiniteSet InstId} {f : Function} {i : Instruction}
  {code : List (Function × Instruction)} {n : Nat} {site : CallSite}

theorem firstCall_zero_iff :
    FirstCall ((f, i) :: code) 0 site ↔
      i.callee? = some site.callee ∧ i.id = site.instruction ∧ f.name = site.function := by
  constructor
  · rintro ⟨⟨g, j, hget, hcall⟩, -⟩
    cases hget
    exact hcall
  · intro hcall
    exact ⟨⟨f, i, rfl, hcall⟩, fun m hm => absurd hm (Nat.not_lt_zero m)⟩

theorem firstCall_succ_iff :
    FirstCall ((f, i) :: code) (n + 1) site ↔
      FirstCall code n site ∧ (i.id = site.instruction → i.callee? = none) := by
  constructor
  · rintro ⟨hcall, hfirst⟩
    refine ⟨⟨hcall, fun m hm g j hget => ?_⟩, hfirst 0 (Nat.succ_pos n) f i rfl⟩
    exact hfirst (m + 1) (Nat.succ_lt_succ hm) g j hget
  · rintro ⟨⟨hcall, hfirst⟩, hhead⟩
    refine ⟨hcall, fun m hm g j hget => ?_⟩
    -- an earlier position is the head or lies in the rest
    cases m with
    | zero =>
      cases hget
      exact hhead
    | succ m => exact hfirst m (Nat.lt_of_succ_lt_succ hm) g j hget

theorem FirstCall.newCall_empty (h : FirstCall code n site) :
    NewCall FiniteSet.empty code n site :=
  ⟨h, Bool.false_ne_true⟩

/-- A call that is not seen yet is the only site of its position. -/
theorem newCall_zero_iff {callee : String} (h : i.callee? = some callee)
    (hseen : ¬ seen.contains i.id = true) :
    NewCall seen ((f, i) :: code) 0 site ↔ site = ⟨f.name, i.id, callee⟩ := by
  unfold NewCall
  rw [firstCall_zero_iff]
  constructor
  · rintro ⟨⟨hcallee, hid, hname⟩, -⟩
    cases site
    cases h.symm.trans hcallee
    cases hid
    cases hname
    rfl
  · rintro rfl
    exact ⟨⟨h, rfl, rfl⟩, hseen⟩

theorem newCall_succ_of_callee?_none (h : i.callee? = none) :
    NewCall seen ((f, i) :: code) (n + 1) site ↔ NewCall seen code n site := by
  simp [NewCall, firstCall_succ_iff, h]

theorem newCall_succ_of_seen (h : seen.contains i.id = true) :
    NewCall seen ((f, i) :: code) (n + 1) site ↔ NewCall seen code n site := by
  unfold NewCall
  rw [firstCall_succ_iff, and_assoc]
  refine and_congr_right fun _ => ⟨fun hnew => hnew.2, fun hnew => ⟨fun heq => ?_, hnew⟩⟩
  exact absurd (heq ▸ h) hnew

theorem newCall_succ_of_callee?_some {callee : String} (h : i.callee? = some callee) :
    NewCall seen ((f, i) :: code) (n + 1) site ↔
      NewCall (FiniteSet.insert seen i.id) code n site := by
  unfold NewCall
  rw [firstCall_succ_iff, FiniteSet.contains_insert, h, and_assoc, not_or]
  refine and_congr_right fun _ => and_congr_left fun _ => ⟨fun hfirst heq => ?_, fun hne heq => ?_⟩
  · -- the head is a call, so no later call with its identity is a first one
    cases hfirst heq.symm
  · exact absurd heq.symm hne

end

/-- The results are those that `P` gives to the numbers, one for each number that has any, in the
order of the numbers. -/
def Enumerates {β : Type} (P : Nat → β → Prop) (results : List β) : Prop :=
  ∃ positions : List Nat, positions.Pairwise (· < ·) ∧ (∀ n, n ∈ positions ↔ ∃ b, P n b) ∧
    List.Forall₂ P positions results

namespace Enumerates

variable {β : Type} {P Q : Nat → β → Prop} {b : β} {results : List β}

theorem congr (h : Enumerates P results) (hPQ : ∀ n b, P n b ↔ Q n b) : Enumerates Q results := by
  have heq : P = Q := funext fun n => funext fun b => propext (hPQ n b)
  exact heq ▸ h

theorem nil (h : ∀ n b, ¬ P n b) : Enumerates P [] :=
  ⟨[], .nil, by simpa using h, .nil⟩

/-- Nothing at the first number: all positions move by one. -/
theorem skip (hzero : ∀ b, ¬ P 0 b) (h : Enumerates (fun n => P (n + 1)) results) :
    Enumerates P results := by
  obtain ⟨positions, hpairwise, hmem, hforall⟩ := h
  refine ⟨positions.map (· + 1), ?_, fun n => ?_, ?_⟩
  · exact List.pairwise_map.2 (hpairwise.imp Nat.succ_lt_succ)
  · cases n with
    | zero => simp [hzero]
    | succ n => simp [hmem]
  · exact List.forall₂_map_left_iff.2 hforall

theorem cons (hzero : P 0 b) (h : Enumerates (fun n => P (n + 1)) results) :
    Enumerates P (b :: results) := by
  obtain ⟨positions, hpairwise, hmem, hforall⟩ := h
  refine ⟨0 :: positions.map (· + 1), ?_, fun n => ?_, ?_⟩
  · refine List.pairwise_cons.2 ⟨by simp, ?_⟩
    exact List.pairwise_map.2 (hpairwise.imp Nat.succ_lt_succ)
  · cases n with
    | zero => simpa using ⟨b, hzero⟩
    | succ n => simp [hmem]
  · exact .cons hzero (List.forall₂_map_left_iff.2 hforall)

end Enumerates

/-- **One walk over the code meets every first call once**, and in order, whatever is judged of the
calls. -/
theorem enumerates_firstCallSites {β : Type} (judge : CallSite → Option β)
    (seen : FiniteSet InstId) (code : List (Function × Instruction)) :
    Enumerates (fun n b => ∃ site, NewCall seen code n site ∧ judge site = some b)
      ((firstCallSites seen code).filterMap judge) := by
  induction code generalizing seen with
  | nil =>
    refine .nil ?_
    rintro n b ⟨site, ⟨⟨⟨f, i, hget, -⟩, -⟩, -⟩, -⟩
    cases hget
  | cons head code ih =>
    obtain ⟨f, i⟩ := head
    unfold firstCallSites
    cases hcallee : i.callee? with
    | none =>
      -- an instruction that calls nothing is skipped
      refine .skip ?_ ((ih seen).congr fun n b => ?_)
      · rintro b ⟨site, ⟨hfirst, -⟩, -⟩
        cases hcallee.symm.trans (firstCall_zero_iff.1 hfirst).1
      · simp only [newCall_succ_of_callee?_none hcallee]
    | some callee =>
      simp only
      -- a call is new unless its identity has been seen
      by_cases hseen : seen.contains i.id = true
      · rw [if_pos hseen]
        refine .skip ?_ ((ih seen).congr fun n b => ?_)
        · rintro b ⟨site, ⟨hfirst, hnew⟩, -⟩
          exact hnew ((firstCall_zero_iff.1 hfirst).2.1 ▸ hseen)
        · simp only [newCall_succ_of_seen hseen]
      · rw [if_neg hseen]
        -- from here on this identity has been seen
        have hrest : Enumerates (fun n b => ∃ site, NewCall seen ((f, i) :: code) (n + 1) site ∧
            judge site = some b)
            ((firstCallSites (FiniteSet.insert seen i.id) code).filterMap judge) :=
          (ih _).congr fun n b => by simp only [newCall_succ_of_callee?_some hcallee]
        cases hjudge : judge ⟨f.name, i.id, callee⟩ with
        | none =>
          rw [List.filterMap_cons_none hjudge]
          refine .skip ?_ hrest
          rintro b ⟨site, hnew, hb⟩
          rw [(newCall_zero_iff hcallee hseen).1 hnew, hjudge] at hb
          cases hb
        | some b =>
          rw [List.filterMap_cons_some hjudge]
          exact .cons ⟨_, (newCall_zero_iff hcallee hseen).2 rfl, hjudge⟩ hrest

/-! ## §4 Findings -/

/-- **The findings are the reportable first calls, in program order.** -/
theorem reconcile_positions (program : Program) (classifier : Classifier) (scope : Scope)
    (consuming factory : Table) :
    ∃ positions : List Nat, positions.Pairwise (· < ·) ∧
      (∀ n, n ∈ positions ↔ ∃ site, FirstCall program.instructions n site ∧
        Reportable classifier scope consuming factory site) ∧
      List.Forall₂ (fun n finding => ∃ site, FirstCall program.instructions n site ∧
          Describes classifier consuming factory site finding)
        positions (reconcile program classifier scope (.ofTables consuming factory)) := by
  -- the walk starts with nothing seen, so it meets all first calls
  obtain ⟨positions, hpairwise, hmem, hforall⟩ := enumerates_firstCallSites
    (findingAt? classifier scope (.ofTables consuming factory)) FiniteSet.empty program.instructions
  refine ⟨positions, hpairwise, fun n => ?_, hforall.imp ?_⟩
  · rw [hmem]
    simp only [← isSome_findingAt?_iff, Option.isSome_iff_exists]
    constructor
    · rintro ⟨finding, site, hnew, hfinding⟩
      exact ⟨site, hnew.1, finding, hfinding⟩
    · rintro ⟨site, hfirst, finding, hfinding⟩
      exact ⟨finding, site, hfirst.newCall_empty, hfinding⟩
  · rintro n finding ⟨site, hnew, hfinding⟩
    exact ⟨site, hnew.1, describes_of_findingAt? hfinding⟩

theorem reconcile_eq_nil {program : Program} {classifier : Classifier} {scope : Scope}
    {consuming factory : Table}
    (h : ∀ site, ¬ Reportable classifier scope consuming factory site) :
    reconcile program classifier scope (.ofTables consuming factory) = [] := by
  refine List.filterMap_eq_nil_iff.2 fun site _ => ?_
  rw [← Option.not_isSome_iff_eq_none, isSome_findingAt?_iff]
  exact h site

/-- Nothing is reported at an instruction without cells. -/
theorem findingAt?_eq_none {classifier : Classifier} {scope : Scope} {site : CallSite}
    {consuming factory : Table} (hconsuming : ∀ v, consuming.get? site.instruction v = none)
    (hfactory : ∀ v, factory.get? site.instruction v = none) :
    findingAt? classifier scope (.ofTables consuming factory) site = none := by
  rw [← Option.not_isSome_iff_eq_none, isSome_findingAt?_iff]
  rintro ⟨-, ⟨v, s, hcontributes, -⟩, -⟩
  rcases hcontributes with ⟨hcell, -⟩ | ⟨hcell, -⟩
  · rw [hconsuming] at hcell
    cases hcell
  · rw [hfactory] at hcell
    cases hcell

/-! ## §5 Analyses -/

namespace Settings

/-- The table of a program in one mode under the settings. -/
def solve (s : Settings) (program : Program) (mode : Mode) : Except SolveError Table :=
  Typestate.solve program ⟨s.classifier program, s.run.coverage, mode⟩ s.run.maxIterations
    s.run.entryPoints

/-- What an analysis says once both tables are known. -/
def report (s : Settings) (program : Program) (consuming factory : Table) : Analysis where
  unfiltered := ⟨.ofTable .consuming consuming, .ofTable .factory factory⟩
  runs := .ofTables consuming factory
  findings := reconcile program (s.classifier program) s.scope (.ofTables consuming factory)

/-- An analysis solves both modes, the consuming one first, and reports on the two tables. -/
theorem analyze_eq (s : Settings) (program : Program) :
    s.analyze program =
      if s.run.entryPoints.isEmpty then .error (.config "no entry points to analyze")
      else (s.solve program .consuming).mapError (Error.solver .consuming) >>= fun consuming =>
        (s.solve program .factory).mapError (Error.solver .factory) >>= fun factory =>
          pure (s.report program consuming factory) := by
  -- a run is a solve, wrapped up with its states or with the mode of its error
  have hrun : ∀ mode, (s.executor program).run mode =
      ((s.solve program mode).mapError (Error.solver mode)).map (Run.ofTable mode) := by
    intro mode
    have hsolver : (s.executor program).solver (s.executor program).program
        ((s.executor program).model mode) (s.executor program).settings.entryPoints =
          s.solve program mode := rfl
    unfold Executor.run
    rw [hsolver]
    cases s.solve program mode <;> rfl
  unfold analyze Executor.runPair
  rw [hrun, hrun]
  cases s.solve program .consuming with
  | error cause => rfl
  | ok consuming => cases s.solve program .factory <;> rfl

theorem exists_of_analyze {s : Settings} {program : Program} {a : Analysis}
    (h : s.analyze program = .ok a) :
    ∃ consuming factory, s.solve program .consuming = .ok consuming ∧
      s.solve program .factory = .ok factory ∧ a = s.report program consuming factory := by
  rw [analyze_eq] at h
  split at h
  · cases h
  · cases hconsuming : s.solve program .consuming with
    | error cause =>
      rw [hconsuming] at h
      cases h
    | ok consuming =>
      cases hfactory : s.solve program .factory with
      | error cause =>
        rw [hconsuming, hfactory] at h
        cases h
      | ok factory =>
        rw [hconsuming, hfactory] at h
        cases h
        exact ⟨consuming, factory, rfl, rfl, rfl⟩

end Settings

end Typestate
