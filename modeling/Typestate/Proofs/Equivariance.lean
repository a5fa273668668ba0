import Typestate.Proofs.Reconciliation
import Typestate.Proofs.Simulation

/-!
# Analysis does not see identities

Renaming the values and the instructions of a program, and giving the new values any names for a
reader, renames what an analysis of it says and changes nothing else. Each stage commutes with a
renaming on its own: the check, the solver, the runs and their filter, the reconciliation. Maps keyed
by identities are listed in another order afterwards, so every stage that lists one has to be
insensitive to the order.

## Contents

- §1 The check
- §2 Runs
- §3 Findings
- §4 Analyses
-/

namespace Typestate

variable (ρ : Renaming) (names : FiniteMap ValueId String)

/-! ## §1 The check -/

/-- What a check over renamed code gives: the renamed identities seen, or the renamed defect. -/
def renameSeen (r : Except SolveError (FiniteSet InstId)) : Except SolveError (FiniteSet InstId) :=
  (r.map (FiniteMap.mapKeys ρ.inst)).mapError (SolveError.rename ρ)

/-- What follows a stage of the check commutes with the renaming when the stage does. -/
theorem bind_renameSeen {r : Except SolveError (FiniteSet InstId)}
    {f f' : FiniteSet InstId → Except SolveError (FiniteSet InstId)}
    (h : ∀ seen, f' (FiniteMap.mapKeys ρ.inst seen) = renameSeen ρ (f seen)) :
    (renameSeen ρ r >>= f') = renameSeen ρ (r >>= f) := by
  cases r with
  | error e => rfl
  | ok seen => exact h seen

theorem contains_mapKeys_inst (seen : FiniteSet InstId) (i : InstId) :
    FiniteMap.contains (FiniteMap.mapKeys ρ.inst seen) (ρ.inst i) = seen.contains i :=
  congrArg Option.isSome (FiniteMap.get?_mapKeys ρ.inst_injective seen i)

theorem insert_mapKeys_inst (seen : FiniteSet InstId) (i : InstId) :
    FiniteSet.insert (FiniteMap.mapKeys ρ.inst seen) (ρ.inst i) =
      FiniteMap.mapKeys ρ.inst (FiniteSet.insert seen i) :=
  FiniteMap.mapKeys_insert ρ.inst_injective seen i ()

namespace Program

/-- An entry point is checked by its name and by whether there are blocks under it. -/
theorem checkEntry_rename (p : Program) (entry : String) :
    (p.rename ρ names).checkEntry entry =
      (p.checkEntry entry).mapError (SolveError.rename ρ) := by
  have hcandidates : (p.rename ρ names).functions.filter (fun f => f.name == entry) =
      (p.functions.filter fun f => f.name == entry).map (Function.rename ρ) := List.filter_map
  unfold checkEntry
  rw [hcandidates]
  cases p.functions.filter fun f => f.name == entry with
  | nil => rfl
  | cons f fs =>
    simp only [List.map_cons, List.any_cons, List.any_map, Function.comp_def,
      Function.hasBody_rename]
    -- whether one of the candidates has a body is asked of the same candidates
    by_cases hbody : (f.hasBody || fs.any fun f => f.hasBody) = true
    · simp only [hbody, if_true]
      rfl
    · simp only [hbody]
      rfl

theorem checkEntries_rename (p : Program) (entries : List String) :
    (p.rename ρ names).checkEntries entries =
      (p.checkEntries entries).mapError (SolveError.rename ρ) := by
  induction entries with
  | nil => rfl
  | cons e rest ih =>
    simp only [checkEntries, checkEntry_rename, ih]
    cases p.checkEntry e <;> rfl

/-- An identity is repeated in the renamed code exactly where it is repeated in the old. -/
theorem checkIdentities_rename (seen : FiniteSet InstId) (is : List Instruction) :
    checkIdentities (FiniteMap.mapKeys ρ.inst seen) (is.map (Instruction.rename ρ)) =
      renameSeen ρ (checkIdentities seen is) := by
  induction is generalizing seen with
  | nil => rfl
  | cons i rest ih =>
    simp only [List.map_cons, checkIdentities, Instruction.rename, contains_mapKeys_inst,
      insert_mapKeys_inst]
    split
    · rfl
    · exact ih _

/-- The other checks of a block look at its successors and at its last operation. -/
theorem checkBlock_rename (f : Function) (seen : FiniteSet InstId) (index : Nat) (b : Block) :
    checkBlock (f.rename ρ) (FiniteMap.mapKeys ρ.inst seen) index (b.rename ρ) =
      renameSeen ρ (checkBlock f seen index b) := by
  -- neither the return at the end nor the number of blocks depends on identities
  have hlast : ((b.instructions.map (Instruction.rename ρ)).getLast?.any (·.isReturn)) =
      b.instructions.getLast?.any (·.isReturn) := by
    rw [List.getLast?_map, Option.any_map]
    simp
  have hlength : (f.rename ρ).blocks.length = f.blocks.length := List.length_map _
  unfold checkBlock
  simp only [Block.rename, hlast, hlength, checkIdentities_rename, Function.name_rename]
  split
  · rfl
  · split <;> rfl

theorem checkBlocks_rename (f : Function) (seen : FiniteSet InstId) (index : Nat) (bs : List Block) :
    checkBlocks (f.rename ρ) (FiniteMap.mapKeys ρ.inst seen) index (bs.map (Block.rename ρ)) =
      renameSeen ρ (checkBlocks f seen index bs) := by
  induction bs generalizing seen index with
  | nil => rfl
  | cons b rest ih =>
    simp only [List.map_cons, checkBlocks, checkBlock_rename]
    exact bind_renameSeen ρ fun seen => ih seen (index + 1)

theorem checkFunctions_rename (seen : FiniteSet InstId) (fs : List Function) :
    checkFunctions (FiniteMap.mapKeys ρ.inst seen) (fs.map (Function.rename ρ)) =
      renameSeen ρ (checkFunctions seen fs) := by
  induction fs generalizing seen with
  | nil => rfl
  | cons f rest ih =>
    simp only [List.map_cons, checkFunctions]
    have hblocks := checkBlocks_rename ρ f seen 0 f.blocks
    show (checkBlocks (f.rename ρ) _ 0 (f.blocks.map (Block.rename ρ)) >>= _) = _
    rw [hblocks]
    exact bind_renameSeen ρ ih

/-- **The check finds the same defect**, with the identity in it renamed. -/
theorem validate_rename (p : Program) (entries : List String) :
    (p.rename ρ names).validate entries =
      (p.validate entries).mapError (SolveError.rename ρ) := by
  have hfunctions : checkFunctions FiniteSet.empty (p.rename ρ names).functions =
      renameSeen ρ (checkFunctions FiniteSet.empty p.functions) :=
    checkFunctions_rename ρ FiniteSet.empty p.functions
  unfold validate
  rw [checkEntries_rename, hfunctions]
  cases p.checkEntries entries with
  | error e => rfl
  | ok u => cases checkFunctions FiniteSet.empty p.functions <;> rfl

end Program

/-! ## §2 Runs -/

def Run.rename (r : Run) : Run := ⟨r.mode, r.table.rename ρ, r.states.mapKeys ρ.value⟩

def RunPair.rename (p : RunPair) : RunPair := ⟨p.consuming.rename ρ, p.factory.rename ρ⟩

/-- The renamed state sets group the same states by the renamed values. -/
theorem StateSets.Groups.mapKeys {sets : StateSets} {R : ValueId → State → Prop}
    (h : sets.Groups R) :
    StateSets.Groups (FiniteMap.mapKeys ρ.value sets) fun w s => ∃ v, ρ.value v = w ∧ R v s := by
  constructor
  · intro w
    -- values that are not new names are in no group
    by_cases hw : ∃ v, ρ.value v = w
    · obtain ⟨v, rfl⟩ := hw
      rw [FiniteMap.get?_mapKeys ρ.value_injective, h.bound]
      simp [ρ.value_injective.eq_iff]
    · have hnone : ∀ v, ρ.value v ≠ w := fun v hv => hw ⟨v, hv⟩
      rw [FiniteMap.get?_mapKeys_of_ne hnone]
      simp [hnone]
  · intro w set hset s
    by_cases hw : ∃ v, ρ.value v = w
    · obtain ⟨v, rfl⟩ := hw
      rw [FiniteMap.get?_mapKeys ρ.value_injective] at hset
      rw [h.states v set hset]
      simp [ρ.value_injective.eq_iff]
    · rw [FiniteMap.get?_mapKeys_of_ne fun v hv => hw ⟨v, hv⟩] at hset
      cases hset

namespace Table

/-- Every cell of a renamed table is a renamed cell. -/
theorem get?_rename_eq_some_iff {t : Table} {j : InstId} {w : ValueId} {s : State} :
    (t.rename ρ).get? j w = some s ↔
      ∃ i v, ρ.inst i = j ∧ ρ.value v = w ∧ t.get? i v = some s := by
  constructor
  · intro h
    by_contra hnone
    rw [get?_rename_of_ne ρ ?_ t] at h
    · cases h
    · rintro i v rfl rfl
      rw [get?_rename] at h
      exact hnone ⟨i, v, rfl, rfl, h⟩
  · rintro ⟨i, v, rfl, rfl, h⟩
    rw [get?_rename]
    exact h

/-- What a renamed table shows of a value it showed of the value with the old name. -/
theorem shows_rename_iff {t : Table} {w : ValueId} {s : State} :
    (t.rename ρ).Shows w s ↔ ∃ v, ρ.value v = w ∧ t.Shows v s := by
  simp only [Shows, get?_rename_eq_some_iff]
  constructor
  · rintro ⟨-, i, v, -, hv, h⟩
    exact ⟨v, hv, i, h⟩
  · rintro ⟨v, hv, i, h⟩
    exact ⟨_, i, v, rfl, hv, h⟩

theorem shows_rename {t : Table} {v : ValueId} {s : State} :
    (t.rename ρ).Shows (ρ.value v) s ↔ t.Shows v s := by
  simp [shows_rename_iff, ρ.value_injective.eq_iff]

/-- State sets are determined by what they group, so the order of the cells plays no part. -/
theorem stateSets_rename (t : Table) :
    (t.rename ρ).stateSets = FiniteMap.mapKeys ρ.value t.stateSets := by
  refine (t.rename ρ).groups_stateSets.unique ((t.groups_stateSets.mapKeys ρ).congr fun w s => ?_)
  rw [shows_rename_iff]

end Table

namespace Run

theorem ofTable_rename (mode : Mode) (t : Table) :
    ofTable mode (t.rename ρ) = (ofTable mode t).rename ρ := by
  unfold ofTable rename
  rw [Table.stateSets_rename]

/-- The filter keeps a value for its states, not for its name. -/
theorem filter_rename (r : Run) : (r.rename ρ).filter = r.filter.rename ρ := by
  have hstates : FiniteMap.filter (fun _ set => !isNoise set) (r.states.mapKeys ρ.value) =
      (FiniteMap.filter (fun _ set => !isNoise set) r.states).mapKeys ρ.value :=
    FiniteMap.mapKeys_filter ρ.value_injective (fun _ _ => rfl) r.states
  unfold filter rename
  simp only [hstates]
  congr 1
  -- a cell is kept with its value, so by what was just kept
  refine congrArg Table.mk (FiniteMap.mapKeys_filter (Cell.rename_injective ρ) ?_ r.table.states)
  intro c _
  exact congrArg Option.isSome (FiniteMap.get?_mapKeys ρ.value_injective _ c.value)

end Run

/-! ## §3 Findings -/

def Finding.rename (f : Finding) : Finding :=
  { f with
    instruction := ρ.inst f.instruction
    values := f.values.mapKeys ρ.value }

def CallSite.rename (site : CallSite) : CallSite :=
  { site with instruction := ρ.inst site.instruction }

/-- A call is the first with its identity in the renamed code exactly if it is in the old. -/
theorem firstCallSites_rename (seen : FiniteSet InstId) (code : List (Function × Instruction)) :
    firstCallSites (FiniteMap.mapKeys ρ.inst seen)
        (code.map (Prod.map (Function.rename ρ) (Instruction.rename ρ))) =
      (firstCallSites seen code).map (CallSite.rename ρ) := by
  induction code generalizing seen with
  | nil => rfl
  | cons head code ih =>
    obtain ⟨f, i⟩ := head
    simp only [List.map_cons, Prod.map_apply, firstCallSites, Instruction.callee?_rename]
    cases i.callee? with
    | none => exact ih seen
    | some callee =>
      simp only [Instruction.rename, contains_mapKeys_inst, insert_mapKeys_inst]
      split
      · exact ih seen
      · exact congrArg _ (ih _)

theorem Program.callSites_rename (p : Program) :
    (p.rename ρ names).callSites = p.callSites.map (CallSite.rename ρ) := by
  have hcode : (p.rename ρ names).instructions =
      p.instructions.map (Prod.map (Function.rename ρ) (Instruction.rename ρ)) := by
    simp [instructions, rename, Function.instructions_rename, List.flatMap_map, List.map_flatMap,
      Function.comp_def]
  unfold callSites
  rw [hcode, ← firstCallSites_rename]
  rfl

theorem Table.errs_rename {t : Table} {v : ValueId} :
    (t.rename ρ).Errs (ρ.value v) ↔ t.Errs v := by
  simp only [Errs, shows_rename]

theorem Table.wraps_rename {t : Table} {v : ValueId} :
    (t.rename ρ).Wraps (ρ.value v) ↔ t.Wraps v := by
  simp only [Wraps, shows_rename]

section
variable (consuming factory : Table)

/-- The contributing values are the renamed ones, with the states that they had. -/
theorem contributes_rename {i : InstId} {w : ValueId} {s : State} :
    Contributes (consuming.rename ρ) (factory.rename ρ) (ρ.inst i) w s ↔
      ∃ v, ρ.value v = w ∧ Contributes consuming factory i v s := by
  constructor
  · rintro (⟨hcell, herrs⟩ | ⟨hcell, hwraps⟩)
    · -- a cell of a renamed table is a renamed cell, here one at the same instruction
      obtain ⟨j, v, hj, rfl, hold⟩ := (Table.get?_rename_eq_some_iff ρ).1 hcell
      obtain rfl := ρ.inst_injective hj
      exact ⟨v, rfl, Or.inl ⟨hold, (Table.errs_rename ρ).1 herrs⟩⟩
    · obtain ⟨j, v, hj, rfl, hold⟩ := (Table.get?_rename_eq_some_iff ρ).1 hcell
      obtain rfl := ρ.inst_injective hj
      exact ⟨v, rfl, Or.inr ⟨hold, (Table.wraps_rename ρ).1 hwraps⟩⟩
  · rintro ⟨v, rfl, ⟨hcell, herrs⟩ | ⟨hcell, hwraps⟩⟩
    · exact Or.inl ⟨(Table.get?_rename ρ ..).trans hcell, (Table.errs_rename ρ).2 herrs⟩
    · exact Or.inr ⟨(Table.get?_rename ρ ..).trans hcell, (Table.wraps_rename ρ).2 hwraps⟩

theorem contributions_rename (i : InstId) :
    contributions (.ofTables (consuming.rename ρ) (factory.rename ρ)) (ρ.inst i) =
      (contributions (.ofTables consuming factory) i).mapKeys ρ.value := by
  refine (groups_contributions _ _ _).unique
    (((groups_contributions consuming factory i).mapKeys ρ).congr fun w s => ?_)
  rw [contributes_rename]

end

/-- Renamed keys are bound to the same values, if in another order. -/
theorem mem_values_mapKeys {sets : StateSets} {set : FiniteSet State} :
    set ∈ (sets.mapKeys ρ.value).values ↔ set ∈ sets.values := by
  rw [FiniteMap.mem_values_iff, FiniteMap.mem_values_iff]
  constructor
  · rintro ⟨w, hw⟩
    by_cases hv : ∃ v, ρ.value v = w
    · obtain ⟨v, rfl⟩ := hv
      exact ⟨v, (FiniteMap.get?_mapKeys ρ.value_injective sets v) ▸ hw⟩
    · rw [FiniteMap.get?_mapKeys_of_ne fun v h => hv ⟨v, h⟩] at hw
      cases hw
  · rintro ⟨v, hv⟩
    exact ⟨ρ.value v, (FiniteMap.get?_mapKeys ρ.value_injective sets v).trans hv⟩

/-- The kinds are a set, which does not see the order of the values. -/
theorem errorKinds_mapKeys (sets : StateSets) :
    errorKinds (sets.mapKeys ρ.value) = errorKinds sets := by
  apply FiniteSet.ext_contains
  intro kind
  unfold errorKinds
  simp only [FiniteSet.contains_ofList, List.mem_flatMap, mem_values_mapKeys]

/-- A call site is reported after the renaming exactly if it was before, with the same kinds. -/
theorem findingAt?_rename (classifier : Classifier) (scope : Scope) (consuming factory : Table)
    (site : CallSite) :
    findingAt? classifier scope (.ofTables (consuming.rename ρ) (factory.rename ρ)) (site.rename ρ) =
      (findingAt? classifier scope (.ofTables consuming factory) site).map (Finding.rename ρ) := by
  -- whether a value is rewrapped is asked of all of them, in any order
  have hany : ((contributions (.ofTables consuming factory) site.instruction).mapKeys
      ρ.value).values.any (FiniteMap.contains · State.rawWrapped) =
        (contributions (.ofTables consuming factory) site.instruction).values.any
          (FiniteMap.contains · State.rawWrapped) := by
    rw [Bool.eq_iff_iff]
    simp only [List.any_eq_true, mem_values_mapKeys]
  unfold findingAt?
  simp only [CallSite.rename, contributions_rename, errorKinds_mapKeys, hany]
  split
  · split <;> rfl
  · rfl

/-- Findings follow the order of the code, and that is kept. -/
theorem reconcile_rename (p : Program) (classifier : Classifier) (scope : Scope)
    (consuming factory : Table) :
    reconcile (p.rename ρ names) classifier scope
        (.ofTables (consuming.rename ρ) (factory.rename ρ)) =
      (reconcile p classifier scope (.ofTables consuming factory)).map (Finding.rename ρ) := by
  unfold reconcile
  rw [Program.callSites_rename, List.filterMap_map, List.map_filterMap]
  congr 1
  funext site
  exact findingAt?_rename ρ classifier scope consuming factory site

/-! ## §4 Analyses -/

def Error.rename : Error → Error
  | .solver mode cause => .solver mode (cause.rename ρ)
  | e => e

def Analysis.rename (a : Analysis) : Analysis :=
  ⟨a.unfiltered.rename ρ, a.runs.rename ρ, a.findings.map (Finding.rename ρ)⟩

/-- Declarations count parameters and do not name them. -/
theorem Settings.classifier_rename (s : Settings) (p : Program) :
    s.classifier (p.rename ρ names) = s.classifier p := by
  have hadd : ∀ (d : Declarations) (f : Function), d.add (f.rename ρ) = d.add f := by
    intro d f
    simp [Declarations.add, Function.declaration, Function.rename, Function.hasBody]
  have hindex : Declarations.ofProgram (p.rename ρ names) = .ofProgram p := by
    unfold Declarations.ofProgram Program.rename
    simp only [List.foldl_map, hadd]
  unfold classifier
  rw [hindex]

/-- A solver cannot tell a program from the renamed one. -/
theorem mirrors_rename (p : Program) (model : CallModel) :
    Mirrors ρ (fun _ => True) p model (p.rename ρ names) model where
  body := fun n _ => Program.body?_rename ρ names p n
  callees := fun _ _ => trivial
  calls := fun _ _ _ => rfl

namespace Settings

theorem solve_rename (s : Settings) (p : Program) (mode : Mode) :
    s.solve (p.rename ρ names) mode =
      ((s.solve p mode).map (Table.rename ρ)).mapError (SolveError.rename ρ) := by
  unfold solve
  rw [classifier_rename]
  exact (mirrors_rename ρ names p _).solve (fun _ _ => trivial)
    (Program.validate_rename ρ names p s.run.entryPoints) s.run.maxIterations

theorem report_rename (s : Settings) (p : Program) (consuming factory : Table) :
    s.report (p.rename ρ names) (consuming.rename ρ) (factory.rename ρ) =
      (s.report p consuming factory).rename ρ := by
  unfold report Analysis.rename
  rw [classifier_rename, reconcile_rename]
  simp only [RunPair.ofTables, RunPair.filter, RunPair.rename, Run.ofTable_rename,
    Run.filter_rename]

/-- **Analysis respects identities only.** Renaming values and instructions, whatever the new names of
the values, renames the outcome: the identity in the error if there is one, and otherwise cells, state
sets and findings; everything else stays as it was. -/
theorem analyze_rename (s : Settings) (p : Program) :
    s.analyze (p.rename ρ names) =
      ((s.analyze p).map (Analysis.rename ρ)).mapError (Error.rename ρ) := by
  rw [analyze_eq, analyze_eq, solve_rename, solve_rename]
  split
  · rfl
  · -- the first run that fails decides the error
    cases s.solve p .consuming with
    | error cause => rfl
    | ok consuming =>
      cases s.solve p .factory with
      | error cause => rfl
      | ok factory => exact congrArg Except.ok (report_rename ρ names s p consuming factory)

end Settings

end Typestate
