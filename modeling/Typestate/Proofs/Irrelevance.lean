import Typestate.Proofs.Roles

/-!
# Code that is never called

A function whose name no chain of calls from the entry points leads to can be taken out of a program
without any effect on its analysis. Nothing that remains can name it: look-ups of the remaining names
give what they gave before, so both solvers go through the same states. The reconciliation alone walks
over all code, and at instructions that were never reached there is no cell to report on.

## Contents

- §1 Names that calls lead to
- §2 Look-ups in the remaining code
- §3 The check of the remaining code
- §4 Findings in the remaining code
- §5 Analyses
-/

namespace Typestate

/-! ## §1 Callable names -/

namespace Program

/-- The names that calls lead to from the entry points. Several functions may share a name, and all of
them count as callers, not only the one that is entered. -/
inductive Callable (program : Program) (entries : List String) : String → Prop where
  | entry {name : String} : name ∈ entries → Callable program entries name
  | call {f : Function} {i : Instruction} {callee : String} :
      Callable program entries f.name → f ∈ program.functions → i ∈ f.instructions →
      callee ∈ i.callee? → Callable program entries callee

/-- The names include the entry points, and no function with one of them calls anything else. -/
structure CallClosed (program : Program) (entries : List String) (keep : String → Bool) : Prop where
  entries : ∀ name ∈ entries, keep name = true
  calls : ∀ f ∈ program.functions, keep f.name = true → ∀ i ∈ f.instructions, ∀ callee ∈ i.callee?,
    keep callee = true

/-- The program with only the functions of the given names. -/
def restrict (program : Program) (keep : String → Bool) : Program :=
  { program with functions := program.functions.filter fun f => keep f.name }

variable {program : Program} {entries : List String} {keep : String → Bool}

theorem callClosed_of_callable
    (h : ∀ name, keep name = true ↔ program.Callable entries name) :
    program.CallClosed entries keep where
  entries := fun name hname => (h name).2 (.entry hname)
  calls := fun f hf hkeep _ hi callee hcallee =>
    (h callee).2 (.call ((h f.name).1 hkeep) hf hi hcallee)

/-- The callable names are the least that are closed under calls. -/
theorem CallClosed.keep_of_callable (h : program.CallClosed entries keep) {name : String}
    (hname : program.Callable entries name) : keep name = true := by
  induction hname with
  | entry hname => exact h.entries _ hname
  | call _ hf hi hcallee ih => exact h.calls _ hf ih _ hi _ hcallee

theorem CallClosed.keep_of_reached (h : program.CallClosed entries keep) {f : Function} {k : Nat}
    (hreached : Reached program entries f k) : keep f.name = true := by
  induction hreached with
  | entry hname hbody =>
    rw [name_of_body? hbody]
    exact h.entries _ hname
  | jump _ _ _ ih => exact ih
  | enter hcaller hb hi he ih =>
    have hinstruction := List.mem_flatMap.2 ⟨_, List.mem_of_getElem? hb, hi⟩
    exact h.calls _ (mem_of_body? hcaller.body) ih _ hinstruction _ (callee?_of_entering he)

end Program

/-! ## §2 Look-ups -/

section
variable {program : Program} {entries : List String} {keep : String → Bool} {name : String}

theorem keep_of_beq (hname : keep name = true) {f : Function} (h : (f.name == name) = true) :
    keep f.name = true := (beq_iff_eq.1 h) ▸ hname

theorem Program.body?_restrict (hname : keep name = true) :
    (program.restrict keep).body? name = program.body? name := by
  unfold body? restrict
  rw [List.find?_filter]
  congr 1
  funext f
  rw [Bool.eq_iff_iff, decide_eq_true_iff, and_iff_right_iff_imp]
  exact fun h => keep_of_beq hname (Bool.and_eq_true_iff.1 h).1

namespace Declarations

theorem resolve?_add_congr {d d' : Declarations} (h : d.resolve? name = d'.resolve? name)
    (f : Function) : (d.add f).resolve? name = (d'.add f).resolve? name := by
  rw [resolve?_add, resolve?_add, h]

theorem resolve?_add_of_ne {d : Declarations} {f : Function} (h : name ≠ f.name) :
    (d.add f).resolve? name = d.resolve? name := by
  rw [resolve?_add, if_neg h]

/-- The index says the same about a kept name. -/
theorem resolve?_restrict (program : Program) (hname : keep name = true) :
    (ofProgram (program.restrict keep)).resolve? name = (ofProgram program).resolve? name := by
  -- dropped functions have other names, so they never touch the declaration of this one
  have hfold : ∀ (fs : List Function) {d d' : Declarations}, d.resolve? name = d'.resolve? name →
      ((fs.filter fun f => keep f.name).foldl add d).resolve? name =
        (fs.foldl add d').resolve? name := by
    intro fs
    induction fs with
    | nil => exact id
    | cons f fs ih =>
      intro d d' h
      cases hf : keep f.name with
      | true =>
        rw [List.filter_cons, if_pos hf]
        exact ih (resolve?_add_congr h f)
      | false =>
        have hdropped : ¬ keep f.name = true := by simp [hf]
        have hne : name ≠ f.name := fun heq => hdropped (heq ▸ hname)
        rw [List.filter_cons, if_neg hdropped]
        exact ih (h.trans (resolve?_add_of_ne hne).symm)
  exact hfold program.functions rfl

end Declarations

theorem Settings.classify_restrict (s : Settings) (program : Program) (hname : keep name = true)
    (mode : Mode) : (s.classifier (program.restrict keep)).classify mode name =
      (s.classifier program).classify mode name := by
  have hresolve := Declarations.resolve?_restrict program hname
  unfold classifier Classifier.classify
  simp only [hresolve]

theorem mirrors_restrict (h : program.CallClosed entries keep) (s : Settings) (mode : Mode) :
    Mirrors .identity (keep · = true) program ⟨s.classifier program, s.run.coverage, mode⟩
      (program.restrict keep) ⟨s.classifier (program.restrict keep), s.run.coverage, mode⟩ := by
  have hcallees : ∀ callee, program.CalledFrom (keep · = true) callee → keep callee = true := by
    rintro callee ⟨f, i, hkeep, hbody, hi, hcallee⟩
    exact h.calls f (Program.mem_of_body? hbody) hkeep i hi callee hcallee
  refine .of_body_eq (fun _ hname => Program.body?_restrict hname) hcallees fun callee hcalled _ => ?_
  have hinfo := s.classify_restrict program (hcallees callee hcalled) mode
  refine CallModel.apply_congr rfl hinfo (funext fun state => ?_)
  exact congrArg (fun info => info.token.step mode state) hinfo

end

/-! ## §3 The check -/

namespace Program

/-- All identities in the first set are in the second. -/
def FewerSeen (seen' seen : FiniteSet InstId) : Prop :=
  ∀ x, seen'.contains x = true → seen.contains x = true

/-- The check succeeds, having seen no more than in `seen`. -/
def SeesAtMost (r : Except SolveError (FiniteSet InstId)) (seen : FiniteSet InstId) : Prop :=
  ∃ seen', r = .ok seen' ∧ FewerSeen seen' seen

variable {seen seen' final : FiniteSet InstId} (hfewer : FewerSeen seen' seen)
include hfewer

/-- Where fewer identities have been seen, the check of code that passed does not fail. -/
theorem checkIdentities_of_fewer {is : List Instruction}
    (h : checkIdentities seen is = .ok final) : SeesAtMost (checkIdentities seen' is) final := by
  induction is generalizing seen seen' with
  | nil =>
    cases h
    exact ⟨seen', rfl, hfewer⟩
  | cons i is ih =>
    unfold checkIdentities at h ⊢
    split at h
    · cases h
    · next hnew =>
      rw [if_neg fun hold => hnew (hfewer i.id hold)]
      refine ih (fun x hx => ?_) h
      rw [FiniteSet.contains_insert] at hx ⊢
      exact hx.imp_right (hfewer x)

theorem checkBlock_of_fewer {f : Function} {k : Nat} {b : Block}
    (h : checkBlock f seen k b = .ok final) : SeesAtMost (checkBlock f seen' k b) final := by
  unfold checkBlock at h ⊢
  split at h
  · cases h
  · split at h
    · cases h
    · next hreturns =>
      rw [if_neg hreturns]
      exact checkIdentities_of_fewer hfewer h

theorem checkBlocks_of_fewer {f : Function} {k : Nat} {bs : List Block}
    (h : checkBlocks f seen k bs = .ok final) : SeesAtMost (checkBlocks f seen' k bs) final := by
  induction bs generalizing seen seen' k with
  | nil =>
    cases h
    exact ⟨seen', rfl, hfewer⟩
  | cons b bs ih =>
    obtain ⟨mid, hblock, hrest⟩ := exists_of_bind_eq_ok h
    obtain ⟨mid', hblock', hmid⟩ := checkBlock_of_fewer hfewer hblock
    unfold checkBlocks
    rw [hblock']
    exact ih hmid hrest

/-- Functions that are left out would only have added identities. -/
theorem checkFunctions_filter (p : Function → Bool) {fs : List Function}
    (h : checkFunctions seen fs = .ok final) :
    SeesAtMost (checkFunctions seen' (fs.filter p)) final := by
  induction fs generalizing seen seen' with
  | nil =>
    cases h
    exact ⟨seen', rfl, hfewer⟩
  | cons f fs ih =>
    obtain ⟨mid, hblocks, hrest⟩ := exists_of_bind_eq_ok h
    cases hf : p f with
    | true =>
      obtain ⟨mid', hblocks', hmid⟩ := checkBlocks_of_fewer hfewer hblocks
      rw [List.filter_cons_of_pos hf]
      unfold checkFunctions
      rw [hblocks']
      exact ih hmid hrest
    | false =>
      -- the identities of a dropped function are only missing
      have hadds := (of_checkBlocks hblocks).2
      rw [List.filter_cons_of_neg (by simp [hf])]
      exact ih (fun x hx => (hadds.contains x).2 (Or.inl (hfewer x hx))) hrest

end Program

namespace Program

variable {program : Program} {entries : List String} {keep : String → Bool}

theorem checkEntry_restrict {name : String} (hname : keep name = true) :
    (program.restrict keep).checkEntry name = program.checkEntry name := by
  have hcandidates : (program.restrict keep).functions.filter (fun f => f.name == name) =
      program.functions.filter fun f => f.name == name := by
    unfold restrict
    simp only [List.filter_filter]
    refine List.filter_congr fun f _ => ?_
    rw [Bool.eq_iff_iff, Bool.and_eq_true, and_iff_left_iff_imp]
    exact keep_of_beq hname
  unfold checkEntry
  rw [hcandidates]

theorem checkEntries_restrict (h : ∀ name ∈ entries, keep name = true) :
    (program.restrict keep).checkEntries entries = program.checkEntries entries := by
  induction entries with
  | nil => rfl
  | cons name entries ih =>
    unfold checkEntries
    rw [checkEntry_restrict (h name (List.mem_cons_self ..)),
      ih fun n hn => h n (List.mem_cons_of_mem _ hn)]

theorem validate_restrict (hclosed : program.CallClosed entries keep)
    (h : program.validate entries = .ok ()) :
    (program.restrict keep).validate entries = .ok () := by
  obtain ⟨_, hentries, hrest⟩ := exists_of_bind_eq_ok h
  obtain ⟨final, hfunctions, -⟩ := exists_of_bind_eq_ok hrest
  obtain ⟨final', hfunctions', -⟩ :=
    checkFunctions_filter (fun _ hx => hx) (fun f => keep f.name) hfunctions
  unfold validate
  rw [checkEntries_restrict hclosed.entries, hentries]
  show (checkFunctions FiniteSet.empty (program.functions.filter _) >>= _) = _
  rw [hfunctions']
  rfl

end Program

/-! ## §4 Findings -/

/-- The site of an instruction in its function, if it is a call. -/
def CallSite.of? (p : Function × Instruction) : Option CallSite :=
  p.2.callee?.map fun callee => ⟨p.1.name, p.2.id, callee⟩

theorem CallSite.of?_of_none {f : Function} {i : Instruction} (h : i.callee? = none) :
    of? (f, i) = none := by simp [of?, h]

theorem CallSite.of?_of_some {f : Function} {i : Instruction} {callee : String}
    (h : i.callee? = some callee) : of? (f, i) = some ⟨f.name, i.id, callee⟩ := by simp [of?, h]

/-- Where no identity occurs twice, every call is a first call. -/
theorem firstCallSites_of_nodup {seen : FiniteSet InstId} {code : List (Function × Instruction)}
    (hnodup : (code.map (·.2.id)).Nodup) (hnew : ∀ p ∈ code, ¬ seen.contains p.2.id = true) :
    firstCallSites seen code = code.filterMap CallSite.of? := by
  induction code generalizing seen with
  | nil => rfl
  | cons p code ih =>
    obtain ⟨f, i⟩ := p
    obtain ⟨hhead, hrest⟩ := List.nodup_cons.1 hnodup
    have hnew' : ∀ p ∈ code, ¬ seen.contains p.2.id = true :=
      fun p hp => hnew p (List.mem_cons_of_mem _ hp)
    unfold firstCallSites
    cases hcallee : i.callee? with
    | none =>
      rw [List.filterMap_cons_none (CallSite.of?_of_none hcallee)]
      exact ih hrest hnew'
    | some callee =>
      rw [List.filterMap_cons_some (CallSite.of?_of_some hcallee)]
      simp only
      rw [if_neg (hnew (f, i) (List.mem_cons_self ..))]
      refine congrArg _ (ih hrest fun p hp hseen => ?_)
      rw [FiniteSet.contains_insert] at hseen
      -- what was seen is the call just met or an earlier one
      rcases hseen with heq | hseen
      · exact hhead (List.mem_map.2 ⟨p, hp, heq⟩)
      · exact hnew' p hp hseen

section
variable {program : Program} {entries : List String}

/-- In a checked program the findings can be collected function by function. -/
theorem Program.Checked.reconcile_eq (h : program.Checked entries) (classifier : Classifier)
    (scope : Scope) (runs : RunPair) :
    reconcile program classifier scope runs = program.functions.flatMap fun f =>
      f.instructions.filterMap fun i =>
        (CallSite.of? (f, i)).bind (findingAt? classifier scope runs) := by
  -- the check has made sure that no identity occurs twice
  have hnodup : (program.instructions.map (·.2.id)).Nodup := by
    have hids : program.instructions.map (·.2.id) =
        (program.functions.flatMap (·.instructions)).map (·.id) := by
      simp [Program.instructions, List.map_flatMap, Function.comp_def]
    rw [hids]
    exact h.identities
  have hnew : ∀ p ∈ program.instructions,
      ¬ (FiniteSet.empty : FiniteSet InstId).contains p.2.id = true :=
    fun _ _ => Bool.false_ne_true
  unfold reconcile Program.callSites
  rw [firstCallSites_of_nodup hnodup hnew, List.filterMap_filterMap]
  unfold Program.instructions
  rw [List.filterMap_flatMap]
  simp only [List.filterMap_map, Function.comp_def]

variable {keep : String → Bool}

theorem flatMap_filter_eq {α β : Type} {l : List α} {p : α → Bool} {g g' : α → List β}
    (hkept : ∀ a ∈ l, p a = true → g' a = g a) (hdropped : ∀ a ∈ l, p a = false → g a = []) :
    (l.filter p).flatMap g' = l.flatMap g := by
  induction l with
  | nil => rfl
  | cons a l ih =>
    have hrest := ih (fun b hb => hkept b (List.mem_cons_of_mem _ hb))
      fun b hb => hdropped b (List.mem_cons_of_mem _ hb)
    -- a dropped element had nothing to contribute
    cases ha : p a with
    | true =>
      rw [List.filter_cons_of_pos ha, List.flatMap_cons, List.flatMap_cons, hrest,
        hkept a (List.mem_cons_self ..) ha]
    | false =>
      rw [List.filter_cons_of_neg (by simp [ha]), List.flatMap_cons, hrest,
        hdropped a (List.mem_cons_self ..) ha, List.nil_append]

namespace Settings

variable {s : Settings} {consuming factory : Table}

theorem reconcile_restrict (h : program.CallClosed s.run.entryPoints keep)
    (hconsuming : s.solve program .consuming = .ok consuming)
    (hfactory : s.solve program .factory = .ok factory) :
    reconcile (program.restrict keep) (s.classifier (program.restrict keep)) s.scope
        (.ofTables consuming factory) =
      reconcile program (s.classifier program) s.scope (.ofTables consuming factory) := by
  have hvalidate := (Propagation.exists_of_solve hconsuming).1
  rw [(Program.checked_of_validate (Program.validate_restrict h hvalidate)).reconcile_eq,
    (Program.checked_of_validate hvalidate).reconcile_eq]
  refine flatMap_filter_eq (fun f hf hkeep => ?_) fun f hf hdropped => ?_
  · -- at kept code the calls have the same roles as before
    refine List.filterMap_congr fun i hi => ?_
    cases hcallee : i.callee? with
    | none => rw [CallSite.of?_of_none hcallee, Option.bind_none, Option.bind_none]
    | some callee =>
      have htoken := congrArg CallInfo.token
        (s.classify_restrict program (h.calls f hf hkeep i hi callee hcallee) .consuming)
      rw [CallSite.of?_of_some hcallee]
      unfold findingAt? Classifier.tokenOf
      simp only [Option.bind_some, htoken]
  · -- dropped code was never reached
    refine List.filterMap_eq_nil_iff.2 fun i hi => ?_
    have hunreached : ∀ k, ¬ Reached program s.run.entryPoints f k := by
      intro k hreached
      rw [h.keep_of_reached hreached] at hdropped
      cases hdropped
    have hnone : ∀ {mode t}, s.solve program mode = .ok t → ∀ v, t.get? i.id v = none := by
      intro mode t hsolve v
      cases hcell : t.get? i.id v with
      | none => rfl
      | some state =>
        obtain ⟨k, hreached⟩ := Propagation.reached_of_cell hsolve hf hi hcell
        exact absurd hreached (hunreached k)
    cases hcallee : i.callee? with
    | none => rw [CallSite.of?_of_none hcallee, Option.bind_none]
    | some callee =>
      rw [CallSite.of?_of_some hcallee, Option.bind_some]
      exact findingAt?_eq_none (hnone hconsuming) (hnone hfactory)

/-! ## §5 Analyses -/

theorem solve_restrict (h : program.CallClosed s.run.entryPoints keep)
    (hvalidate : program.validate s.run.entryPoints = .ok ()) (mode : Mode) :
    s.solve (program.restrict keep) mode = s.solve program mode :=
  (mirrors_restrict h s mode).solve_eq h.entries
    ((Program.validate_restrict h hvalidate).trans hvalidate.symm) s.run.maxIterations

/-- What is outside a call-closed set of names has no part in an analysis. -/
theorem analyze_restrict (h : program.CallClosed s.run.entryPoints keep)
    (hvalidate : program.validate s.run.entryPoints = .ok ()) :
    s.analyze (program.restrict keep) = s.analyze program := by
  rw [analyze_eq, analyze_eq, solve_restrict h hvalidate, solve_restrict h hvalidate]
  split
  · rfl
  · cases hconsuming : s.solve program .consuming with
    | error cause => rfl
    | ok consuming =>
      cases hfactory : s.solve program .factory with
      | error cause => rfl
      | ok factory =>
        -- the tables are the same, and they have no cells in dropped code
        have hreport : s.report (program.restrict keep) consuming factory =
            s.report program consuming factory := by
          unfold report
          rw [reconcile_restrict h hconsuming hfactory]
        exact congrArg Except.ok hreport

/-- **Code that is never called is irrelevant.** Taking every function out whose name no chain of
calls from the entry points leads to changes nothing about the analysis, neither its error nor its
runs nor its findings. -/
theorem analyze_callable (s : Settings) {program : Program}
    (hvalidate : program.validate s.run.entryPoints = .ok ()) {keep : String → Bool}
    (hkeep : ∀ name, keep name = true ↔ program.Callable s.run.entryPoints name) :
    s.analyze (program.restrict keep) = s.analyze program :=
  analyze_restrict (Program.callClosed_of_callable hkeep) hvalidate

end Settings

end

/-- A body that nothing calls. -/
def idler : Function where
  name := "idle"
  params := [⟨3⟩]
  outputArg := none
  blocks := [
    { instructions := [
        ⟨⟨6⟩, .call "take" [⟨3⟩] none⟩,
        ⟨⟨7⟩, .call "free" [⟨3⟩] none⟩,
        ⟨⟨8⟩, .ret none⟩]
      successors := [] }]

/-- The program `giving` with an idle function in it. -/
def idling : Program := ⟨[giver, idler, taker], .empty⟩

/-- The names that calls lead to in `idling`. -/
def calledNames : List String := ["main", "extract", "take", "access", "release"]

theorem callClosed_idling : idling.CallClosed ["main"] calledNames.contains :=
  ⟨by decide, by decide +kernel⟩

theorem contains_calledNames_iff (name : String) :
    calledNames.contains name = true ↔ idling.Callable ["main"] name := by
  constructor
  · intro h
    have hmain : idling.Callable ["main"] giver.name := .entry (List.mem_singleton.2 rfl)
    have hcalled : ∀ {callee i}, i ∈ giver.instructions → callee ∈ i.callee? →
        idling.Callable ["main"] callee := fun hi => hmain.call (List.mem_cons_self ..) hi
    have htake : idling.Callable ["main"] taker.name :=
      hcalled (i := ⟨⟨1⟩, .call "take" [⟨0⟩] (some ⟨2⟩)⟩) (by decide) rfl
    simp only [calledNames, List.contains_iff_mem, List.mem_cons, List.not_mem_nil, or_false] at h
    -- the listed names are called one after the other, starting from the entry point
    rcases h with rfl | rfl | rfl | rfl | rfl
    · exact hmain
    · exact hcalled (i := ⟨⟨0⟩, .call "extract" [⟨0⟩] none⟩) (by decide) rfl
    · exact htake
    · exact hcalled (i := ⟨⟨2⟩, .call "access" [⟨0⟩] none⟩) (by decide) rfl
    · exact htake.call (i := ⟨⟨4⟩, .call "release" [⟨1⟩] none⟩) (by decide) (by decide) rfl
  · exact callClosed_idling.keep_of_callable

/-- The idle function makes no difference to the analysis. -/
theorem analyze_idling :
    (givingSettings .release).analyze giving = (givingSettings .release).analyze idling := by
  have hvalidate : idling.validate ["main"] = .ok () := eq_ok_of_toOption (by decide +kernel)
  have hrestrict : idling.restrict calledNames.contains = giving := by decide +kernel
  rw [← hrestrict]
  exact (givingSettings .release).analyze_callable hvalidate contains_calledNames_iff

end Typestate
