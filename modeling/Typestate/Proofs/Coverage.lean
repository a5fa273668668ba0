import Typestate.Proofs.Roles
import Typestate.Proofs.Tracking
import Typestate.Run

/-!
# What mode and coverage add to a run

Two models of the same classifier can differ in the calls they look at and in what a rebuild produces.
Neither takes anything away: a value that the smaller model tracks is tracked by the larger one, from
more entry points as well. The runs themselves do not correspond, since they hold other states and go
through other passes; their cells do, because both tables have them exactly where the rules of tracking
say so. And coverage is felt at one kind of call only, the one that is declared and otherwise unknown.

## Contents

- §1 What a classification owes to the mode
- §2 Larger models
- §3 Cells of the larger run
- §4 Where coverage is felt
-/

namespace Typestate

/-! ## §1 Classifications -/

namespace Classifier

variable (c : Classifier) (callee : String)

/-- The provenance is settled before the mode is asked. -/
theorem provenance_classify (mode mode' : Mode) :
    (c.classify mode callee).provenance = (c.classify mode' callee).provenance := by
  rcases c.classify_cases callee with ⟨token, consumers, outputs, provenance, slot, h⟩ | ⟨info, h⟩
  · rw [h, h, CallInfo.provenance_recognised, CallInfo.provenance_recognised]
  · rw [h, h]

/-- The consumed positions are settled before the mode is asked, too. -/
theorem consumers_classify (mode mode' : Mode) :
    (c.classify mode callee).consumers = (c.classify mode' callee).consumers := by
  rcases c.classify_cases callee with ⟨token, consumers, outputs, provenance, slot, h⟩ | ⟨info, h⟩
  · rw [h, h, CallInfo.consumers_recognised]
  · rw [h, h]

/-- What produces in the consuming mode is no rebuild, so it produces the same in the other mode. -/
theorem classify_of_isFactory (h : (c.classify .consuming callee).isFactory = true) (mode : Mode) :
    c.classify mode callee = c.classify .consuming callee := by
  rcases c.classify_cases callee with
    ⟨token, consumers, outputs, provenance, slot, hshape⟩ | ⟨info, hinfo⟩
  · have htoken : token ≠ .rebuild := by
      rintro rfl
      rw [hshape, CallInfo.isFactory_recognised] at h
      cases h
    rw [hshape, hshape, CallInfo.recognised_of_ne_rebuild htoken mode .consuming]
  · rw [hinfo, hinfo]

/-- A target that nothing is known about, not even a declaration, is left alone. -/
theorem classify_of_unresolved {mode : Mode}
    (h : (c.classify mode callee).provenance = .unresolved) :
    c.classify mode callee = .inert .unresolved := by
  obtain ⟨info, hrule⟩ := c.exists_rule callee
  rw [hrule.classify_eq] at h ⊢
  -- the last rule is the only one with this provenance
  cases hrule with
  | entry f hknown =>
    rw [CallInfo.provenance_recognised] at h
    cases h
  | marker token hknown hmarked =>
    rw [CallInfo.provenance_recognised] at h
    cases h
  | declared d hknown hmarked hdeclared => cases h
  | unknown hknown hmarked hdeclared => rfl

end Classifier

/-! ## §2 Larger models -/

/-- The second mode is the first, or tracks owners that the first leaves alone. -/
def Mode.Within (mode mode' : Mode) : Prop :=
  mode = mode' ∨ mode = .consuming ∧ mode' = .factory

/-- The second coverage is the first, or looks at calls that the first leaves out. -/
def Coverage.Within (coverage coverage' : Coverage) : Prop :=
  coverage = coverage' ∨ coverage = .allowList ∧ coverage' = .full

section
variable {classifier : Classifier} {coverage coverage' : Coverage} {mode mode' : Mode}
variable (hcoverage : coverage.Within coverage') (hmode : mode.Within mode')
include hcoverage

/-- A call that the smaller model looks at is looked at by the larger one. -/
theorem CallModel.observes_of_within {callee : String}
    (h : (CallModel.mk classifier coverage mode).observes callee = true) :
    (CallModel.mk classifier coverage' mode').observes callee = true := by
  rcases hcoverage with rfl | ⟨-, rfl⟩
  · have hprovenance := classifier.provenance_classify callee mode' mode
    -- the same coverage asks for the same provenance
    cases coverage with
    | full => rfl
    | allowList => exact (congrArg Provenance.isRecognised hprovenance).trans h
  · rfl

include hmode

/-- **A larger model touches more.** -/
theorem CallModel.Touches.of_within {callee : String} {args : List ValueId}
    {result : Option ValueId} {v : ValueId}
    (h : (CallModel.mk classifier coverage mode).Touches callee args result v) :
    (CallModel.mk classifier coverage' mode').Touches callee args result v := by
  obtain ⟨hobserves, htouched⟩ := h
  refine ⟨observes_of_within hcoverage hobserves, ?_⟩
  rcases htouched with ⟨p, hp, hv⟩ | ⟨hfactory, p, hp, hv⟩
  · -- positions move alike in both modes
    refine Or.inl ⟨p, ?_, hv⟩
    have hconsumers := classifier.consumers_classify callee mode' mode
    exact (congrArg FiniteSet.toList hconsumers) ▸ hp
  · -- what the smaller mode produces the larger one produces, too
    have hinfo : classifier.classify mode' callee = classifier.classify mode callee := by
      rcases hmode with rfl | ⟨rfl, -⟩
      · rfl
      · exact classifier.classify_of_isFactory callee hfactory mode'
    exact Or.inr ⟨(congrArg CallInfo.isFactory hinfo).trans hfactory, p,
      (congrArg (fun info => FiniteSet.toList info.outputs) hinfo) ▸ hp, hv⟩

end

/-! ## §3 Cells -/

section
variable {program : Program} {model model' : CallModel} {entries entries' : List String}
variable (hentries : ∀ name ∈ entries, name ∈ entries')
include hentries

/-- More entry points reach more. -/
theorem Reached.mono {f : Function} {k : Nat} (h : Reached program entries f k) :
    Reached program entries' f k := by
  induction h with
  | entry hname hbody => exact .entry (hentries _ hname) hbody
  | jump _ hb ht ih => exact ih.jump hb ht
  | enter _ hb hi he ih => exact ih.enter hb hi he

/-- **Tracking grows** with the entry points and with what calls touch. -/
theorem Tracked.mono
    (hmodel : ∀ {callee args result v}, model.Touches callee args result v →
      model'.Touches callee args result v)
    {f : Function} {k : Nat} {rest : List Instruction} {v : ValueId}
    (h : Tracked program model entries f k rest v) :
    Tracked program model' entries' f k rest v := by
  -- only the rule for touched values asks the model
  induction h with
  | touch hreached hremains hop hbody htouches =>
    exact .touch (hreached.mono hentries) hremains hop hbody (hmodel htouches)
  | stay _ ih => exact ih.stay
  | jump _ hb ht hb' ih => exact ih.jump hb ht hb'
  | enter _ he hpair hb ih => exact ih.enter he hpair hb
  | exit hreached hremains he hpair _ hop ih =>
    exact .exit (hreached.mono hentries) hremains he hpair ih hop
  | returned hreached hremains he hresult _ hop ih =>
    exact .returned (hreached.mono hentries) hremains he hresult ih hop

end

/-- **A larger run has every cell of a smaller one**: the factory run those of the consuming run, full
coverage those of the allow-list, and more entry points those of fewer. -/
theorem isSome_of_within {program : Program} {classifier : Classifier}
    {coverage coverage' : Coverage} {mode mode' : Mode} {entries entries' : List String}
    {limit limit' : Nat} {t t' : Table} (hcoverage : coverage.Within coverage')
    (hmode : mode.Within mode') (hentries : ∀ name ∈ entries, name ∈ entries')
    (h : solve program ⟨classifier, coverage, mode⟩ limit entries = .ok t)
    (h' : solve program ⟨classifier, coverage', mode'⟩ limit' entries' = .ok t')
    (id : InstId) (v : ValueId) (hcell : (t.get? id v).isSome = true) :
    (t'.get? id v).isSome = true := by
  -- from the cell to the rules of tracking, and back to a cell of the other run
  obtain ⟨f, k, i, rest, hreached, hremains, hid, htracked⟩ := (isSome_iff_tracked h id v).1 hcell
  refine (isSome_iff_tracked h' id v).2 ⟨f, k, i, rest, hreached.mono hentries, hremains, hid, ?_⟩
  exact htracked.mono hentries (.of_within hcoverage hmode)

/-- A body with a known call, one that is only declared, and one that rebuilds an owner. -/
def surveyor : Function where
  name := "main"
  params := []
  outputArg := none
  blocks := [
    { instructions := [
        ⟨⟨0⟩, .call "extract" [⟨0⟩] none⟩,
        ⟨⟨1⟩, .call "inspect" [⟨1⟩] none⟩,
        ⟨⟨2⟩, .call "rebuild" [⟨0⟩] (some ⟨2⟩)⟩,
        ⟨⟨3⟩, .ret none⟩]
      successors := [] }]

/-- A body that no other calls. -/
def bystander : Function where
  name := "spare"
  params := []
  outputArg := none
  blocks := [
    { instructions := [⟨⟨4⟩, .call "release" [⟨3⟩] none⟩, ⟨⟨5⟩, .ret none⟩], successors := [] }]

def surveying : Program := ⟨[surveyor, ⟨"inspect", [⟨9⟩], none, []⟩, bystander], .empty⟩

/-- The small model with the declarations of `surveying`. -/
def surveyModel (coverage : Coverage) (mode : Mode) : CallModel :=
  ⟨⟨(CallModel.small coverage mode).classifier.known, .ofProgram surveying⟩, coverage, mode⟩

/-- The table of the smallest run over `surveying`. -/
def narrowTable : Table :=
  ⟨FiniteMap.ofList
    [(⟨⟨1⟩, ⟨0⟩⟩, .rawReferenced), (⟨⟨2⟩, ⟨0⟩⟩, .rawReferenced), (⟨⟨3⟩, ⟨0⟩⟩, .rawWrapped)]⟩

/-- The table of the largest run: an access to an unknown value, the rebuilt owner, another body. -/
def wideTable : Table :=
  ⟨FiniteMap.ofList
    [(⟨⟨1⟩, ⟨0⟩⟩, .rawReferenced), (⟨⟨2⟩, ⟨0⟩⟩, .rawReferenced), (⟨⟨2⟩, ⟨1⟩⟩, .violation),
      (⟨⟨3⟩, ⟨0⟩⟩, .rawWrapped), (⟨⟨3⟩, ⟨1⟩⟩, .violation), (⟨⟨3⟩, ⟨2⟩⟩, .rawWrapped),
      (⟨⟨5⟩, ⟨3⟩⟩, .violation)]⟩

theorem solve_surveying :
    solve surveying (surveyModel .allowList .consuming) 100 ["main"] = .ok narrowTable ∧
      solve surveying (surveyModel .full .factory) 100 ["spare", "main"] = .ok wideTable :=
  ⟨eq_ok_of_toOption (by decide +kernel), eq_ok_of_toOption (by decide +kernel)⟩

/-- All three ways to grow at once add cells and lose none. -/
theorem cells_surveying :
    solve surveying (surveyModel .allowList .consuming) 100 ["main"] = .ok narrowTable ∧
      solve surveying (surveyModel .full .factory) 100 ["spare", "main"] = .ok wideTable ∧
      ∀ id v, (narrowTable.get? id v).isSome = true → (wideTable.get? id v).isSome = true := by
  obtain ⟨hnarrow, hwide⟩ := solve_surveying
  exact ⟨hnarrow, hwide, isSome_of_within (Or.inr ⟨rfl, rfl⟩) (Or.inr ⟨rfl, rfl⟩)
    (by decide) hnarrow hwide⟩

/-! ## §4 Coverage -/

theorem Provenance.eq_unresolved {provenance : Provenance} (h : ¬ provenance.isRecognised = true)
    (hfallback : provenance ≠ .fallback) : provenance = .unresolved := by
  cases provenance with
  | curated => exact absurd rfl h
  | heuristic => exact absurd rfl h
  | unresolved => rfl
  | fallback => exact absurd rfl hfallback

/-- Unless a call is declared and otherwise unknown, it has the same effect under both coverages. -/
theorem CallModel.apply_of_ne_fallback {classifier : Classifier} {mode : Mode} {callee : String}
    (h : (classifier.classify mode callee).provenance ≠ .fallback) :
    (CallModel.mk classifier .allowList mode).apply callee =
      (CallModel.mk classifier .full mode).apply callee := by
  funext args result facts
  by_cases hobserves : (CallModel.mk classifier .allowList mode).observes callee = true
  · exact if_pos hobserves
  · -- one model does not look at the call, the other finds that it does nothing
    have hinfo : (CallModel.mk classifier .full mode).info callee = .inert .unresolved :=
      classifier.classify_of_unresolved callee (Provenance.eq_unresolved hobserves h)
    have hinert : (CallModel.mk classifier .full mode).apply callee args result facts = facts := by
      unfold apply
      simp only [hinfo]
      rfl
    exact (if_neg hobserves).trans hinert.symm

/-- **Coverage is only felt at fallback calls.** Where no call out of the program is declared and
otherwise unknown, a run has one outcome under both coverages: the same table with the same states of
values, or the same error. -/
theorem Executor.run_of_no_fallback (program : Program) (classifier : Classifier)
    (settings : RunSettings) (mode : Mode)
    (h : ∀ callee, program.CallsOut callee →
      (classifier.classify mode callee).provenance ≠ .fallback) :
    (Executor.new program classifier { settings with coverage := .full }).run mode =
      (Executor.new program classifier { settings with coverage := .allowList }).run mode := by
  have hsolve : solve program ⟨classifier, .allowList, mode⟩ settings.maxIterations
      settings.entryPoints =
      solve program ⟨classifier, .full, mode⟩ settings.maxIterations settings.entryPoints :=
    solve_eq_of_apply_eq
      (fun callee hcallee => CallModel.apply_of_ne_fallback (h callee hcallee)) _ _
  unfold run new model
  simp only [hsolve]

/-- A classifier that knows the first two calls of `giving` and not the third. -/
def givingClassifier : Classifier :=
  ⟨⟨FiniteMap.ofList
      [("extract", ⟨"extract", .extract, [0], []⟩), ("release", ⟨"release", .release, [0], []⟩)]⟩,
    .ofProgram giving⟩

theorem provenance_giving : ∀ p ∈ giving.instructions, ∀ callee ∈ p.2.callee?,
    giving.body? callee = none →
      (givingClassifier.classify .factory callee).provenance ≠ .fallback := by
  decide +kernel

/-- The calls of `giving` are known, enter a body or are unresolved, so its coverage makes no
difference; the run does find the release behind the call into `taker`. -/
theorem run_giving :
    (∃ r, (Executor.new giving givingClassifier ⟨["main"], .full, false, 100⟩).run .factory = .ok r ∧
      r.table.get? ⟨3⟩ ⟨0⟩ = some .dropped) ∧
    (Executor.new giving givingClassifier ⟨["main"], .full, false, 100⟩).run .factory =
      (Executor.new giving givingClassifier ⟨["main"], .allowList, false, 100⟩).run .factory := by
  have hrun : ((Executor.new giving givingClassifier ⟨["main"], .full, false, 100⟩).run
      .factory).toOption.any (fun r => r.table.get? ⟨3⟩ ⟨0⟩ = some .dropped) = true := by
    decide +kernel
  obtain ⟨r, hr, hcell⟩ := (Option.any_eq_true _ _).1 hrun
  refine ⟨⟨r, eq_ok_of_toOption hr, of_decide_eq_true hcell⟩, ?_⟩
  refine Executor.run_of_no_fallback giving givingClassifier ⟨["main"], .full, false, 100⟩ .factory ?_
  rintro callee ⟨f, i, hmem, hcallee, hnone⟩
  exact provenance_giving (f, i) hmem callee hcallee hnone

end Typestate
