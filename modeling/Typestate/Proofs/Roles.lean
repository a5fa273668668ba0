import Typestate.Proofs.Classification
import Typestate.Proofs.Closure
import Typestate.Proofs.Provenance
import Typestate.Proofs.Reconciliation
import Typestate.Proofs.Simulation

/-!
# Which roles a finding needs

A finding is where a memory error meets a rewrapped value. Both kinds of states come about through
calls of one role only, a release and a rebuild, so a program that lacks either has no findings. The
rebuilding calls are also the only ones at which the mode of a model is felt: without them the two
modes are one.

## Contents

- §1 Calls out of a program
- §2 Where the mode is felt
- §3 States and the roles they need
- §4 Findings
-/

namespace Typestate

/-! ## §1 Calls out of a program -/

/-- Some instruction of the program calls `callee`, which has no body in it. -/
def Program.CallsOut (program : Program) (callee : String) : Prop :=
  ∃ f i, (f, i) ∈ program.instructions ∧ i.callee? = some callee ∧ program.body? callee = none

namespace Program

variable {program : Program} {callee : String}

theorem CallsOut.of_calledFrom {K : String → Prop} (h : program.CalledFrom K callee)
    (hnone : program.body? callee = none) : program.CallsOut callee := by
  obtain ⟨f, i, -, hbody, hi, hcallee⟩ := h
  have hmem : (f, i) ∈ program.instructions :=
    List.mem_flatMap.2 ⟨f, mem_of_body? hbody, List.mem_map_of_mem hi⟩
  exact ⟨f, i, hmem, hcallee, hnone⟩

theorem ReachesOut.callsOut {entries : List String} (h : program.ReachesOut entries callee) :
    program.CallsOut callee := by
  obtain ⟨f, k, b, i, hreached, hb, hi, hcallee, hnone⟩ := h
  have hinstructions : i ∈ f.instructions :=
    List.mem_flatMap.2 ⟨b, List.mem_of_getElem? hb, hi⟩
  exact .of_calledFrom (K := fun _ => True)
    ⟨f, i, trivial, hreached.body, hinstructions, hcallee⟩ hnone

end Program

/-- A solver asks a model for nothing but the effects of calls out of the program. -/
theorem solve_eq_of_apply_eq {program : Program} {model model' : CallModel}
    (h : ∀ callee, program.CallsOut callee → model'.apply callee = model.apply callee)
    (limit : Nat) (entries : List String) :
    solve program model' limit entries = solve program model limit entries := by
  have hmirrors : Mirrors .identity (fun _ => True) program model program model' :=
    .of_body_eq (fun _ _ => rfl) (fun _ _ => trivial) fun callee hcalled hnone =>
      h callee (.of_calledFrom hcalled hnone)
  exact hmirrors.solve_eq (fun _ _ => trivial) rfl limit

/-! ## §2 Modes -/

section
variable {token : Token} (h : token ≠ .rebuild) (mode mode' : Mode)
include h

theorem Token.step_of_ne_rebuild (s : State) : token.step mode s = token.step mode' s := by
  cases token with
  | rebuild => exact absurd rfl h
  | neutral | extract | release | access => cases s <;> rfl

theorem production_of_ne_rebuild (outputs : FiniteSet Position) :
    production mode token outputs = production mode' token outputs := by
  cases token with
  | rebuild => exact absurd rfl h
  | neutral | extract | release | access => rfl

theorem CallInfo.recognised_of_ne_rebuild (consumers outputs : FiniteSet Position)
    (provenance : Provenance) (slot : Option UInt64) :
    recognised mode token consumers outputs provenance slot =
      recognised mode' token consumers outputs provenance slot := by
  unfold recognised
  rw [production_of_ne_rebuild h mode mode']

end

namespace Classifier

variable (c : Classifier) (callee : String)

/-- The mode enters a classification in one place, and not at all for unrecognised calls. -/
theorem classify_cases :
    (∃ token consumers outputs provenance slot, ∀ mode, c.classify mode callee =
      .recognised mode token consumers outputs provenance slot) ∨
    ∃ info, ∀ mode, c.classify mode callee = info := by
  obtain ⟨info, hrule⟩ := c.exists_rule callee
  have hinfo := hrule.classify_eq
  cases hrule with
  | entry f hknown => exact Or.inl ⟨_, _, _, _, _, hinfo⟩
  | marker token hknown hmarked => exact Or.inl ⟨_, _, _, _, _, hinfo⟩
  | declared d hknown hmarked hdeclared => exact Or.inr ⟨_, hinfo⟩
  | unknown hknown hmarked hdeclared => exact Or.inr ⟨_, hinfo⟩

theorem token_classify (mode : Mode) : (c.classify mode callee).token = c.tokenOf callee := by
  unfold tokenOf
  rcases c.classify_cases callee with ⟨token, consumers, outputs, provenance, slot, h⟩ | ⟨info, h⟩
  · rw [h, h, CallInfo.token_recognised, CallInfo.token_recognised]
  · rw [h, h]

/-- A call that rebuilds nothing is classified alike in both modes. -/
theorem classify_of_ne_rebuild (hrebuild : c.tokenOf callee ≠ .rebuild) (mode mode' : Mode) :
    c.classify mode callee = c.classify mode' callee := by
  rcases c.classify_cases callee with ⟨token, consumers, outputs, provenance, slot, h⟩ | ⟨info, h⟩
  · have htoken : token ≠ .rebuild := by
      rwa [← c.token_classify callee mode, h, CallInfo.token_recognised] at hrebuild
    rw [h, h, CallInfo.recognised_of_ne_rebuild htoken mode mode']
  · rw [h, h]

end Classifier

section
variable {program : Program} {classifier : Classifier}

/-- Models of the two modes treat a call alike that rebuilds nothing. -/
theorem CallModel.apply_of_ne_rebuild {callee : String} (h : classifier.tokenOf callee ≠ .rebuild)
    (coverage : Coverage) (mode mode' : Mode) :
    (CallModel.mk classifier coverage mode').apply callee =
      (CallModel.mk classifier coverage mode).apply callee := by
  have hinfo := classifier.classify_of_ne_rebuild callee h mode' mode
  refine apply_congr rfl hinfo (funext fun s => ?_)
  have htoken : (classifier.classify mode callee).token ≠ .rebuild := by
    rwa [classifier.token_classify]
  show (classifier.classify mode' callee).token.step mode' s =
    (classifier.classify mode callee).token.step mode s
  rw [hinfo, Token.step_of_ne_rebuild htoken mode' mode]

/-- **The two modes are one** where nothing is rebuilt. -/
theorem solve_mode_eq (h : ∀ callee, program.CallsOut callee → classifier.tokenOf callee ≠ .rebuild)
    (coverage : Coverage) (mode mode' : Mode) (limit : Nat) (entries : List String) :
    solve program ⟨classifier, coverage, mode'⟩ limit entries =
      solve program ⟨classifier, coverage, mode⟩ limit entries := by
  refine solve_eq_of_apply_eq (fun callee hcallee => ?_) limit entries
  exact CallModel.apply_of_ne_rebuild (h callee hcallee) coverage mode mode'

end

/-! ## §3 States -/

/-- What follows a release: the release itself and both memory errors. -/
def State.IsReleased (s : State) : Prop := s = .dropped ∨ s.isMemoryError = true

theorem Token.rebuild_of_step {mode : Mode} {token : Token} {s : State}
    (h : token.step mode s = .rawWrapped) : s = .rawWrapped ∨ token = .rebuild := by
  revert h
  cases s <;> cases token <;> cases mode <;> decide

theorem Token.release_of_step {mode : Mode} {token : Token} {s : State}
    (h : (token.step mode s).IsReleased) : s.IsReleased ∨ token = .release := by
  unfold State.IsReleased at *
  revert h
  cases s <;> cases token <;> cases mode <;> decide

section
variable {program : Program} {classifier : Classifier} {coverage : Coverage} {mode : Mode}
variable {limit : Nat} {entries : List String} {t : Table} {v : ValueId} {s : State}
variable (h : solve program ⟨classifier, coverage, mode⟩ limit entries = .ok t)
include h

/-- States that only one role leads to are shown only where a call of that role is reached. -/
theorem exists_reached_call {S : State → Prop} {token : Token} (huninit : ¬ S .uninit)
    (hstep : ∀ (other : Token) s, S (other.step mode s) → S s ∨ other = token)
    (hshows : t.Shows v s) (hs : S s) :
    ∃ callee, program.ReachesOut entries callee ∧ classifier.tokenOf callee = token := by
  obtain ⟨i, hcell⟩ := hshows
  by_contra hnone
  -- otherwise every reached call out of the program keeps states outside `S`
  have hkept : ∀ callee, program.ReachesOut entries callee → ∀ s, ¬ S s →
      ¬ S ((CallModel.mk classifier coverage mode).next callee s) := by
    intro callee hreaches s hs hnext
    rcases hstep _ s hnext with hold | htoken
    · exact hs hold
    · exact hnone ⟨callee, hreaches, (classifier.token_classify callee mode).symm.trans htoken⟩
  have hall : Observation.All (fun s => ¬ S s) (t.get? i v) :=
    Propagation.all_of_solve huninit hkept h i v
  exact hall s hcell hs

theorem exists_rebuild_of_shows (hshows : t.Shows v .rawWrapped) :
    ∃ callee, program.ReachesOut entries callee ∧ classifier.tokenOf callee = .rebuild :=
  exists_reached_call h (S := (· = .rawWrapped)) (by decide) (fun _ _ => Token.rebuild_of_step)
    hshows rfl

theorem exists_release_of_shows (hshows : t.Shows v s) (hs : s.IsReleased) :
    ∃ callee, program.ReachesOut entries callee ∧ classifier.tokenOf callee = .release :=
  exists_reached_call h (by unfold State.IsReleased; decide) (fun _ _ => Token.release_of_step)
    hshows hs

theorem uninit_le_of_shows (hshows : t.Shows v s) : State.uninit ≤ s := by
  obtain ⟨i, hcell⟩ := hshows
  exact Propagation.proper_of_solve h i v s hcell

end

/-! ## §4 Findings -/

theorem Contributes.shows {consuming factory : Table} {i : InstId} {v : ValueId} {s : State}
    (h : Contributes consuming factory i v s) : consuming.Shows v s ∨ factory.Shows v s := by
  rcases h with ⟨hcell, -⟩ | ⟨hcell, -⟩
  · exact Or.inl ⟨i, hcell⟩
  · exact Or.inr ⟨i, hcell⟩

namespace Settings

variable {s : Settings} {program : Program}

/-- A finding takes a reached rebuild and a reached release. -/
theorem exists_calls_of_finding {a : Analysis} (h : s.analyze program = .ok a)
    (hfindings : a.findings ≠ []) :
    (∃ callee, program.ReachesOut s.run.entryPoints callee ∧
        (s.classifier program).tokenOf callee = .rebuild) ∧
      ∃ callee, program.ReachesOut s.run.entryPoints callee ∧
        (s.classifier program).tokenOf callee = .release := by
  obtain ⟨consuming, factory, hconsuming, hfactory, rfl⟩ := exists_of_analyze h
  -- a finding belongs to a site with an erring and a rewrapped value
  have hsite : ∃ site, Reportable (s.classifier program) s.scope consuming factory site := by
    by_contra hnone
    exact hfindings (reconcile_eq_nil fun site hsite => hnone ⟨site, hsite⟩)
  obtain ⟨site, -, ⟨v, state, herr, hstate⟩, w, hwrap⟩ := hsite
  constructor
  · rcases hwrap.shows with hshows | hshows
    · exact exists_rebuild_of_shows hconsuming hshows
    · exact exists_rebuild_of_shows hfactory hshows
  · rcases herr.shows with hshows | hshows
    · exact exists_release_of_shows hconsuming hshows (Or.inr hstate)
    · exact exists_release_of_shows hfactory hshows (Or.inr hstate)

end Settings

/-- **Findings need a rebuild and a release**, whatever the settings. A program that rebuilds nothing
has the same outcome in both modes and no findings; one that releases nothing has no findings. The
states behind a rebuild or a release are in no table unless a reached call has that role, and the two
sentinels are in no table at all. -/
theorem findings_need_roles (program : Program) (classifier : Classifier) :
    ((∀ callee, program.CallsOut callee → classifier.tokenOf callee ≠ .rebuild) →
      (∀ coverage limit entries, solve program ⟨classifier, coverage, .consuming⟩ limit entries =
        solve program ⟨classifier, coverage, .factory⟩ limit entries) ∧
      ∀ s : Settings, s.classifier program = classifier →
        ∀ a, s.analyze program = .ok a → a.findings = []) ∧
    ((∀ callee, program.CallsOut callee → classifier.tokenOf callee ≠ .release) →
      ∀ s : Settings, s.classifier program = classifier →
        ∀ a, s.analyze program = .ok a → a.findings = []) ∧
    ∀ coverage mode limit entries t,
      solve program ⟨classifier, coverage, mode⟩ limit entries = .ok t → ∀ v,
        (t.Shows v .rawWrapped → ∃ callee, program.ReachesOut entries callee ∧
          classifier.tokenOf callee = .rebuild) ∧
        (∀ s ∈ [State.dropped, .useAfterFree, .doubleFree], t.Shows v s →
          ∃ callee, program.ReachesOut entries callee ∧ classifier.tokenOf callee = .release) ∧
        ¬ t.Shows v .bottom ∧ ¬ t.Shows v .top := by
  refine ⟨fun hrebuild => ⟨?_, ?_⟩, fun hrelease => ?_, ?_⟩
  · exact fun coverage => solve_mode_eq hrebuild coverage .factory .consuming
  · rintro s rfl a h
    by_contra hfindings
    obtain ⟨⟨callee, hreaches, htoken⟩, -⟩ := Settings.exists_calls_of_finding h hfindings
    exact hrebuild callee hreaches.callsOut htoken
  · rintro s rfl a h
    by_contra hfindings
    obtain ⟨-, callee, hreaches, htoken⟩ := Settings.exists_calls_of_finding h hfindings
    exact hrelease callee hreaches.callsOut htoken
  · intro coverage mode limit entries t h v
    refine ⟨exists_rebuild_of_shows h, ?_, ?_, ?_⟩
    · intro s hs hshows
      -- the three states are those behind a release
      have hreleased : s.IsReleased := by
        unfold State.IsReleased
        revert hs
        cases s <;> decide
      exact exists_release_of_shows h hshows hreleased
    · exact fun hshows => absurd (uninit_le_of_shows h hshows) (by decide)
    · exact fun hshows => absurd (uninit_le_of_shows h hshows) (by decide)

/-- Settings for `giving` under which its calls of `release` have the given role. -/
def givingSettings (role : Token) : Settings where
  run := ⟨["main"], .full, true, 100⟩
  scope := .allCallSites
  known := [⟨"extract", .extract, [0], []⟩, ⟨"release", role, [0], []⟩, ⟨"access", .access, [0], []⟩]

/-- Computed together, as the table of known functions is built anew for every evaluation. -/
theorem computed_givingSettings :
    (∀ p ∈ giving.instructions, ∀ callee ∈ p.2.callee?,
      ((givingSettings .release).classifier giving).tokenOf callee ≠ .rebuild ∧
        ((givingSettings .rebuild).classifier giving).tokenOf callee ≠ .release) ∧
    ((givingSettings .release).solve giving .consuming).toOption = some givingTable ∧
    ∀ role ∈ [Token.release, .rebuild],
      ((givingSettings role).analyze giving).toOption.isSome = true := by
  decide +kernel

/-- Only a release leads to the use after free in `giving`; nothing is found as nothing is rebuilt.
With a rebuild in place of the release nothing is found either. -/
theorem findings_giving :
    (givingSettings .release).solve giving .factory = .ok givingTable ∧
      (∃ a, (givingSettings .release).analyze giving = .ok a ∧ a.findings = []) ∧
      (∃ a, (givingSettings .rebuild).analyze giving = .ok a ∧ a.findings = []) ∧
      ∃ callee, giving.ReachesOut ["main"] callee ∧
        ((givingSettings .release).classifier giving).tokenOf callee = .release := by
  obtain ⟨htokens, htable, hanalyses⟩ := computed_givingSettings
  obtain ⟨hrebuild, -, hcells⟩ :=
    findings_need_roles giving ((givingSettings .release).classifier giving)
  obtain ⟨-, hrelease, -⟩ :=
    findings_need_roles giving ((givingSettings .rebuild).classifier giving)
  -- no call of the program has the role that is missing
  have hnone : ∀ callee, giving.CallsOut callee →
      ((givingSettings .release).classifier giving).tokenOf callee ≠ .rebuild :=
    fun callee ⟨f, i, hmem, hcallee, _⟩ => (htokens (f, i) hmem callee hcallee).1
  have hnone' : ∀ callee, giving.CallsOut callee →
      ((givingSettings .rebuild).classifier giving).tokenOf callee ≠ .release :=
    fun callee ⟨f, i, hmem, hcallee, _⟩ => (htokens (f, i) hmem callee hcallee).2
  obtain ⟨a, ha⟩ := Option.isSome_iff_exists.1 (hanalyses .release (by decide))
  obtain ⟨a', ha'⟩ := Option.isSome_iff_exists.1 (hanalyses .rebuild (by decide))
  have hsolve := eq_ok_of_toOption htable
  refine ⟨?_, ⟨a, eq_ok_of_toOption ha, ?_⟩, ⟨a', eq_ok_of_toOption ha', ?_⟩, ?_⟩
  · exact ((hrebuild hnone).1 .full 100 ["main"]).symm.trans hsolve
  · exact (hrebuild hnone).2 _ rfl a (eq_ok_of_toOption ha)
  · exact hrelease hnone' _ rfl a' (eq_ok_of_toOption ha')
  · obtain ⟨-, hreleases, -⟩ := hcells .full .consuming 100 ["main"] givingTable hsolve ⟨0⟩
    exact hreleases .useAfterFree (by decide) ⟨⟨3⟩, rfl⟩

end Typestate
