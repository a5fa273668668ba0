import Typestate.Proofs.Closure
import Typestate.Proofs.Provenance

/-!
# Which cells a table has

States and cells are two questions. Which state a cell holds depends on what is joined when; whether
there is a cell at all does not. A value is *tracked* at a point when that can be derived by a handful
of rules about reached code, and a finished run has a cell exactly for the tracked values: the rules
of provenance never leave them, and a closed table cannot stop short of them.

## Contents

- §1 The rules of tracking
- §2 Everything gained is tracked
- §3 Everything tracked has a cell
-/

namespace Typestate

/-! ## §1 Rules -/

/-- `v` is tracked before the rest of block `k` of the function. -/
inductive Tracked (program : Program) (model : CallModel) (entries : List String) :
    Function → Nat → List Instruction → ValueId → Prop where
  /-- Behind a reached call without a body, what it consumes or produces is tracked. -/
  | touch {f : Function} {k : Nat} {i : Instruction} {rest : List Instruction} {callee : String}
      {args : List ValueId} {result : Option ValueId} {v : ValueId} :
      Reached program entries f k → Remains f k (i :: rest) → i.op = .call callee args result →
      program.body? callee = none → model.Touches callee args result v →
      Tracked program model entries f k rest v
  | stay {f : Function} {k : Nat} {i : Instruction} {rest : List Instruction} {v : ValueId} :
      Tracked program model entries f k (i :: rest) v → Tracked program model entries f k rest v
  | jump {f : Function} {k : Nat} {b b' : Block} {t : UInt64} {v : ValueId} :
      Tracked program model entries f k [] v → f.blocks[k]? = some b → t ∈ b.successors →
      f.blocks[t.toNat]? = some b' → Tracked program model entries f t.toNat b'.instructions v
  /-- A tracked argument makes its parameter tracked where the body starts. -/
  | enter {f : Function} {k : Nat} {i : Instruction} {rest : List Instruction} {e : Entering}
      {b : Block} {a p : ValueId} :
      Tracked program model entries f k (i :: rest) a → program.entering? i = some e →
      (a, p) ∈ e.pairs → e.target.blocks[0]? = some b →
      Tracked program model entries e.target 0 b.instructions p
  /-- A parameter tracked at a return makes its argument tracked behind every reached call. -/
  | exit {f : Function} {k k' : Nat} {i r : Instruction} {rest rest' : List Instruction}
      {e : Entering} {a p : ValueId} {value : Option ValueId} :
      Reached program entries f k → Remains f k (i :: rest) → program.entering? i = some e →
      (a, p) ∈ e.pairs → Tracked program model entries e.target k' (r :: rest') p →
      r.op = .ret value → Tracked program model entries f k rest a
  /-- A returned value that is tracked makes the result tracked behind every reached call. -/
  | returned {f : Function} {k k' : Nat} {i r : Instruction} {rest rest' : List Instruction}
      {e : Entering} {v w : ValueId} :
      Reached program entries f k → Remains f k (i :: rest) → program.entering? i = some e →
      e.result = some w → Tracked program model entries e.target k' (r :: rest') v →
      r.op = .ret (some v) → Tracked program model entries f k rest w

variable {program : Program} {model : CallModel} {entries : List String}

theorem Tracked.reached {f : Function} {k : Nat} {rest : List Instruction} {v : ValueId}
    (h : Tracked program model entries f k rest v) :
    Reached program entries f k ∧ Remains f k rest := by
  induction h with
  | touch hreached hremains _ _ _ => exact ⟨hreached, hremains.tail⟩
  | stay _ ih => exact ⟨ih.1, ih.2.tail⟩
  | jump _ hb ht hb' ih => exact ⟨ih.1.jump hb ht, _, hb', List.suffix_refl _⟩
  | enter _ he _ hb ih =>
    obtain ⟨hreached, b, hb', hsuffix⟩ := ih
    have hi := hsuffix.subset (List.mem_cons_self ..)
    exact ⟨hreached.enter hb' hi he, _, hb, List.suffix_refl _⟩
  | exit hreached hremains _ _ _ _ _ => exact ⟨hreached, hremains.tail⟩
  | returned hreached hremains _ _ _ _ _ => exact ⟨hreached, hremains.tail⟩

/-! ## §2 Nothing else is gained -/

/-- Some return of `f` has `v` tracked. -/
def TrackedAtReturn (program : Program) (model : CallModel) (entries : List String) (f : Function)
    (v : ValueId) (value : Option ValueId) : Prop :=
  ∃ k r rest, r.op = .ret value ∧ Tracked program model entries f k (r :: rest) v

/-- Knowledge about tracked values only. -/
def Knowledge.OfTracked (program : Program) (model : CallModel) (entries : List String) :
    Knowledge → Prop
  | .entry f facts => ∀ b v s, f.blocks[0]? = some b → facts.get? v = some s →
    Tracked program model entries f 0 b.instructions v
  | .before f k rest facts => ∀ v s, facts.get? v = some s →
    Tracked program model entries f k rest v
  | .exit f facts ret =>
    (∀ v s, facts.get? v = some s → ∃ value, TrackedAtReturn program model entries f v value) ∧
      ∀ s, ret = some s → ∃ v, TrackedAtReturn program model entries f v (some v)

/-- What has a state behind an instruction that enters no body had one before or is touched. -/
theorem isSome_or_touches_of_through {i : Instruction} {facts : Facts} {v : ValueId} {s : State}
    (h : (model.through i facts).get? v = some s) :
    (∃ s', facts.get? v = some s') ∨
      ∃ callee args result, i.op = .call callee args result ∧
        model.Touches callee args result v := by
  unfold CallModel.through at h
  cases hop : i.op with
  | call callee args result =>
    rw [hop] at h
    replace h : (model.apply callee args result facts).get? v = some s := h
    rw [CallModel.get?_apply] at h
    -- a call changes nothing but what it touches
    by_cases htouches : model.Touches callee args result v
    · exact Or.inr ⟨callee, args, result, rfl, htouches⟩
    · rw [model.effect_of_not_touches callee args result htouches] at h
      exact Or.inl ⟨s, h⟩
  | ret value =>
    rw [hop] at h
    exact Or.inl ⟨s, h⟩
  | other text =>
    rw [hop] at h
    exact Or.inl ⟨s, h⟩

theorem exists_of_get?_join {facts facts' : Facts} {v : ValueId} {s : State}
    (h : (Facts.join facts facts').get? v = some s) :
    facts.get? v = some s ∨ facts'.get? v = some s := by
  rw [Facts.get?_join] at h
  rcases Observation.join_eq_or (facts.get? v) (facts'.get? v) with hj | hj
  · exact Or.inl (hj ▸ h)
  · exact Or.inr (hj ▸ h)

/-- **Gained knowledge is about tracked values.** -/
theorem Gained.ofTracked {know : Knowledge} (h : Gained program model entries know) :
    know.OfTracked program model entries := by
  induction h with
  | start _ _ =>
    intro b v s _ hv
    simp at hv
  | enter _ he ih =>
    intro b p s hb hp
    obtain ⟨a, hpair, ha⟩ := get?_passArguments_eq_some hp
    exact (ih a s ha).enter he hpair hb
  | joinEntry _ _ ih ih' =>
    intro b v s hb hv
    exact (exists_of_get?_join hv).elim (ih b v s hb) (ih' b v s hb)
  | begin _ hb ih => exact fun v s => ih _ v s hb
  | jump _ hb ht hb' ih => exact fun v s hv => (ih v s hv).jump hb ht hb'
  | joinBefore _ _ ih ih' =>
    intro v s hv
    exact (exists_of_get?_join hv).elim (ih v s) (ih' v s)
  | through hbefore he ih =>
    intro v s hv
    rcases isSome_or_touches_of_through hv with ⟨s', hs'⟩ | ⟨callee, args, result, hop, htouches⟩
    · exact (ih v s' hs').stay
    · obtain ⟨hreached, hremains⟩ := hbefore.ofReached
      have hbody : program.body? callee = none := by simpa [Program.entering?, hop] using he
      exact .touch hreached hremains hop hbody htouches
  | @resume f k i rest facts exit e ret hbefore he _ ih ih' =>
    intro v s hv
    obtain ⟨hreached, hremains⟩ := hbefore.ofReached
    -- a state behind the call is old, that of a parameter, or the returned one
    rcases e.get?_resume_eq_or exit ret facts v with hold | ⟨p, hpair, hp⟩ | ⟨hresult, hret⟩
    · exact (ih v s (hold ▸ hv)).stay
    · obtain ⟨value, k', r, rest', hop, htracked⟩ := ih'.1 p s (hp ▸ hv)
      exact .exit hreached hremains he hpair htracked hop
    · obtain ⟨w, k', r, rest', hop, htracked⟩ := ih'.2 s (hret ▸ hv)
      exact .returned hreached hremains he hresult htracked hop
  | nothing =>
    refine ⟨fun v s hv => by simp at hv, fun s hs => ?_⟩
    cases hs
  | @leave f k i rest facts value _ hop ih =>
    refine ⟨fun v s hv => ?_, fun s hs => ?_⟩
    · exact ⟨value, k, i, rest, hop, ih v s (get?_recordExit_eq_some hv).2⟩
    · obtain ⟨v, rfl, hv⟩ := Option.bind_eq_some_iff.1 hs
      exact ⟨v, k, i, rest, hop, ih v s hv⟩
  | @joinExit f exit exit' ret ret' _ _ ih ih' =>
    refine ⟨fun v s hv => ?_, fun s hs => ?_⟩
    · exact (exists_of_get?_join hv).elim (ih.1 v s) (ih'.1 v s)
    · rcases Observation.join_eq_or ret ret' with hj | hj
      · exact ih.2 s (hj ▸ hs)
      · exact ih'.2 s (hj ▸ hs)

/-! ## §3 Cells -/

/-- Across any instruction a closed table keeps a cell for every value that had one. -/
theorem Table.Closed.isSome_next {t : Table} (h : t.Closed program model entries) {f : Function}
    {k : Nat} {i j : Instruction} {rest : List Instruction} (hreached : Reached program entries f k)
    (hremains : Remains f k (i :: rest)) (hnext : Next f k rest j) {v : ValueId}
    (hv : (t.get? i.id v).isSome = true) : (t.get? j.id v).isSome = true := by
  cases he : program.entering? i with
  | some e => exact h.tracked hreached hremains hnext he hv
  | none =>
    by_cases hwrites : i.Writes program model v
    · -- the only instructions that write without entering a body are calls
      unfold Instruction.Writes at hwrites
      rw [he] at hwrites
      cases hop : i.op with
      | call callee args result =>
        rw [hop] at hwrites
        have hbody : program.body? callee = none := by simpa [Program.entering?, hop] using he
        obtain ⟨-, s, -, hs, -⟩ := h.applied hreached hremains hnext hop hbody hwrites
        simp [hs]
      | ret value =>
        rw [hop] at hwrites
        exact hwrites.elim
      | other text =>
        rw [hop] at hwrites
        exact hwrites.elim
    · have hkept := h.kept hreached hremains hnext hwrites
      exact Observation.isSome_of_le (Table.carries_iff.1 hkept) hv

/-- **Tracked values have cells** at whatever instruction comes next. -/
theorem Tracked.isSome {t : Table} (hclosed : t.Closed program model entries) {f : Function}
    {k : Nat} {rest : List Instruction} {v : ValueId}
    (h : Tracked program model entries f k rest v) {j : Instruction} (hnext : Next f k rest j) :
    (t.get? j.id v).isSome = true := by
  -- each rule of tracking is one clause of being closed
  induction h generalizing j with
  | touch hreached hremains hop hbody htouches =>
    obtain ⟨-, s, -, hs, -⟩ := hclosed.applied hreached hremains hnext hop hbody htouches
    simp [hs]
  | stay hbefore ih =>
    obtain ⟨hreached, hremains⟩ := hbefore.reached
    exact hclosed.isSome_next hreached hremains hnext (ih Next.here)
  | jump _ hb ht hb' ih => exact ih (Next.jump hb ht hb' hnext)
  | enter hbefore he hpair hb ih =>
    obtain ⟨hreached, hremains⟩ := hbefore.reached
    have hcarries := hclosed.passed hreached hremains he hb hnext hpair
    exact Observation.isSome_of_le (Table.carries_iff.1 hcarries) (ih Next.here)
  | exit hreached hremains he hpair hinner hop ih =>
    exact hclosed.trackedExit hreached hremains hnext he hpair hinner.reached.2 hop (ih Next.here)
  | returned hreached hremains he hresult hinner hop ih =>
    have hcarries := hclosed.returned hreached hremains hnext he hresult hinner.reached.2 hop
    exact Observation.isSome_of_le (Table.carries_iff.1 hcarries) (ih Next.here)

/-- **A table has a cell exactly where the rules track a value**, which is in reached code only. -/
theorem isSome_iff_tracked {limit : Nat} {t : Table}
    (h : solve program model limit entries = .ok t) (id : InstId) (v : ValueId) :
    (t.get? id v).isSome = true ↔
      ∃ f k i rest, Reached program entries f k ∧ Remains f k (i :: rest) ∧ i.id = id ∧
        Tracked program model entries f k (i :: rest) v := by
  constructor
  · intro hsome
    obtain ⟨s, hs⟩ := Option.isSome_iff_exists.1 hsome
    -- a cell has been gained, and gaining follows the rules of tracking
    obtain ⟨f, k, i, rest, facts, hgained, hid, hv⟩ := Propagation.gained_of_solve h hs
    obtain ⟨hreached, hremains⟩ := hgained.ofReached
    exact ⟨f, k, i, rest, hreached, hremains, hid, hgained.ofTracked v s hv⟩
  · rintro ⟨f, k, i, rest, -, -, rfl, htracked⟩
    obtain ⟨hchecked, p, hp, hidle, rfl⟩ := Propagation.stable_of_solve h
    exact htracked.isSome (hp.closed hchecked hidle) Next.here

/-- Behind its call the result of `taker` is tracked, because the parameter it returns is; on entry
to the call it is not. -/
theorem tracked_giver :
    (∃ f k i rest, Reached giving ["main"] f k ∧ Remains f k (i :: rest) ∧ i.id = ⟨2⟩ ∧
        Tracked giving (.small .full .consuming) ["main"] f k (i :: rest) ⟨2⟩) ∧
      ¬ ∃ f k i rest, Reached giving ["main"] f k ∧ Remains f k (i :: rest) ∧ i.id = ⟨1⟩ ∧
        Tracked giving (.small .full .consuming) ["main"] f k (i :: rest) ⟨2⟩ := by
  refine ⟨(isSome_iff_tracked solve_giving ⟨2⟩ ⟨2⟩).1 (by decide +kernel), ?_⟩
  rw [← isSome_iff_tracked solve_giving ⟨1⟩ ⟨2⟩]
  decide +kernel

end Typestate
