import Typestate.Proofs.Activation

/-!
# Which paths a violation stands for

A *trace* is a path through the program that ignores contexts: control leaves a body only by a return,
but it may come back to any call of that body. A violation in the table is always realised by a trace,
with one proviso. A call into a body is analysed before anything is known of that body, control is
taken past it with the states as they are, and what is found there stays in the table. Such a *loose*
passage is a step of no execution. So the calls that may be passed loosely are a parameter of traces.
Without any, traces are the paths just described. To grant the calls whose body cannot leave its
arguments alone is enough for every violation to be realised; some of them may not be needed.

## Contents

- §1 Traces
- §2 States that realise facts
- §3 Coming back from a body
- §4 Gained facts are realised
- §5 Violations in the table
-/

namespace Typestate

/-! ## §1 Traces -/

/-- Control can get to the rest of block `k` of `f` with the states at the end, if the calls in
`loose` may be passed loosely. -/
inductive Trace (program : Program) (model : CallModel) (entries : List String)
    (loose : Instruction → Prop) : Function → Nat → List Instruction → Facts → Prop where
  | entry {name : String} {f : Function} {b : Block} :
      name ∈ entries → program.body? name = some f → f.blocks[0]? = some b →
      Trace program model entries loose f 0 b.instructions .empty
  | jump {f : Function} {k : Nat} {b b' : Block} {t : UInt64} {env : Facts} :
      Trace program model entries loose f k [] env → f.blocks[k]? = some b →
      t ∈ b.successors → f.blocks[t.toNat]? = some b' →
      Trace program model entries loose f t.toNat b'.instructions env
  | through {f : Function} {k : Nat} {i : Instruction} {rest : List Instruction} {env : Facts} :
      Trace program model entries loose f k (i :: rest) env → program.entering? i = none →
      Trace program model entries loose f k rest (model.through i env)
  | enter {f : Function} {k : Nat} {i : Instruction} {rest : List Instruction} {env : Facts}
      {e : Entering} {b : Block} :
      Trace program model entries loose f k (i :: rest) env → program.entering? i = some e →
      e.target.blocks[0]? = some b →
      Trace program model entries loose e.target 0 b.instructions (e.passed env)
  /-- Control comes back from a return of the body, whoever has called it. -/
  | back {f : Function} {k k' : Nat} {i r : Instruction} {rest rest' : List Instruction}
      {env inner : Facts} {e : Entering} {value : Option ValueId} :
      Trace program model entries loose f k (i :: rest) env → program.entering? i = some e →
      Trace program model entries loose e.target k' (r :: rest') inner → r.op = .ret value →
      Trace program model entries loose f k rest (e.comeBack value inner env)
  /-- A loose call may be stepped over. -/
  | past {f : Function} {k : Nat} {i : Instruction} {rest : List Instruction} {env : Facts}
      {e : Entering} :
      Trace program model entries loose f k (i :: rest) env → program.entering? i = some e →
      loose i → Trace program model entries loose f k rest env
  /-- Control may come back from a loose call without setting its result. -/
  | unbound {f : Function} {k k' : Nat} {i r : Instruction} {rest rest' : List Instruction}
      {env inner : Facts} {e : Entering} {value : Option ValueId} :
      Trace program model entries loose f k (i :: rest) env → program.entering? i = some e →
      Trace program model entries loose e.target k' (r :: rest') inner → r.op = .ret value →
      loose i →
      Trace program model entries loose f k rest
        (readBack (recordExit e.target.params inner .empty) e.pairs env)

/-! ## §2 Realised facts -/

namespace Observation

/-- Nothing has happened to the value yet. -/
def Low (o : Observation) : Prop := o.getD .uninit = .uninit

theorem Low.of_le {a b : Observation} (hb : b.Low) (ha : a.Proper) (hle : a ≤ b) : a.Low := by
  cases a with
  | none => rfl
  | some s =>
    obtain ⟨s', rfl, hs⟩ := Observation.le_iff.1 hle s rfl
    have hb : s' = .uninit := hb
    subst hb
    exact State.le_antisymm hs (ha s rfl)

theorem Low.eq_uninit {o : Observation} (h : o.Low) {s : State} (hs : o = some s) :
    s = .uninit := by
  subst hs
  exact h

theorem eq_violation_of_le {o : Observation} (h : some .violation ≤ o) : o = some .violation := by
  obtain ⟨s, rfl, hs⟩ := Observation.le_iff.1 h _ rfl
  cases s <;> first | rfl | exact absurd hs (by decide)

end Observation

theorem Token.step_eq_violation {mode : Mode} {token : Token} {s : State}
    (h : token.step mode s = .violation) : s = .uninit ∨ s = .violation := by
  cases s <;> first | exact Or.inl rfl | exact Or.inr rfl | (cases token <;> cases mode <;> cases h)

namespace CallModel

variable (m : CallModel) (callee : String) (args : List ValueId) (result : Option ValueId)
variable {v : ValueId} {o o' : Observation}

/-- What nothing has happened to behind a step, nothing had happened to before. -/
theorem low_next (h : o'.Low → o.Low) (ho' : o'.Proper)
    (hlow : m.next callee (o'.getD .uninit) = .uninit) :
    m.next callee (o.getD .uninit) = .uninit := by
  have hle : o'.getD .uninit ≤ m.next callee (o'.getD .uninit) := Token.le_step m.mode _ _
  rw [hlow] at hle
  have hlow' : o'.getD .uninit = .uninit := State.le_antisymm hle ho'.getD
  have hsame : o.getD .uninit = o'.getD .uninit := (h hlow').trans hlow'.symm
  rw [hsame]
  exact hlow

theorem low_effect (h : o'.Low → o.Low) (ho' : o'.Proper) :
    Observation.Low (m.effect callee args result v o') →
      Observation.Low (m.effect callee args result v o) := by
  refine m.effect_rel_of_proper callee args result (v := v) (R := fun o o' => o'.Low → o.Low) id
    ?_ h ho'
  intro o o' h ho'
  exact m.low_next callee h ho'

/-- A violation comes about in the same step wherever nothing more has happened before. -/
theorem violation_effect (h : o'.Low → o.Low) (ho' : o'.Proper)
    (hviolation : o' = some .violation → o = some .violation) :
    m.effect callee args result v o' = some .violation →
      m.effect callee args result v o = some .violation := by
  have hkept := m.effect_rel_of_proper callee args result (v := v)
    (R := fun o o' => (o'.Low → o.Low) ∧ (o' = some .violation → o = some .violation))
    ⟨id, id⟩ ?_ ⟨h, hviolation⟩ ho'
  · exact hkept.2
  · rintro o o' ⟨h, hviolation⟩ ho'
    refine ⟨m.low_next callee h ho', fun hnext => ?_⟩
    have hsame : o.getD .uninit = o'.getD .uninit := by
      -- a step gives a violation from nothing or from a violation, and both sides agree on those
      rcases Token.step_eq_violation (Option.some.inj hnext) with hlow | hviolated
      · exact (h hlow).trans hlow.symm
      · cases o' with
        | none => cases hviolated
        | some s =>
          have hviolated : s = .violation := hviolated
          subst hviolated
          rw [hviolation rfl]
    rw [hsame]
    exact hnext

end CallModel

/-- States from `T` account for the facts: one of them is low wherever the facts are, and every
violation among the facts is a violation in one of them. -/
structure Realised (T : Facts → Prop) (facts : Facts) : Prop where
  low : ∃ env, T env ∧ ∀ v, Observation.Low (facts.get? v) → Observation.Low (env.get? v)
  violation : ∀ v, facts.get? v = some .violation →
    ∃ env, T env ∧ env.get? v = some .violation

namespace Realised

variable {T T' : Facts → Prop} {facts facts' : Facts}

theorem empty (h : T .empty) : Realised T .empty where
  low := ⟨.empty, h, fun _ h => h⟩
  violation := fun v hv => by simp at hv

theorem join (h : Realised T facts) (h' : Realised T facts')
    (hproper : ∀ v, Observation.Proper (facts.get? v)) : Realised T (Facts.join facts facts') where
  low := by
    -- the join is low only where both sides are, so the left account will do
    obtain ⟨env, henv, hlow⟩ := h.low
    exact ⟨env, henv, fun v hv => hlow v (hv.of_le (hproper v) (Facts.le_join_left _ _ v))⟩
  violation := by
    intro v hv
    rw [Facts.get?_join] at hv
    rcases Observation.join_eq_or (facts.get? v) (facts'.get? v) with hj | hj
    · exact h.violation v (hj ▸ hv)
    · exact h'.violation v (hj ▸ hv)

theorem passed {e : Entering} (h : Realised T facts)
    (hproper : ∀ v, Observation.Proper (facts.get? v)) (hT : ∀ env, T env → T' (e.passed env)) :
    Realised T' (e.passed facts) where
  low := by
    obtain ⟨env, henv, hlow⟩ := h.low
    refine ⟨e.passed env, hT env henv, fun p hp => ?_⟩
    cases hv : (e.passed env).get? p with
    | none => rfl
    | some s =>
      -- what a parameter has comes from an argument, which is below what was passed of the facts
      obtain ⟨a, hpair, ha⟩ := get?_passArguments_eq_some hv
      have hle : facts.get? a ≤ (e.passed facts).get? p :=
        le_get?_passArguments hpair facts .empty
      exact (hlow a (hp.of_le (hproper a) hle)).eq_uninit ha
  violation := by
    intro p hp
    obtain ⟨a, hpair, ha⟩ := get?_passArguments_eq_some hp
    obtain ⟨env, henv, hv⟩ := h.violation a ha
    refine ⟨e.passed env, hT env henv, Observation.eq_violation_of_le ?_⟩
    rw [← hv]
    exact le_get?_passArguments hpair env .empty

/-- What an instruction that enters no body makes of the facts is realised by what it makes of the
realising states. -/
theorem through {model : CallModel} {i : Instruction} (h : Realised T facts)
    (hproper : ∀ v, Observation.Proper (facts.get? v))
    (hT : ∀ env, T env → T' (model.through i env)) : Realised T' (model.through i facts) := by
  obtain ⟨env₀, henv₀, hlow⟩ := h.low
  -- the account to use for a violation: the old one if there is one, else the low one
  have haccount : ∀ v, ∃ env, T env ∧
      (Observation.Low (facts.get? v) → Observation.Low (env.get? v)) ∧
      (facts.get? v = some .violation → env.get? v = some .violation) := by
    intro v
    by_cases hv : facts.get? v = some .violation
    · obtain ⟨env, henv, hviolation⟩ := h.violation v hv
      refine ⟨env, henv, fun hlow => ?_, fun _ => hviolation⟩
      cases hlow.eq_uninit hv
    · exact ⟨env₀, henv₀, hlow v, fun hv' => absurd hv' hv⟩
  unfold CallModel.through at hT ⊢
  cases hop : i.op with
  | call callee args result =>
    simp only [hop] at hT ⊢
    refine ⟨⟨_, hT env₀ henv₀, fun v hv => ?_⟩, fun v hv => ?_⟩
    · rw [CallModel.get?_apply] at hv ⊢
      exact model.low_effect callee args result (hlow v) (hproper v) hv
    · obtain ⟨env, henv, hlow', hviolation⟩ := haccount v
      refine ⟨_, hT env henv, ?_⟩
      rw [CallModel.get?_apply] at hv ⊢
      exact model.violation_effect callee args result hlow' (hproper v) hviolation hv
  | ret value =>
    simp only [hop] at hT ⊢
    exact ⟨⟨env₀, hT env₀ henv₀, hlow⟩, fun v hv => (h.violation v hv).imp fun env h =>
      ⟨hT env h.1, h.2⟩⟩
  | other text =>
    simp only [hop] at hT ⊢
    exact ⟨⟨env₀, hT env₀ henv₀, hlow⟩, fun v hv => (h.violation v hv).imp fun env h =>
      ⟨hT env h.1, h.2⟩⟩

end Realised

/-! ## §3 Coming back -/

namespace Entering

variable (e : Entering) {value : Option ValueId} {inner env exit facts : Facts}
variable {ret : Observation} {v : ValueId}

/-- Coming back with states that are low where the facts are, gives states that are low where the
facts behind the call are. -/
theorem low_comeBack (hfacts : ∀ v, Observation.Proper (facts.get? v))
    (hexit : ∀ v, Observation.Proper (exit.get? v))
    (henv : ∀ v, Observation.Low (facts.get? v) → Observation.Low (env.get? v))
    (hinner : ∀ p ∈ e.target.params, Observation.Low (exit.get? p) → Observation.Low (inner.get? p))
    (hvalue : e.result.isSome = true → ret.Low → Observation.Low (value.bind inner.get?))
    (h : Observation.Low ((e.resume exit ret facts).get? v)) :
    Observation.Low ((e.comeBack value inner env).get? v) := by
  -- a bound result has the returned state, any other value an old one or one of its parameters
  by_cases hresult : e.result = some v
  · rw [get?_comeBack, if_pos hresult]
    apply hvalue (by rw [hresult]; rfl)
    cases ret with
    | none => rfl
    | some s =>
      rw [resume, get?_bindResult, if_pos ⟨hresult, rfl⟩] at h
      exact h
  · cases hv : (e.comeBack value inner env).get? v with
    | none => rfl
    | some s =>
      rcases e.get?_comeBack_eq_or value inner env hv with
        ⟨-, hold⟩ | ⟨-, p, hpair, hp⟩ | ⟨w, hw, -, -⟩
      · have hle := e.le_resume hresult exit ret facts
        exact (henv v (h.of_le (hfacts v) hle)).eq_uninit hold
      · have hle := e.exit_le_resume hpair hresult exit ret facts
        exact (hinner p (List.of_mem_zip hpair).2 (h.of_le (hexit p) hle)).eq_uninit hp
      · exact absurd hw hresult

theorem violation_comeBack (hresult : e.result ≠ some v) (h : env.get? v = some .violation) :
    (e.comeBack value inner env).get? v = some .violation := by
  rw [get?_comeBack, if_neg hresult]
  apply Observation.eq_violation_of_le
  rw [← h]
  exact le_readBack _ _ _ v

theorem violation_readBack {p : ValueId} (hpair : (v, p) ∈ e.pairs)
    (h : inner.get? p = some .violation) :
    (readBack (recordExit e.target.params inner .empty) e.pairs env).get? v = some .violation := by
  apply Observation.eq_violation_of_le
  calc some State.violation
    _ = inner.get? p := h.symm
    _ ≤ (recordExit e.target.params inner .empty).get? p :=
      le_get?_recordExit (List.of_mem_zip hpair).2 inner .empty
    _ ≤ (readBack (recordExit e.target.params inner .empty) e.pairs env).get? v :=
      le_get?_readBack hpair _ env

end Entering

/-! ## §4 Gained facts -/

section
variable {program : Program} {model : CallModel} {entries : List String}
variable {loose : Instruction → Prop}

/-- Some trace leaves `f` with the states `inner`, returning `value`. -/
def Leaves (program : Program) (model : CallModel) (entries : List String)
    (loose : Instruction → Prop) (f : Function) (value : Option ValueId) (inner : Facts) : Prop :=
  ∃ (k : Nat) (r : Instruction) (rest : List Instruction),
    Trace program model entries loose f k (r :: rest) inner ∧ r.op = .ret value

/-- The call sets no result, and its body can be left without anything having happened to any of its
parameters. -/
def Entering.Harmless (program : Program) (model : CallModel) (entries : List String)
    (loose : Instruction → Prop) (e : Entering) : Prop :=
  e.result = none ∧ ∃ value inner, Leaves program model entries loose e.target value inner ∧
    ∀ p ∈ e.target.params, Observation.Low (inner.get? p)

/-- What is known at the returns of a function is accounted for by ways to leave it. -/
structure RealisedExit (L : Option ValueId → Facts → Prop) (params : List ValueId) (exit : Facts)
    (ret : Observation) : Prop where
  low : (exit = .empty ∧ ret = none) ∨ ∃ value inner, L value inner ∧
    (∀ p ∈ params, Observation.Low (exit.get? p) → Observation.Low (inner.get? p)) ∧
    (ret.Low → Observation.Low (value.bind inner.get?))
  violation : ∀ p, exit.get? p = some .violation →
    ∃ value inner, L value inner ∧ inner.get? p = some .violation
  returned : ret = some .violation →
    ∃ value inner, L value inner ∧ value.bind inner.get? = some .violation

namespace RealisedExit

variable {L : Option ValueId → Facts → Prop} {params : List ValueId} {exit exit' facts : Facts}
variable {ret ret' : Observation}

theorem join (h : RealisedExit L params exit ret) (h' : RealisedExit L params exit' ret')
    (hexit : ∀ v, Observation.Proper (exit.get? v)) (hret : ret.Proper) :
    RealisedExit L params (Facts.join exit exit') (Observation.join ret ret') where
  low := by
    rcases h.low with ⟨rfl, rfl⟩ | ⟨value, inner, hL, hlow, hvalue⟩
    · rw [Facts.empty_join, Observation.none_join]
      exact h'.low
    · refine Or.inr ⟨value, inner, hL, ?_, ?_⟩
      · intro p hp hjoin
        exact hlow p hp (hjoin.of_le (hexit p) (Facts.le_join_left _ _ p))
      · intro hjoin
        exact hvalue (hjoin.of_le hret (Observation.le_join_left _ _))
  violation := by
    intro p hp
    rw [Facts.get?_join] at hp
    rcases Observation.join_eq_or (exit.get? p) (exit'.get? p) with hj | hj
    · exact h.violation p (hj ▸ hp)
    · exact h'.violation p (hj ▸ hp)
  returned := by
    intro hviolation
    rcases Observation.join_eq_or ret ret' with hj | hj
    · exact h.returned (hj ▸ hviolation)
    · exact h'.returned (hj ▸ hviolation)

/-- What a return records is accounted for by the states that account for the facts there. -/
theorem leave {T : Facts → Prop} {value : Option ValueId} (h : Realised T facts)
    (hproper : ∀ v, Observation.Proper (facts.get? v)) (hL : ∀ env, T env → L value env) :
    RealisedExit L params (recordExit params facts .empty) (value.bind facts.get?) where
  low := by
    obtain ⟨env, henv, hlow⟩ := h.low
    -- the states at the return are those that account for the facts there
    refine Or.inr ⟨value, env, hL env henv, ?_, ?_⟩
    · intro p hp hexit
      exact hlow p (hexit.of_le (hproper p) (le_get?_recordExit hp facts .empty))
    · intro hvalue
      cases value with
      | none => rfl
      | some v => exact hlow v hvalue
  violation := by
    intro p hp
    obtain ⟨env, henv, hv⟩ := h.violation p (get?_recordExit_eq_some hp).2
    exact ⟨value, env, hL env henv, hv⟩
  returned := by
    intro hviolation
    obtain ⟨v, rfl, hv⟩ := Option.bind_eq_some_iff.1 hviolation
    obtain ⟨env, henv, hv⟩ := h.violation v hv
    exact ⟨some v, env, hL env henv, hv⟩

end RealisedExit

theorem Trace.comeBack {f : Function} {k : Nat} {i : Instruction} {rest : List Instruction}
    {e : Entering} {value : Option ValueId} {env inner : Facts}
    (h : Trace program model entries loose f k (i :: rest) env)
    (he : program.entering? i = some e)
    (hleaves : Leaves program model entries loose e.target value inner) :
    Trace program model entries loose f k rest (e.comeBack value inner env) := by
  obtain ⟨k', r, rest', hinner, hop⟩ := hleaves
  exact h.back he hinner hop

/-- Either nothing is known of a body and a call into it is passed loosely, or there is a way to leave
the body that is low wherever what is known of its returns is. -/
theorem RealisedExit.exists_way {i : Instruction} {e : Entering} {exit : Facts} {ret : Observation}
    (hexit : RealisedExit (Leaves program model entries loose e.target) e.target.params exit ret)
    (hloose : loose i ∨ e.Harmless program model entries loose) :
    (loose i ∧ exit = .empty ∧ ret = none) ∨
      ∃ value inner, Leaves program model entries loose e.target value inner ∧
        (∀ p ∈ e.target.params, Observation.Low (exit.get? p) → Observation.Low (inner.get? p)) ∧
        (e.result.isSome = true → ret.Low → Observation.Low (value.bind inner.get?)) := by
  rcases hexit.low with ⟨hexit, hret⟩ | ⟨value, inner, hleaves, hinner, hvalue⟩
  · rcases hloose with hloose | ⟨hresult, value, inner, hleaves, hinner⟩
    · exact Or.inl ⟨hloose, hexit, hret⟩
    · -- a harmless body can be left with its parameters as they were, and there is no result
      refine Or.inr ⟨value, inner, hleaves, fun p hp _ => hinner p hp, fun hsome => ?_⟩
      rw [hresult] at hsome
      cases hsome
  · exact Or.inr ⟨value, inner, hleaves, hinner, fun _ => hvalue⟩

/-- Facts behind a call into a body are realised, if the call may be passed loosely or is harmless. -/
theorem Realised.resume {f : Function} {k : Nat} {i : Instruction} {rest : List Instruction}
    {e : Entering} {facts exit : Facts} {ret : Observation}
    (h : Realised (Trace program model entries loose f k (i :: rest)) facts)
    (he : program.entering? i = some e)
    (hexit : RealisedExit (Leaves program model entries loose e.target) e.target.params exit ret)
    (hfacts : ∀ v, Observation.Proper (facts.get? v))
    (hproper : ∀ v, Observation.Proper (exit.get? v))
    (hloose : loose i ∨ e.Harmless program model entries loose) :
    Realised (Trace program model entries loose f k rest) (e.resume exit ret facts) := by
  obtain ⟨env₀, henv₀, hlow⟩ := h.low
  have hway := hexit.exists_way hloose
  refine ⟨?_, fun v hv => ?_⟩
  · rcases hway with ⟨hloose, rfl, rfl⟩ | ⟨value, inner, hleaves, hinner, hvalue⟩
    · rw [e.resume_empty]
      exact ⟨env₀, henv₀.past he hloose, hlow⟩
    · refine ⟨_, henv₀.comeBack he hleaves, fun v hv => ?_⟩
      exact e.low_comeBack hfacts hproper hlow hinner hvalue hv
  · rw [Entering.resume, get?_bindResult] at hv
    by_cases hresult : e.result = some v
    · cases hret : ret with
      | some s =>
        rw [hret, if_pos ⟨hresult, rfl⟩, ← hret] at hv
        obtain ⟨value, inner, hleaves, hvalue⟩ := hexit.returned hv
        refine ⟨_, henv₀.comeBack he hleaves, ?_⟩
        rw [Entering.get?_comeBack, if_pos hresult]
        exact hvalue
      | none =>
        -- the result has kept what it had, which only a loose call lets happen
        have hloose : loose i := by
          refine hloose.resolve_right fun hharmless => ?_
          rw [hharmless.1] at hresult
          cases hresult
        rw [hret, if_neg (by simp)] at hv
        rcases get?_readBack_eq_or exit e.pairs facts v with hold | ⟨p, hpair, hp⟩
        · obtain ⟨env, henv, hviolation⟩ := h.violation v (hold ▸ hv)
          exact ⟨env, henv.past he hloose, hviolation⟩
        · obtain ⟨value, inner, ⟨k', r, rest', hinner, hop⟩, hviolation⟩ :=
            hexit.violation p (hp ▸ hv)
          exact ⟨_, henv₀.unbound he hinner hop hloose, e.violation_readBack hpair hviolation⟩
    · -- the violation was there before the call, or a parameter brings it back
      rw [if_neg fun hv => hresult hv.1] at hv
      rcases get?_readBack_eq_or exit e.pairs facts v with hold | ⟨p, hpair, hp⟩
      · obtain ⟨env, henv, hviolation⟩ := h.violation v (hold ▸ hv)
        rcases hway with ⟨hloose, -, -⟩ | ⟨value, inner, hleaves, -, -⟩
        · exact ⟨env, henv.past he hloose, hviolation⟩
        · exact ⟨_, henv.comeBack he hleaves, e.violation_comeBack hresult hviolation⟩
      · obtain ⟨value, inner, hleaves, hviolation⟩ := hexit.violation p (hp ▸ hv)
        refine ⟨_, henv₀.comeBack he hleaves, ?_⟩
        rw [Entering.get?_comeBack, if_neg hresult]
        exact e.violation_readBack hpair hviolation

/-- Knowledge that traces account for. -/
def Knowledge.Traced (program : Program) (model : CallModel) (entries : List String)
    (loose : Instruction → Prop) : Knowledge → Prop
  | .entry f facts =>
    Realised
      (fun env => ∀ b, f.blocks[0]? = some b →
        Trace program model entries loose f 0 b.instructions env) facts
  | .before f k rest facts =>
    Realised (Trace program model entries loose f k rest) facts
  | .exit f known ret =>
    RealisedExit (Leaves program model entries loose f) f.params known ret

/-- **Traces account for everything that is gained.** -/
theorem Gained.traced
    (hloose : ∀ {f k i rest e}, Reached program entries f k → Remains f k (i :: rest) →
      program.entering? i = some e → loose i ∨ e.Harmless program model entries loose)
    {know : Knowledge} (h : Gained program model entries know) :
    know.Traced program model entries loose := by
  -- each rule of gaining is followed by the trace that takes the same step
  induction h with
  | start hname hbody => exact Realised.empty fun b hb => Trace.entry hname hbody hb
  | enter hbefore he ih =>
    exact Realised.passed ih hbefore.proper fun env henv b hb => henv.enter he hb
  | joinEntry hentry _ ih ih' => exact Realised.join ih ih' hentry.proper
  | begin _ hb ih =>
    exact ⟨ih.low.imp fun env h => ⟨h.1 _ hb, h.2⟩,
      fun v hv => (ih.violation v hv).imp fun env h => ⟨h.1 _ hb, h.2⟩⟩
  | jump _ hb ht hb' ih =>
    exact ⟨ih.low.imp fun env h => ⟨h.1.jump hb ht hb', h.2⟩,
      fun v hv => (ih.violation v hv).imp fun env h => ⟨h.1.jump hb ht hb', h.2⟩⟩
  | joinBefore hbefore _ ih ih' => exact Realised.join ih ih' hbefore.proper
  | through hbefore he ih =>
    exact Realised.through ih hbefore.proper fun env henv => henv.through he
  | resume hbefore he hexit ih ih' =>
    obtain ⟨hreached, hremains⟩ := hbefore.ofReached
    exact Realised.resume ih he ih' hbefore.proper hexit.proper.1 (hloose hreached hremains he)
  | nothing =>
    refine ⟨Or.inl ⟨rfl, rfl⟩, fun p hp => by simp at hp, ?_⟩
    intro hviolation
    cases hviolation
  | leave hbefore hop ih =>
    exact RealisedExit.leave ih hbefore.proper fun env henv => ⟨_, _, _, henv, hop⟩
  | joinExit hexit _ ih ih' => exact RealisedExit.join ih ih' hexit.proper.1 hexit.proper.2

/-! ## §5 Violations -/

/-- **Every violation in a table is realised** by a trace that passes loosely only calls in `loose`,
when all reached calls into bodies are in it or harmless. If all of them are harmless, nothing need be
in it. -/
theorem violation_realised
    (hloose : ∀ {f k i rest e}, Reached program entries f k → Remains f k (i :: rest) →
      program.entering? i = some e → loose i ∨ e.Harmless program model entries loose)
    {limit : Nat} {t : Table} (h : solve program model limit entries = .ok t) {id : InstId}
    {v : ValueId} (hcell : t.get? id v = some .violation) :
    ∃ f k i rest env, Trace program model entries loose f k (i :: rest) env ∧ i.id = id ∧
      env.get? v = some .violation := by
  obtain ⟨f, k, i, rest, facts, hgained, hid, hv⟩ := Propagation.gained_of_solve h hcell
  have hrealised : Realised (Trace program model entries loose f k (i :: rest)) facts :=
    hgained.traced hloose
  obtain ⟨env, htrace, hviolation⟩ := hrealised.violation v hv
  exact ⟨f, k, i, rest, env, htrace, hid, hviolation⟩

end

/-- A body that does nothing to its parameter. -/
def looker : Function where
  name := "look"
  params := [⟨1⟩]
  outputArg := none
  blocks := [{ instructions := [⟨⟨3⟩, .ret none⟩], successors := [] }]

/-- A body that shows a value to `looker` and releases it, although nothing was extracted from it. -/
def shower : Function where
  name := "main"
  params := []
  outputArg := none
  blocks := [
    { instructions := [
        ⟨⟨0⟩, .call "look" [⟨0⟩] none⟩,
        ⟨⟨1⟩, .call "release" [⟨0⟩] none⟩,
        ⟨⟨2⟩, .ret none⟩]
      successors := [] }]

def showing : Program := ⟨[shower, looker], .empty⟩

def showingTable : Table := ⟨FiniteMap.ofList [(⟨⟨2⟩, ⟨0⟩⟩, .violation)]⟩

theorem solve_showing :
    solve showing (.small .full .consuming) 100 ["main"] = .ok showingTable :=
  eq_ok_of_toOption (by decide +kernel)

/-- The one call into a body that `showing` has. -/
theorem entering_showing {f : Function} {i : Instruction} {e : Entering}
    (h : (f, i) ∈ showing.instructions) (he : showing.entering? i = some e) :
    e = ⟨looker, [⟨0⟩], none⟩ := by
  have hinstructions : showing.instructions =
      [(shower, ⟨⟨0⟩, .call "look" [⟨0⟩] none⟩), (shower, ⟨⟨1⟩, .call "release" [⟨0⟩] none⟩),
        (shower, ⟨⟨2⟩, .ret none⟩), (looker, ⟨⟨3⟩, .ret none⟩)] := rfl
  rw [hinstructions] at h
  simp only [List.mem_cons, Prod.mk.injEq, List.not_mem_nil, or_false] at h
  rcases h with ⟨-, rfl⟩ | ⟨-, rfl⟩ | ⟨-, rfl⟩ | ⟨-, rfl⟩
  · exact (Option.some.inj he).symm
  · cases he
  · cases he
  · cases he

/-- That call is harmless, so the violation of the release is realised without loose calls. -/
theorem violation_shower :
    ∃ f k i rest env,
      Trace showing (.small .full .consuming) ["main"] (fun _ => False) f k (i :: rest) env ∧
        i.id = ⟨2⟩ ∧ env.get? ⟨0⟩ = some .violation := by
  refine violation_realised (fun hreached hremains he => Or.inr ?_) solve_showing rfl
  rw [entering_showing (hremains.mem_instructions hreached.body) he]
  -- the body that is entered returns with its parameter untouched
  have hmain : Trace showing (.small .full .consuming) ["main"] (fun _ => False) shower 0
      shower.instructions .empty :=
    .entry (b := ⟨shower.instructions, []⟩) (List.mem_singleton.2 rfl) rfl rfl
  have hlook := hmain.enter (b := ⟨looker.instructions, []⟩) (e := ⟨looker, [⟨0⟩], none⟩) rfl rfl
  refine ⟨rfl, none, _, ⟨0, _, _, hlook, rfl⟩, ?_⟩
  intro p hp
  rw [List.mem_singleton.1 hp]
  rfl

/-- A body that extracts from its parameter. -/
def borrower : Function where
  name := "borrow"
  params := [⟨1⟩]
  outputArg := none
  blocks := [
    { instructions := [⟨⟨3⟩, .call "extract" [⟨1⟩] none⟩, ⟨⟨4⟩, .ret none⟩]
      successors := [] }]

/-- A body that lends a value to `borrower` and releases it. -/
def lender : Function where
  name := "main"
  params := []
  outputArg := none
  blocks := [
    { instructions := [
        ⟨⟨0⟩, .call "borrow" [⟨0⟩] none⟩,
        ⟨⟨1⟩, .call "release" [⟨0⟩] none⟩,
        ⟨⟨2⟩, .ret none⟩]
      successors := [] }]

def lending : Program := ⟨[lender, borrower], .empty⟩

/-- The table of `lending`. -/
def lendingTable : Table :=
  ⟨FiniteMap.ofList
    [(⟨⟨1⟩, ⟨0⟩⟩, .rawReferenced), (⟨⟨2⟩, ⟨0⟩⟩, .violation), (⟨⟨4⟩, ⟨1⟩⟩, .rawReferenced)]⟩

theorem solve_lending :
    solve lending (.small .full .consuming) 100 ["main"] = .ok lendingTable :=
  eq_ok_of_toOption (by decide +kernel)

/-- The states with which `borrower` is left. -/
def borrowed : Facts := FiniteMap.ofList [(⟨1⟩, .rawReferenced)]

/-- Everything a trace of `lending` comes to, if no call is loose. -/
def lendingMoments : List (Function × List Instruction × Facts) :=
  let released : Facts := FiniteMap.ofList [(⟨0⟩, .dropped)]
  [(lender, lender.instructions, .empty),
    (lender, lender.instructions.drop 1, FiniteMap.ofList [(⟨0⟩, .rawReferenced)]),
    (lender, lender.instructions.drop 2, released), (lender, [], released),
    (borrower, borrower.instructions, .empty),
    (borrower, borrower.instructions.drop 1, borrowed), (borrower, [], borrowed)]

theorem lendingMoments_through : ∀ m ∈ lendingMoments, ∀ i ∈ m.2.1.head?,
    lending.entering? i = none →
      (m.1, m.2.1.tail, CallModel.through (.small .full .consuming) i m.2.2) ∈ lendingMoments := by
  decide +kernel

theorem lendingMoments_enter : ∀ m ∈ lendingMoments, ∀ i ∈ m.2.1.head?,
    ∀ e ∈ lending.entering? i, ∀ b ∈ e.target.blocks[0]?,
      (e.target, b.instructions, e.passed m.2.2) ∈ lendingMoments := by
  decide +kernel

theorem lendingMoments_back : ∀ m ∈ lendingMoments, ∀ i ∈ m.2.1.head?,
    ∀ e ∈ lending.entering? i, e.target = borrower ∧
      (m.1, m.2.1.tail, e.comeBack none borrowed m.2.2) ∈ lendingMoments := by
  decide +kernel

theorem lendingMoments_ret : ∀ m ∈ lendingMoments, m.1 = borrower → ∀ r ∈ m.2.1.head?,
    ∀ value, r.op = .ret value → value = none ∧ m.2.2 = borrowed := by
  have hops : ∀ m ∈ lendingMoments, m.1 = borrower → ∀ r ∈ m.2.1.head?,
      r.op = .call "extract" [⟨1⟩] none ∨ r.op = .ret none ∧ m.2.2 = borrowed := by
    decide +kernel
  intro m hm hborrower r hr value hop
  rcases hops m hm hborrower r hr with hcall | ⟨hret, hborrowed⟩
  · rw [hop] at hcall
    cases hcall
  · rw [hop] at hret
    cases hret
    exact ⟨rfl, hborrowed⟩

theorem mem_lendingMoments {f : Function} {k : Nat} {rest : List Instruction} {env : Facts}
    (h : Trace lending (.small .full .consuming) ["main"] (fun _ => False) f k rest env) :
    (f, rest, env) ∈ lendingMoments := by
  induction h with
  | entry hname hbody hb =>
    rw [List.mem_singleton.1 hname] at hbody
    cases hbody
    cases hb
    decide +kernel
  | jump _ hb ht _ ih =>
    -- there are no jumps, and each other step stays in the list
    have hsuccessors : ∀ m ∈ lendingMoments, ∀ b ∈ m.1.blocks, b.successors = [] := by
      decide +kernel
    rw [hsuccessors _ ih _ (List.mem_of_getElem? hb)] at ht
    cases ht
  | through _ he ih => exact lendingMoments_through _ ih _ rfl he
  | enter _ he hb ih => exact lendingMoments_enter _ ih _ rfl _ he _ hb
  | back _ he _ hop ih ih' =>
    obtain ⟨htarget, hback⟩ := lendingMoments_back _ ih _ rfl _ he
    obtain ⟨rfl, rfl⟩ := lendingMoments_ret _ ih' htarget _ rfl _ hop
    exact hback
  | past _ _ hloose => exact hloose.elim
  | unbound _ _ _ _ hloose => exact hloose.elim

/-- Passed over before the body of `borrower` is known, the call leaves a violation behind that no
trace without loose calls realises. -/
theorem violation_lender :
    ∃ t, solve lending (.small .full .consuming) 100 ["main"] = .ok t ∧
      t.get? ⟨2⟩ ⟨0⟩ = some .violation ∧
      ¬ ∃ f k i rest env,
        Trace lending (.small .full .consuming) ["main"] (fun _ => False) f k (i :: rest) env ∧
          i.id = ⟨2⟩ ∧ env.get? ⟨0⟩ = some .violation := by
  refine ⟨lendingTable, solve_lending, by decide +kernel, ?_⟩
  rintro ⟨f, k, i, rest, env, htrace, hid, hviolation⟩
  have hmoments : ∀ m ∈ lendingMoments, ∀ i ∈ m.2.1.head?, i.id = ⟨2⟩ →
      m.2.2.get? ⟨0⟩ ≠ some .violation := by
    decide +kernel
  exact hmoments _ (mem_lendingMoments htrace) _ rfl hid hviolation

end Typestate
