import Typestate.Proofs.Closure
import Typestate.Proofs.Provenance
import Typestate.Proofs.Reordering

/-!
# How far a table depends on the order of iteration

Two runs over the same code, with the successors of blocks or the entry points in another order, visit
blocks and functions in another order. Since steps are not monotone, what the table has joined on the
way can differ. This module bounds how far: the same cells exist, and where two states differ, one of
them is a violation or both are memory errors. Not every such difference need occur.

Every cell of the first table has been gained, and every rule of gaining is bounded by the second
table, which is closed. The two facts are proved apart, so no run is compared with another one.

## Contents

- §1 States up to the kind of a memory error
- §2 What the second table bounds
- §3 Gained knowledge is bounded
- §4 Two runs
-/

namespace Typestate

/-! ## §1 States up to the kind of a memory error -/

namespace State

/-- The state, with a double free counted as a use after free. -/
def cap : State → State
  | doubleFree => useAfterFree
  | s => s

/-- Steps are monotone up to the kind of a memory error, as long as they lead to no violation. -/
theorem cap_step (mode : Mode) (token : Token) {s s' : State} (h : s.cap ≤ s')
    (hs' : State.uninit ≤ s') (hstep : token.step mode s ≠ .violation) :
    (token.step mode s).cap ≤ token.step mode s' := by
  cases s <;> cases s' <;>
    first
    | exact absurd hs' (by decide)
    | exact absurd h (by decide)
    | (cases token <;> cases mode <;> first | decide | exact absurd rfl hstep)

/-- States that bound each other differ in the kind of a memory error at most. -/
theorem eq_or_of_cap_le {s s' : State} (h : s.cap ≤ s') (h' : s'.cap ≤ s) :
    s = s' ∨ s.isMemoryError = true ∧ s'.isMemoryError = true := by
  cases s <;> cases s' <;>
    first
    | exact Or.inl rfl
    | exact Or.inr ⟨rfl, rfl⟩
    | exact absurd h (by decide)
    | exact absurd h' (by decide)

/-- What two states that bound each other still have in common without double frees: everything. -/
theorem eq_of_isMemoryError {s s' : State} (h : s.isMemoryError = true)
    (h' : s'.isMemoryError = true) (hfree : s ≠ .doubleFree) (hfree' : s' ≠ .doubleFree) :
    s = s' := by
  have huse : ∀ {s : State}, s.isMemoryError = true → s ≠ .doubleFree → s = .useAfterFree := by
    intro s h hfree
    cases s <;> first | rfl | exact absurd rfl hfree | cases h
  rw [huse h hfree, huse h' hfree']

end State

/-- Where `o` has a state so has `o'`, and under `strict` it is at least that state, violations and
the kind of a memory error apart. -/
def Observation.Bounded (strict : Prop) (o o' : Observation) : Prop :=
  ∀ s, o = some s → ∃ s', o' = some s' ∧ (strict → s ≠ .violation → s.cap ≤ s')

namespace Observation.Bounded

variable {strict : Prop} {o a b : Observation}

theorem mono (h : Bounded strict o a) (hle : a ≤ b) : Bounded strict o b := by
  intro s hs
  obtain ⟨s', rfl, hs'⟩ := h s hs
  obtain ⟨s'', rfl, hle⟩ := Observation.le_iff.1 hle s' rfl
  exact ⟨s'', rfl, fun hstrict hviolation => State.le_trans (hs' hstrict hviolation) hle⟩

theorem join {o' : Observation} (h : Bounded strict o b) (h' : Bounded strict o' b) :
    Bounded strict (Observation.join o o') b := by
  rcases Observation.join_eq_or o o' with hj | hj
  · rwa [hj]
  · rwa [hj]

/-- Where nothing is claimed about the order, it is enough that there is a state. -/
theorem of_isSome (hstrict : ¬ strict) (h : a.isSome = true) : Bounded strict o a := by
  obtain ⟨s', hs'⟩ := Option.isSome_iff_exists.1 h
  exact fun s _ => ⟨s', hs', fun h => absurd h hstrict⟩

theorem isSome {s : State} (h : Bounded strict (some s) a) : a.isSome = true := by
  obtain ⟨s', rfl, -⟩ := h s rfl
  rfl

end Observation.Bounded

theorem CallModel.bounded_effect (m : CallModel) (callee : String) (args : List ValueId)
    (result : Option ValueId) (v : ValueId) {strict : Prop} {o o' : Observation}
    (h : Observation.Bounded strict o o') (ho' : o'.Proper) :
    Observation.Bounded strict (m.effect callee args result v o)
      (m.effect callee args result v o') := by
  refine m.effect_rel_of_proper callee args result (R := Observation.Bounded strict)
    (fun s hs => nomatch hs) ?_ h ho'
  rintro o o' h ho' _ ⟨⟩
  refine ⟨_, rfl, fun hstrict hstep => State.cap_step m.mode _ ?_ ho'.getD hstep⟩
  cases o with
  | none => exact ho'.getD
  | some s =>
    obtain ⟨s', rfl, hs'⟩ := h s rfl
    refine hs' hstrict ?_
    -- a violation absorbs every step, so it cannot have been there before
    rintro rfl
    exact hstep rfl

/-! ## §2 What a table bounds -/

open Program.Reordered (Twin)

/-- The result of a reached call into a body is none of its arguments, and the table knows nothing
about it before the call. -/
def FreshResults (program : Program) (entries : List String) (t : Table) : Prop :=
  ∀ ⦃f k i rest e w⦄, Reached program entries f k → Remains f k (i :: rest) →
    program.entering? i = some e → e.result = some w → t.get? i.id w = none ∧ w ∉ e.args

namespace Table

variable {t : Table} {strict : Prop} {f : Function} {k : Nat} {rest : List Instruction}

/-- The facts are bounded wherever control may go next. -/
def Bounds (t : Table) (strict : Prop) (f : Function) (k : Nat) (rest : List Instruction)
    (facts : Facts) : Prop :=
  ∀ j, Next f k rest j → ∀ v, Observation.Bounded strict (facts.get? v) (t.get? j.id v)

/-- What is known of the returns is bounded at one of them. -/
structure BoundsExit (t : Table) (strict : Prop) (f : Function) (exit : Facts)
    (ret : Observation) : Prop where
  param : ∀ p s, exit.get? p = some s → ∃ k r rest value, Remains f k (r :: rest) ∧
    r.op = .ret value ∧ Observation.Bounded strict (some s) (t.get? r.id p)
  value : ∀ s, ret = some s → ∃ k r rest w, Remains f k (r :: rest) ∧
    r.op = .ret (some w) ∧ Observation.Bounded strict (some s) (t.get? r.id w)

theorem Bounds.join {facts facts' : Facts} (h : t.Bounds strict f k rest facts)
    (h' : t.Bounds strict f k rest facts') : t.Bounds strict f k rest (Facts.join facts facts') := by
  intro j hnext v
  rw [Facts.get?_join]
  exact (h j hnext v).join (h' j hnext v)

/-- What bounds two exits bounds their join, since a join is one of its two sides. -/
theorem BoundsExit.join {exit exit' : Facts} {ret ret' : Observation}
    (h : t.BoundsExit strict f exit ret) (h' : t.BoundsExit strict f exit' ret') :
    t.BoundsExit strict f (Facts.join exit exit') (Observation.join ret ret') where
  param := by
    intro p s hs
    rw [Facts.get?_join] at hs
    rcases Observation.join_eq_or (exit.get? p) (exit'.get? p) with hj | hj
    · exact h.param p s (hj ▸ hs)
    · exact h'.param p s (hj ▸ hs)
  value := by
    intro s hs
    rcases Observation.join_eq_or ret ret' with hj | hj
    · exact h.value s (hj ▸ hs)
    · exact h'.value s (hj ▸ hs)

/-- What bounds the facts at a return bounds what is recorded there. -/
theorem Bounds.leave {r : Instruction} {facts : Facts} {value : Option ValueId}
    (h : t.Bounds strict f k (r :: rest) facts) (hremains : Remains f k (r :: rest))
    (hop : r.op = .ret value) (params : List ValueId) :
    t.BoundsExit strict f (recordExit params facts .empty) (value.bind facts.get?) where
  param := by
    intro p s hs
    have hbound := h r Next.here p
    rw [(get?_recordExit_eq_some hs).2] at hbound
    exact ⟨k, r, rest, value, hremains, hop, hbound⟩
  value := by
    intro s hs
    obtain ⟨w, rfl, hw⟩ := Option.bind_eq_some_iff.1 hs
    have hbound := h r Next.here w
    rw [hw] at hbound
    exact ⟨k, r, rest, w, hremains, hop, hbound⟩

section
variable {program : Program} {model : CallModel} {entries : List String} {i : Instruction}
variable {facts : Facts} {e : Entering}

theorem Bounds.enter (hclosed : t.Closed program model entries)
    (hreached : Reached program entries f k) (hremains : Remains f k (i :: rest))
    (he : program.entering? i = some e) (h : t.Bounds strict f k (i :: rest) facts) {b : Block}
    (hb : e.target.blocks[0]? = some b) :
    t.Bounds strict e.target 0 b.instructions (e.passed facts) := by
  intro j hnext v s hs
  obtain ⟨a, hpair, ha⟩ := get?_passArguments_eq_some hs
  have hcarries := hclosed.passed hreached hremains he hb hnext hpair
  exact (h i Next.here a).mono (Table.carries_iff.1 hcarries) s ha

theorem Bounds.through (hclosed : t.Closed program model entries)
    (hproper : ∀ id v, Observation.Proper (t.get? id v)) (hreached : Reached program entries f k)
    (hremains : Remains f k (i :: rest)) (he : program.entering? i = none)
    (h : t.Bounds strict f k (i :: rest) facts) :
    t.Bounds strict f k rest (model.through i facts) := by
  intro j hnext v
  refine (hclosed.through (R := fun o o' => Observation.Bounded strict o o' ∧ o'.Proper) ?_ ?_
    hreached hremains hnext he ⟨h i Next.here v, hproper i.id v⟩).1
  · intro o a id w hbound hmore
    exact ⟨hbound.1.mono hmore, hproper id w⟩
  · intro callee args result w o o' hbound
    exact ⟨model.bounded_effect callee args result w hbound.1 hbound.2,
      model.proper_effect callee args result w hbound.2⟩

/-- Behind a call into a body everything is bounded; that the result is fresh is needed where it
keeps what it had because nothing is known yet of the returned value. -/
theorem Bounds.resume (hclosed : t.Closed program model entries)
    (hfresh : strict → FreshResults program entries t) (hreached : Reached program entries f k)
    (hremains : Remains f k (i :: rest)) (he : program.entering? i = some e)
    (h : t.Bounds strict f k (i :: rest) facts) {exit : Facts} {ret : Observation}
    (hexit : t.BoundsExit strict e.target exit ret) :
    t.Bounds strict f k rest (e.resume exit ret facts) := by
  intro j hnext v s hs
  rw [Entering.resume, get?_bindResult] at hs
  by_cases hresult : e.result = some v
  · cases hret : ret with
    | some s' =>
      rw [hret, if_pos ⟨hresult, rfl⟩, ← hret] at hs
      obtain ⟨k', r, rest', w, hremains', hop, hbound⟩ := hexit.value s hs
      have hcarries := hclosed.returned hreached hremains hnext he hresult hremains' hop
      exact hbound.mono (Table.carries_iff.1 hcarries) s rfl
    | none =>
      rw [hret, if_neg (by simp)] at hs
      rcases get?_readBack_eq_or exit e.pairs facts v with hold | ⟨p, hpair, hp⟩
      · -- the result was tracked before the call, so it is behind it, with whatever state
        have hbound := h i Next.here v
        rw [← hold, hs] at hbound
        have htracked := hbound.isSome
        refine Observation.Bounded.of_isSome (o := some s) (fun hstrict => ?_)
          (hclosed.tracked hreached hremains hnext he htracked) s rfl
        rw [(hfresh hstrict hreached hremains he hresult).1] at htracked
        cases htracked
      · -- the result is an argument
        rw [hp] at hs
        obtain ⟨k', r, rest', value, hremains', hop, hbound⟩ := hexit.param p s hs
        refine Observation.Bounded.of_isSome (o := some s) (fun hstrict => ?_)
          (hclosed.trackedExit hreached hremains hnext he hpair hremains' hop hbound.isSome) s rfl
        exact (hfresh hstrict hreached hremains he hresult).2 (List.of_mem_zip hpair).1
  · rw [if_neg fun hv => hresult hv.1] at hs
    rcases get?_readBack_eq_or exit e.pairs facts v with hold | ⟨p, hpair, hp⟩
    · have hcarries := hclosed.carries_of_result_ne hreached hremains hnext he hresult
      exact (h i Next.here v).mono (Table.carries_iff.1 hcarries) s (hold ▸ hs)
    · obtain ⟨k', r, rest', value, hremains', hop, hbound⟩ := hexit.param p s (hp ▸ hs)
      have hcarries := hclosed.exit hreached hremains hnext he hpair hresult hremains' hop
      exact hbound.mono (Table.carries_iff.1 hcarries) s rfl

end

end Table

/-! ## §3 Gained knowledge -/

/-- Knowledge that a table of the reordered program bounds. -/
def Knowledge.Bounded (program' : Program) (strict : Prop) (t : Table) : Knowledge → Prop
  | .entry f facts => ∀ f', Twin program' f f' → ∀ b, f'.blocks[0]? = some b →
    t.Bounds strict f' 0 b.instructions facts
  | .before f k rest facts => ∀ f', Twin program' f f' → t.Bounds strict f' k rest facts
  | .exit f known ret => ∀ f', Twin program' f f' → t.BoundsExit strict f' known ret

section
variable {program program' : Program} {model : CallModel} {entries entries' : List String}

/-- **What is gained in one program is bounded by any closed table of the other.** -/
theorem Gained.bounded (hprogram : program.Reordered program')
    (hentries : ∀ name ∈ entries, name ∈ entries') {t : Table} {strict : Prop}
    (hclosed : t.Closed program' model entries')
    (hproper : ∀ id v, Observation.Proper (t.get? id v))
    (hfresh : strict → FreshResults program' entries' t) {know : Knowledge}
    (h : Gained program model entries know) : know.Bounded program' strict t := by
  -- a place of the first program is a place of the second
  have hplace : ∀ {f k rest facts f'}, Gained program model entries (.before f k rest facts) →
      Twin program' f f' → Reached program' entries' f' k ∧ Remains f' k rest := by
    intro f k rest facts f' hbefore hf
    obtain ⟨hreached, hremains⟩ := hbefore.ofReached
    exact ⟨hreached.reordered hprogram hentries hf, hremains.reordered hf.reordered⟩
  induction h with
  | start _ _ =>
    intro f' _ b _ j _ v s hs
    simp at hs
  | enter hbefore he ih =>
    -- the twin of the caller calls the twin of the callee, with the same pairs
    intro g' hg b hb
    obtain ⟨f', hf⟩ := hprogram.exists_twin hbefore.ofReached.1.body
    obtain ⟨e', he', hcall⟩ := hprogram.exists_entering he
    obtain ⟨hreached, hremains⟩ := hplace hbefore hf
    have heq := hcall.target.unique hg rfl
    subst heq
    have hbounds := (ih f' hf).enter hclosed hreached hremains he' hb
    rw [Entering.passed, hcall.pairs] at hbounds
    exact hbounds
  | joinEntry _ _ ih ih' =>
    intro f' hf b hb
    exact (ih f' hf b hb).join (ih' f' hf b hb)
  | begin _ hb ih =>
    intro f' hf
    obtain ⟨b', hb', hreordered⟩ := hf.reordered.exists_block hb
    rw [← hreordered.instructions]
    exact ih f' hf b' hb'
  | jump _ hb ht hb' ih =>
    intro f' hf j hnext
    obtain ⟨c, hc, hreordered⟩ := hf.reordered.exists_block hb
    obtain ⟨c', hc', hreordered'⟩ := hf.reordered.exists_block hb'
    rw [← hreordered'.instructions] at hnext
    exact ih f' hf j (Next.jump hc (hreordered.successors.mem_iff.1 ht) hc' hnext)
  | joinBefore _ _ ih ih' =>
    intro f' hf
    exact (ih f' hf).join (ih' f' hf)
  | through hbefore he ih =>
    intro f' hf
    obtain ⟨hreached, hremains⟩ := hplace hbefore hf
    exact (ih f' hf).through hclosed hproper hreached hremains (hprogram.entering?_eq_none he)
  | resume hbefore he _ ih ih' =>
    intro f' hf
    obtain ⟨e', he', hcall⟩ := hprogram.exists_entering he
    obtain ⟨hreached, hremains⟩ := hplace hbefore hf
    have hbounds := (ih f' hf).resume hclosed hfresh hreached hremains he'
      (ih' e'.target hcall.target)
    rw [Entering.resume, hcall.pairs, hcall.result] at hbounds
    exact hbounds
  | nothing =>
    intro f' _
    refine ⟨fun p s hs => by simp at hs, ?_⟩
    intro s hs
    cases hs
  | leave hbefore hop ih =>
    intro f' hf
    exact (ih f' hf).leave (hplace hbefore hf).2 hop _
  | joinExit _ _ ih ih' =>
    intro f' hf
    exact (ih f' hf).join (ih' f' hf)

/-! ## §4 Two runs -/

theorem bounded_of_solve (hprogram : program.Reordered program')
    (hentries : ∀ name ∈ entries, name ∈ entries') {limit limit' : Nat} {t t' : Table}
    (h : solve program model limit entries = .ok t)
    (h' : solve program' model limit' entries' = .ok t') (id : InstId) (v : ValueId) :
    Observation.Bounded (FreshResults program' entries' t') (t.get? id v) (t'.get? id v) := by
  intro s hcell
  obtain ⟨f, k, i, rest, facts, hgained, rfl, hs⟩ := Propagation.gained_of_solve h hcell
  obtain ⟨hchecked, p, hp, hidle, rfl⟩ := Propagation.stable_of_solve h'
  have hproper := Propagation.proper_of_solve h'
  obtain ⟨f', hf⟩ := hprogram.exists_twin hgained.ofReached.1.body
  have hbounds : p.table.Bounds _ f' k (i :: rest) facts :=
    hgained.bounded hprogram hentries (hp.closed hchecked hidle) hproper id f' hf
  exact hbounds i Next.here v s hs

section
variable (hprogram : program.Reordered program') (hentries : entries.Perm entries')
variable {limit limit' : Nat} {t t' : Table} (h : solve program model limit entries = .ok t)
variable (h' : solve program' model limit' entries' = .ok t')
include hprogram hentries h h'

theorem isSome_eq_of_reordered (id : InstId) (v : ValueId) :
    (t.get? id v).isSome = (t'.get? id v).isSome := by
  rw [Bool.eq_iff_iff]
  constructor
  · intro hsome
    obtain ⟨s, hs⟩ := Option.isSome_iff_exists.1 hsome
    have hbound := bounded_of_solve hprogram (fun _ => hentries.mem_iff.1) h h' id v
    exact Observation.Bounded.isSome (hs ▸ hbound)
  · intro hsome
    obtain ⟨s, hs⟩ := Option.isSome_iff_exists.1 hsome
    have hbound := bounded_of_solve hprogram.symm (fun _ => hentries.mem_iff.2) h' h id v
    exact Observation.Bounded.isSome (hs ▸ hbound)

theorem freshResults_of_reordered (hfresh : FreshResults program entries t) :
    FreshResults program' entries' t' := by
  intro f' k i rest e' w hreached hremains he' hresult
  obtain ⟨f, hf⟩ := hprogram.symm.exists_twin hreached.body
  obtain ⟨e, he, hcall⟩ := hprogram.symm.exists_entering he'
  have hreached' := hreached.reordered hprogram.symm (fun _ => hentries.mem_iff.2) hf
  obtain ⟨hnone, hargs⟩ :=
    hfresh hreached' (hremains.reordered hf.reordered) he (hcall.result ▸ hresult)
  refine ⟨?_, hcall.args ▸ hargs⟩
  rw [← Option.not_isSome_iff_eq_none, ← isSome_eq_of_reordered hprogram hentries h h', hnone]
  simp

/-- Two states in one cell that are no violations differ in the kind of a memory error at most. -/
theorem states_of_reordered (hfresh : FreshResults program entries t) {id : InstId} {v : ValueId}
    {s s' : State} (hs : t.get? id v = some s) (hs' : t'.get? id v = some s') :
    s = s' ∨ s = .violation ∨ s' = .violation ∨
      s.isMemoryError = true ∧ s'.isMemoryError = true := by
  have hfresh' := freshResults_of_reordered hprogram hentries h h' hfresh
  obtain ⟨u, hu, hle⟩ := bounded_of_solve hprogram (fun _ => hentries.mem_iff.1) h h' id v s hs
  obtain ⟨u', hu', hle'⟩ :=
    bounded_of_solve hprogram.symm (fun _ => hentries.mem_iff.2) h' h id v s' hs'
  cases hs'.symm.trans hu
  cases hs.symm.trans hu'
  -- each of the two bounds the other, unless it is a violation
  by_cases hviolation : s = .violation
  · exact Or.inr (Or.inl hviolation)
  · by_cases hviolation' : s' = .violation
    · exact Or.inr (Or.inr (Or.inl hviolation'))
    · rcases State.eq_or_of_cap_le (hle hfresh' hviolation) (hle' hfresh hviolation') with
        heq | herrors
      · exact Or.inl heq
      · exact Or.inr (Or.inr (Or.inr herrors))

/-- Without violations and double frees nothing is left that could differ. -/
theorem eq_of_reordered (hfresh : FreshResults program entries t)
    (hclean : ∀ id v s, t.get? id v = some s ∨ t'.get? id v = some s →
      s ≠ .violation ∧ s ≠ .doubleFree) : t = t' := by
  refine Table.ext_get? fun id v => ?_
  have hcells := isSome_eq_of_reordered hprogram hentries h h' id v
  cases hs : t.get? id v with
  | none =>
    rw [hs] at hcells
    exact (Option.not_isSome_iff_eq_none.1 (by simp [← hcells])).symm
  | some s =>
    rw [hs] at hcells
    obtain ⟨s', hs'⟩ := Option.isSome_iff_exists.1 hcells.symm
    obtain ⟨hviolation, hfree⟩ := hclean id v s (Or.inl hs)
    obtain ⟨hviolation', hfree'⟩ := hclean id v s' (Or.inr hs')
    rw [hs']
    -- each way to differ takes a violation or two different memory errors
    rcases states_of_reordered hprogram hentries h h' hfresh hs hs' with
      heq | heq | heq | ⟨herror, herror'⟩
    · rw [heq]
    · exact absurd heq hviolation
    · exact absurd heq hviolation'
    · rw [State.eq_of_isMemoryError herror herror' hfree hfree']

end

/-- **Runs in another order** have the same cells. If the results of calls are fresh, two states in
one cell that differ are a violation and something else, or two memory errors; so the tables are
equal when there is no violation and no double free. -/
theorem solve_reordered (hprogram : program.Reordered program') (hentries : entries.Perm entries')
    {limit limit' : Nat} {t t' : Table} (h : solve program model limit entries = .ok t)
    (h' : solve program' model limit' entries' = .ok t') :
    (∀ id v, (t.get? id v).isSome = (t'.get? id v).isSome) ∧
      (FreshResults program entries t →
        (∀ id v s s', t.get? id v = some s → t'.get? id v = some s' →
          s = s' ∨ s = .violation ∨ s' = .violation ∨
            s.isMemoryError = true ∧ s'.isMemoryError = true) ∧
        ((∀ id v s, t.get? id v = some s ∨ t'.get? id v = some s →
          s ≠ .violation ∧ s ≠ .doubleFree) → t = t')) := by
  refine ⟨isSome_eq_of_reordered hprogram hentries h h', fun hfresh => ⟨?_, ?_⟩⟩
  · intro id v s s' hs hs'
    exact states_of_reordered hprogram hentries h h' hfresh hs hs'
  · exact eq_of_reordered hprogram hentries h h' hfresh

end

/-- A body that releases a value, and releases it again, on one way after an access in between. The
successors of the first block are left open. -/
def merger (successors : List UInt64) : Function where
  name := "main"
  params := []
  outputArg := none
  blocks := [
    { instructions := [
        ⟨⟨0⟩, .call "extract" [⟨0⟩] none⟩,
        ⟨⟨1⟩, .call "release" [⟨0⟩] none⟩]
      successors := successors },
    { instructions := [⟨⟨2⟩, .call "release" [⟨0⟩] none⟩, ⟨⟨3⟩, .ret none⟩], successors := [] },
    { instructions := [⟨⟨4⟩, .call "access" [⟨0⟩] none⟩], successors := [1] }]

def merging (successors : List UInt64) : Program := ⟨[merger successors], .empty⟩

/-- The table of `merging` with the given state at the end. -/
def mergingTable (last : State) : Table :=
  ⟨FiniteMap.ofList
    [(⟨⟨1⟩, ⟨0⟩⟩, .rawReferenced), (⟨⟨2⟩, ⟨0⟩⟩, .useAfterFree), (⟨⟨3⟩, ⟨0⟩⟩, last),
      (⟨⟨4⟩, ⟨0⟩⟩, .dropped)]⟩

/-- Straight on first: the second release is seen before the access. -/
theorem solve_merging :
    solve (merging [1, 2]) (.small .full .consuming) 100 ["main"] =
      .ok (mergingTable .doubleFree) :=
  eq_ok_of_toOption (by decide +kernel)

/-- Through the access first: the second release is seen after it only. -/
theorem solve_merging_reordered :
    solve (merging [2, 1]) (.small .full .consuming) 100 ["main"] =
      .ok (mergingTable .useAfterFree) :=
  eq_ok_of_toOption (by decide +kernel)

theorem reordered_merging : (merging [1, 2]).Reordered (merging [2, 1]) where
  functions := by
    have hblock : ∀ b : Block, b.Reordered b := fun b => ⟨rfl, List.Perm.refl _⟩
    refine .cons ⟨rfl, rfl, rfl, .cons ⟨rfl, ?_⟩ (.cons (hblock _) (.cons (hblock _) .nil))⟩ .nil
    exact List.Perm.swap 2 1 []
  valueNames := rfl

theorem freshResults_merging (successors : List UInt64) (t : Table) :
    FreshResults (merging successors) ["main"] t := by
  intro f k i rest e w hreached hremains he
  -- no call of it enters a body
  have hmem := hremains.mem_instructions hreached.body
  have hinstructions : (merging successors).instructions =
      [(merger successors, ⟨⟨0⟩, .call "extract" [⟨0⟩] none⟩),
        (merger successors, ⟨⟨1⟩, .call "release" [⟨0⟩] none⟩),
        (merger successors, ⟨⟨2⟩, .call "release" [⟨0⟩] none⟩),
        (merger successors, ⟨⟨3⟩, .ret none⟩),
        (merger successors, ⟨⟨4⟩, .call "access" [⟨0⟩] none⟩)] := rfl
  rw [hinstructions] at hmem
  simp only [List.mem_cons, Prod.mk.injEq, List.not_mem_nil, or_false] at hmem
  rcases hmem with ⟨-, rfl⟩ | ⟨-, rfl⟩ | ⟨-, rfl⟩ | ⟨-, rfl⟩ | ⟨-, rfl⟩
  all_goals cases he

/-- The order of two successors decides which memory error is found, and nothing else. -/
theorem merging_depends_on_order :
    solve (merging [1, 2]) (.small .full .consuming) 100 ["main"] =
        .ok (mergingTable .doubleFree) ∧
      solve (merging [2, 1]) (.small .full .consuming) 100 ["main"] =
        .ok (mergingTable .useAfterFree) ∧
      mergingTable .doubleFree ≠ mergingTable .useAfterFree ∧
      ∀ id v s s', (mergingTable .doubleFree).get? id v = some s →
        (mergingTable .useAfterFree).get? id v = some s' →
        s = s' ∨ s = .violation ∨ s' = .violation ∨
          s.isMemoryError = true ∧ s'.isMemoryError = true := by
  have hreordered :=
    solve_reordered reordered_merging (List.Perm.refl _) solve_merging solve_merging_reordered
  refine ⟨solve_merging, solve_merging_reordered, by decide +kernel, ?_⟩
  exact (hreordered.2 (freshResults_merging _ _)).1

end Typestate
