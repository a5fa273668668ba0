import Typestate.Proofs.Closure
import Typestate.Proofs.Provenance

/-!
# No memory error on a path is lost

An *activation* walks through the blocks of a function with states of its own for the values it
tracks; at a call into a body it runs a whole activation of that body. The solver joins where an
activation chooses, and the automaton is not monotone: a value that a path leaves untracked may be
released on another one, and the two outcomes are not comparable. So the table does not bound the
states of activations. What it bounds is their *hazard*, the distance a value has come towards a
memory error, on which every role of a call acts monotonically.

## Contents

- §1 Hazard and alarm
- §2 Activations
- §3 Tables cover activations
-/

namespace Typestate

/-! ## §1 Hazard and alarm -/

namespace State

/-- How far a value in this state has come towards a memory error. -/
def hazard : State → Nat
  | bottom | uninit | violation | top => 0
  | rawReferenced | rawWrapped | used => 1
  | dropped => 2
  | useAfterFree | doubleFree => 3

/-- How far a value may have come whose state a table gives. A violation absorbs every later step,
so it has to stand for everything. -/
def alarm : State → Nat
  | violation => 3
  | s => s.hazard

theorem alarm_mono {a b : State} (h : a ≤ b) : a.alarm ≤ b.alarm := by
  cases a <;> cases b <;> first | decide | exact absurd h (by decide)

theorem eq_of_three_le_alarm {s : State} (h : 3 ≤ s.alarm) :
    s = useAfterFree ∨ s = doubleFree ∨ s = violation := by
  cases s <;> first | exact absurd h (by decide) | simp

theorem hazard_of_isMemoryError {s : State} (h : s.isMemoryError = true) : s.hazard = 3 := by
  cases s <;> first | rfl | cases h

end State

/-- How a call of the given role moves hazards. -/
def Token.raise (mode : Mode) : Token → Nat → Nat
  | .neutral, n => n
  | .extract, n => if n = 0 then 1 else if n = 2 then 3 else n
  | .rebuild, n => if n = 0 then (if mode.producesOwner then 1 else 0) else if n = 2 then 3 else n
  | .release, n => if n = 0 then 0 else if n = 1 then 2 else if n = 2 then 3 else n
  | .access, n => if n = 2 then 3 else n

/-- Unlike the step itself, what it does to hazards is monotone. -/
theorem Token.raise_mono (mode : Mode) (token : Token) {m n : Nat} (h : m ≤ n) :
    token.raise mode m ≤ token.raise mode n := by
  cases token <;> cases mode <;> simp only [raise, Mode.producesOwner] <;> grind

theorem Token.hazard_step_le (mode : Mode) (token : Token) (s : State) :
    (token.step mode s).hazard ≤ token.raise mode s.hazard := by
  cases s <;> cases token <;> cases mode <;> decide

theorem Token.raise_le_alarm_step (mode : Mode) (token : Token) {s : State}
    (h : State.uninit ≤ s) : token.raise mode s.alarm ≤ (token.step mode s).alarm := by
  cases s <;> first | exact absurd h (by decide) | (cases token <;> cases mode <;> decide)

namespace Observation

/-- Values without a state count as `uninit`. -/
def hazard (o : Observation) : Nat := (o.getD .uninit).hazard

/-- The alarm of a value's state; values without one count as `uninit`. -/
def alarm (o : Observation) : Nat := (o.getD .uninit).alarm

theorem alarm_mono {a b : Observation} (h : a ≤ b) : a.alarm ≤ b.alarm := by
  cases a with
  | none => exact Nat.zero_le _
  | some s =>
    cases b with
    | none => simp at h
    | some s' => exact State.alarm_mono (Option.some_le_some.1 h)

end Observation

/-- A call keeps hazards below alarms. -/
theorem CallModel.hazard_effect_le (m : CallModel) (callee : String) (args : List ValueId)
    (result : Option ValueId) (v : ValueId) {o o' : Observation} (h : o.hazard ≤ o'.alarm)
    (ho' : o'.Proper) :
    (m.effect callee args result v o).hazard ≤ (m.effect callee args result v o').alarm := by
  refine m.effect_rel_of_proper callee args result (R := fun o o' => o.hazard ≤ o'.alarm)
    (Nat.le_refl _) ?_ h ho'
  intro o o' hle ho'
  calc (m.next callee (o.getD .uninit)).hazard
    _ ≤ (m.info callee).token.raise m.mode o.hazard := Token.hazard_step_le _ _ _
    _ ≤ (m.info callee).token.raise m.mode o'.alarm := Token.raise_mono _ _ hle
    _ ≤ (m.next callee (o'.getD .uninit)).alarm := Token.raise_le_alarm_step _ _ ho'.getD

/-! ## §2 Activations -/

/-- The facts without those about `v`. -/
def Facts.forget (facts : Facts) (v : ValueId) : Facts := FiniteMap.filter (fun w _ => w ≠ v) facts

@[simp]
theorem Facts.get?_forget (facts : Facts) (v w : ValueId) :
    (facts.forget v).get? w = if w = v then none else facts.get? w := by
  apply Option.ext
  intro s
  unfold forget
  rw [FiniteMap.get?_filter_eq_some_iff]
  by_cases h : w = v <;> simp [h]

/-- The states with which control comes back from a body that was left with the states `inner`: the
states of its parameters are joined into the arguments, and the result has the state of the returned
value, or none when that has none. -/
def Entering.comeBack (e : Entering) (value : Option ValueId) (inner env : Facts) : Facts :=
  let back := readBack (recordExit e.target.params inner .empty) e.pairs env
  match e.result with
  | none => back
  | some w =>
    match value.bind inner.get? with
    | some s => back.insert w s
    | none => back.forget w

theorem Entering.get?_comeBack (e : Entering) (value : Option ValueId) (inner env : Facts)
    (v : ValueId) :
    (e.comeBack value inner env).get? v =
      if e.result = some v then value.bind inner.get?
      else (readBack (recordExit e.target.params inner .empty) e.pairs env).get? v := by
  unfold comeBack
  cases e.result with
  | none => simp
  | some w =>
    simp only [Option.some.injEq]
    cases value.bind inner.get? with
    | none => simp [eq_comm]
    | some s => simp [eq_comm]

/-- What a value has when control comes back it had before, its parameter had it when the body was
left, or it is the result. -/
theorem Entering.get?_comeBack_eq_or (e : Entering) (value : Option ValueId) (inner env : Facts)
    {v : ValueId} {s : State} (h : (e.comeBack value inner env).get? v = some s) :
    (e.result ≠ some v ∧ env.get? v = some s) ∨
      (e.result ≠ some v ∧ ∃ p, (v, p) ∈ e.pairs ∧ inner.get? p = some s) ∨
      ∃ w, e.result = some v ∧ value = some w ∧ inner.get? w = some s := by
  rw [get?_comeBack] at h
  -- the result is bound last, over whatever was read back
  by_cases hresult : e.result = some v
  · rw [if_pos hresult] at h
    obtain ⟨w, hw, hs⟩ := Option.bind_eq_some_iff.1 h
    exact Or.inr (Or.inr ⟨w, hresult, hw, hs⟩)
  · rw [if_neg hresult] at h
    rcases get?_readBack_eq_or (recordExit e.target.params inner .empty) e.pairs env v with
      heq | ⟨p, hpair, heq⟩
    · exact Or.inl ⟨hresult, heq ▸ h⟩
    · rw [heq] at h
      exact Or.inr (Or.inl ⟨hresult, p, hpair, (get?_recordExit_eq_some h).2⟩)

/-- The activation of `f` that begins with the states `init` can get to the rest of block `k` with
the states at the end. -/
inductive Walk (program : Program) (model : CallModel) :
    Function → Facts → Nat → List Instruction → Facts → Prop where
  | start {f : Function} {init : Facts} {b : Block} :
      f.blocks[0]? = some b → Walk program model f init 0 b.instructions init
  | jump {f : Function} {init env : Facts} {k : Nat} {b b' : Block} {t : UInt64} :
      Walk program model f init k [] env → f.blocks[k]? = some b → t ∈ b.successors →
      f.blocks[t.toNat]? = some b' → Walk program model f init t.toNat b'.instructions env
  | through {f : Function} {init env : Facts} {k : Nat} {i : Instruction}
      {rest : List Instruction} :
      Walk program model f init k (i :: rest) env → program.entering? i = none →
      Walk program model f init k rest (model.through i env)
  /-- A call into a body runs a whole activation of it, up to a return. -/
  | call {f : Function} {init env inner : Facts} {k k' : Nat} {i r : Instruction}
      {rest rest' : List Instruction} {e : Entering} {value : Option ValueId} :
      Walk program model f init k (i :: rest) env → program.entering? i = some e →
      Walk program model e.target (e.passed env) k' (r :: rest') inner → r.op = .ret value →
      Walk program model f init k rest (e.comeBack value inner env)

/-- Activations that a program run from its entry points begins, directly or inside others. -/
inductive Started (program : Program) (model : CallModel) (entries : List String) :
    Function → Facts → Prop where
  | entry {name : String} {f : Function} :
      name ∈ entries → program.body? name = some f → Started program model entries f .empty
  | nested {f : Function} {init env : Facts} {k : Nat} {i : Instruction}
      {rest : List Instruction} {e : Entering} :
      Started program model entries f init → Walk program model f init k (i :: rest) env →
      program.entering? i = some e → Started program model entries e.target (e.passed env)

/-! ## §3 Coverage -/

/-- Wherever control may go next, the alarms of the table cover the hazards of the states. -/
def Table.Covers (t : Table) (f : Function) (k : Nat) (rest : List Instruction) (env : Facts) :
    Prop :=
  ∀ j, Next f k rest j → ∀ v, Observation.hazard (env.get? v) ≤ Observation.alarm (t.get? j.id v)

section
variable {program : Program} {model : CallModel} {entries : List String} {t : Table}
variable {f : Function} {k : Nat} {i : Instruction} {rest : List Instruction} {env : Facts}

theorem Table.Carries.alarm_le {i j : InstId} {v w : ValueId} (h : t.Carries i v j w) :
    Observation.alarm (t.get? i v) ≤ Observation.alarm (t.get? j w) :=
  Observation.alarm_mono (Table.carries_iff.1 h)

/-- Through an instruction that enters no body. -/
theorem Table.Covers.through (hclosed : t.Closed program model entries)
    (hproper : ∀ id v, Observation.Proper (t.get? id v)) (hreached : Reached program entries f k)
    (hremains : Remains f k (i :: rest)) (he : program.entering? i = none)
    (h : t.Covers f k (i :: rest) env) : t.Covers f k rest (model.through i env) := by
  intro j hnext v
  refine (hclosed.through (R := fun o o' => o.hazard ≤ o'.alarm ∧ o'.Proper) ?_ ?_ hreached
    hremains hnext he ⟨h i Next.here v, hproper i.id v⟩).1
  · intro o a id w hle hmore
    exact ⟨Nat.le_trans hle.1 (Observation.alarm_mono hmore), hproper id w⟩
  · intro callee args result w o o' hle
    exact ⟨model.hazard_effect_le callee args result w hle.1 hle.2,
      model.proper_effect callee args result w hle.2⟩

/-- Into a body. -/
theorem Table.Covers.enter (hclosed : t.Closed program model entries)
    (hreached : Reached program entries f k) (hremains : Remains f k (i :: rest)) {e : Entering}
    (he : program.entering? i = some e) (h : t.Covers f k (i :: rest) env) {b : Block}
    (hb : e.target.blocks[0]? = some b) :
    t.Covers e.target 0 b.instructions (e.passed env) := by
  intro j hnext v
  cases hv : (e.passed env).get? v with
  | none => exact Nat.zero_le _
  | some s =>
    -- the state of a parameter is that of a single argument, however many are joined
    obtain ⟨a, hpair, ha⟩ := get?_passArguments_eq_some hv
    have hhere := h i Next.here a
    rw [ha] at hhere
    exact Nat.le_trans hhere (hclosed.passed hreached hremains he hb hnext hpair).alarm_le

/-- Back from a body. -/
theorem Table.Covers.comeBack (hclosed : t.Closed program model entries)
    (hreached : Reached program entries f k) (hremains : Remains f k (i :: rest)) {e : Entering}
    (he : program.entering? i = some e) (h : t.Covers f k (i :: rest) env) {k' : Nat}
    {r : Instruction} {rest' : List Instruction} {value : Option ValueId} {inner : Facts}
    (hremains' : Remains e.target k' (r :: rest')) (hop : r.op = .ret value)
    (hinner : t.Covers e.target k' (r :: rest') inner) :
    t.Covers f k rest (e.comeBack value inner env) := by
  intro j hnext v
  cases hv : (e.comeBack value inner env).get? v with
  | none => exact Nat.zero_le _
  | some s =>
    rcases e.get?_comeBack_eq_or value inner env hv with
      ⟨hresult, hold⟩ | ⟨hresult, p, hpair, hp⟩ | ⟨w, hresult, rfl, hw⟩
    -- each of the three ways back is an edge along which the table is closed
    · have hhere := h i Next.here v
      rw [hold] at hhere
      have hcarries := hclosed.carries_of_result_ne hreached hremains hnext he hresult
      exact Nat.le_trans hhere hcarries.alarm_le
    · have hthere := hinner r Next.here p
      rw [hp] at hthere
      exact Nat.le_trans hthere
        (hclosed.exit hreached hremains hnext he hpair hresult hremains' hop).alarm_le
    · have hthere := hinner r Next.here w
      rw [hw] at hthere
      exact Nat.le_trans hthere
        (hclosed.returned hreached hremains hnext he hresult hremains' hop).alarm_le

/-- **Activations stay covered.** -/
theorem Walk.covered (hclosed : t.Closed program model entries)
    (hproper : ∀ id v, Observation.Proper (t.get? id v)) {init : Facts}
    (hwalk : Walk program model f init k rest env) (hreached : Reached program entries f 0)
    (hinit : ∀ b, f.blocks[0]? = some b → t.Covers f 0 b.instructions init) :
    Reached program entries f k ∧ Remains f k rest ∧ t.Covers f k rest env := by
  induction hwalk with
  | start hb => exact ⟨hreached, ⟨_, hb, List.suffix_refl _⟩, hinit _ hb⟩
  | jump _ hb ht hb' ih =>
    obtain ⟨hreached', -, hcovers⟩ := ih hreached hinit
    refine ⟨hreached'.jump hb ht, ⟨_, hb', List.suffix_refl _⟩, ?_⟩
    intro j hnext
    exact hcovers j (Next.jump hb ht hb' hnext)
  | through _ he ih =>
    obtain ⟨hreached', hremains, hcovers⟩ := ih hreached hinit
    exact ⟨hreached', hremains.tail, hcovers.through hclosed hproper hreached' hremains he⟩
  | call _ he _ hop ih ih' =>
    obtain ⟨hreached', hremains, hcovers⟩ := ih hreached hinit
    obtain ⟨block, hblock, hsuffix⟩ := id hremains
    -- the body is reached from here, and what is passed to it is covered
    have hentered : Reached program entries _ 0 :=
      hreached'.enter hblock (hsuffix.subset (List.mem_cons_self ..)) he
    obtain ⟨-, hremains', hinner⟩ := ih' hentered
      fun b hb => hcovers.enter hclosed hreached' hremains he hb
    exact ⟨hreached', hremains.tail,
      hcovers.comeBack hclosed hreached' hremains he hremains' hop hinner⟩

theorem Started.covered (hclosed : t.Closed program model entries)
    (hproper : ∀ id v, Observation.Proper (t.get? id v)) {init : Facts}
    (h : Started program model entries f init) :
    Reached program entries f 0 ∧
      ∀ b, f.blocks[0]? = some b → t.Covers f 0 b.instructions init := by
  -- the induction goes outwards in: the table covers the calling activation up to the call
  induction h with
  | entry hname hbody =>
    refine ⟨Reached.entry hname hbody, ?_⟩
    intro b _ j _ v
    simp [Observation.hazard, State.hazard]
  | nested _ hwalk he ih =>
    obtain ⟨hreached, hremains, hcovers⟩ := hwalk.covered hclosed hproper ih.1 ih.2
    obtain ⟨block, hblock, hsuffix⟩ := id hremains
    refine ⟨hreached.enter hblock (hsuffix.subset (List.mem_cons_self ..)) he, ?_⟩
    intro b hb
    exact hcovers.enter hclosed hreached hremains he hb

/-- **No memory error on a path is lost.** Where some activation has a memory error, the table has
one too, or a violation. -/
theorem memoryError_of_walk {limit : Nat} (h : solve program model limit entries = .ok t)
    {init : Facts} (hstarted : Started program model entries f init)
    (hwalk : Walk program model f init k (i :: rest) env) {v : ValueId} {s : State}
    (hv : env.get? v = some s) (herror : s.isMemoryError = true) :
    ∃ s', t.get? i.id v = some s' ∧
      (s' = .useAfterFree ∨ s' = .doubleFree ∨ s' = .violation) := by
  obtain ⟨hchecked, p, hp, hidle, rfl⟩ := Propagation.stable_of_solve h
  have hclosed := hp.closed hchecked hidle
  have hproper := Propagation.proper_of_solve h
  obtain ⟨hreached, hinit⟩ := hstarted.covered hclosed hproper
  obtain ⟨-, -, hcovers⟩ := hwalk.covered hclosed hproper hreached hinit
  -- the hazard of a memory error is the largest, so the alarm in the cell is as high
  have hle := hcovers i Next.here v
  rw [hv] at hle
  have hthree : 3 ≤ Observation.alarm (p.table.get? i.id v) := by
    rw [← State.hazard_of_isMemoryError herror]
    exact hle
  cases hcell : p.table.get? i.id v with
  | none =>
    rw [hcell] at hthree
    exact absurd hthree (by decide)
  | some s' =>
    rw [hcell] at hthree
    exact ⟨s', rfl, State.eq_of_three_le_alarm hthree⟩

end

/-- In `giving` the value that was given away is accessed after its release. -/
theorem walk_giver :
    ∃ env, Walk giving (.small .full .consuming) giver .empty 0 [⟨⟨3⟩, .ret none⟩] env ∧
      env.get? ⟨0⟩ = some .useAfterFree := by
  have hstart : Walk giving (.small .full .consuming) giver .empty 0 _ .empty := .start rfl
  have hextract := Walk.through hstart rfl
  have hbegin : ∀ passed, Walk giving (.small .full .consuming) taker passed 0
      taker.instructions passed := fun _ => .start (b := ⟨taker.instructions, []⟩) rfl
  have hrelease := fun passed => (hbegin passed).through rfl
  have htake := hextract.call (e := ⟨taker, [⟨0⟩], some ⟨2⟩⟩) rfl (hrelease _) rfl
  exact ⟨_, htake.through rfl, by decide +kernel⟩

theorem memoryError_giver :
    ∃ s, givingTable.get? ⟨3⟩ ⟨0⟩ = some s ∧
      (s = .useAfterFree ∨ s = .doubleFree ∨ s = .violation) := by
  obtain ⟨env, hwalk, hv⟩ := walk_giver
  exact memoryError_of_walk solve_giving (.entry (List.mem_singleton.2 rfl) rfl) hwalk hv rfl

end Typestate
