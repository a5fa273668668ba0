import Typestate.CallModel
import Typestate.Proofs.Bindings

/-!
# The order of observations

What is known of a value at a point is a state or nothing at all. Observations are totally ordered,
with nothing below every state, and joining two of them keeps one of the two. Facts and tables are
ordered pointwise, and every operation of a solver that joins is a least upper bound for that order.

The effect of a call on the facts is local: what becomes of a value depends on that value alone.

## Contents

- §1 Observations
- §2 Facts: order, join, and folds of joins
- §3 Tables: order, joining a row, the facts of a row
- §4 The effect of a call on a single value
- §5 A model with a small table
-/

namespace Typestate

/-! ## §1 Observations -/

namespace State

theorem join_eq_or (a b : State) : a.join b = a ∨ a.join b = b := by
  unfold join
  split
  · exact Or.inl rfl
  · exact Or.inr rfl

theorem join_le_iff {a b c : State} : a.join b ≤ c ↔ a ≤ c ∧ b ≤ c :=
  ⟨fun h => ⟨le_trans (le_join_left a b) h, le_trans (le_join_right a b) h⟩,
    fun h => join_le h.1 h.2⟩

end State

/-- What is known of a value: its state, or nothing. -/
abbrev Observation := Option State

namespace Observation

/-- The more informative of two observations. -/
def join (a b : Observation) : Observation := Option.merge State.join a b

@[simp]
theorem join_none (a : Observation) : join a none = a := by simp [join]

@[simp]
theorem none_join (a : Observation) : join none a = a := by simp [join]

theorem le_refl (a : Observation) : a ≤ a := by
  cases a with
  | none => simp
  | some s => exact Option.some_le_some.2 (State.le_refl s)

theorem le_trans {a b c : Observation} (h : a ≤ b) (h' : b ≤ c) : a ≤ c := by
  cases a with
  | none => simp
  | some s =>
    cases b with
    | none => simp at h
    | some t =>
      cases c with
      | none => simp at h'
      | some u =>
        exact Option.some_le_some.2
          (State.le_trans (Option.some_le_some.1 h) (Option.some_le_some.1 h'))

instance : @Trans Observation Observation Observation LE.le LE.le LE.le := ⟨le_trans⟩

theorem le_antisymm {a b : Observation} (h : a ≤ b) (h' : b ≤ a) : a = b := by
  cases a with
  | none => exact (Option.le_none.1 h').symm
  | some s =>
    -- below nothing there is nothing, so the states are compared
    cases b with
    | none => simp at h
    | some t =>
      exact congrArg some (State.le_antisymm (Option.some_le_some.1 h) (Option.some_le_some.1 h'))

theorem join_le_iff {a b c : Observation} : join a b ≤ c ↔ a ≤ c ∧ b ≤ c :=
  Option.merge_le_iff fun _ _ _ => State.join_le_iff

theorem le_join_left (a b : Observation) : a ≤ join a b := (join_le_iff.1 (le_refl _)).1

theorem le_join_right (a b : Observation) : b ≤ join a b := (join_le_iff.1 (le_refl _)).2

/-- A join that changes nothing has taken in what was below already. -/
theorem join_eq_left_iff {a b : Observation} : join a b = a ↔ b ≤ a := by
  constructor
  · intro h
    exact h ▸ le_join_right a b
  · intro h
    exact le_antisymm (join_le_iff.2 ⟨le_refl a, h⟩) (le_join_left a b)

/-- Observations are totally ordered, so a join is always one of its two sides. -/
theorem join_eq_or (a b : Observation) : join a b = a ∨ join a b = b :=
  Option.merge_eq_or_eq State.join_eq_or a b

/-- An observation below another: where the lower one has a state, so has the upper one. -/
theorem le_iff {a b : Observation} : a ≤ b ↔ ∀ s, a = some s → ∃ s', b = some s' ∧ s ≤ s' := by
  cases a <;> cases b <;> simp

/-- Above a state there is a state. -/
theorem isSome_of_le {a b : Observation} (h : a ≤ b) (ha : a.isSome) : b.isSome := by
  cases a with
  | none => simp at ha
  | some s =>
    cases b with
    | none => simp at h
    | some t => rfl

end Observation

theorem joinOption_eq (o : Option State) (s : State) : joinOption o s = Observation.join o s := by
  cases o <;> rfl

/-! ## §2 Facts -/

namespace Facts

instance : LE Facts := ⟨fun a b => ∀ v, a.get? v ≤ b.get? v⟩

theorem le_refl (a : Facts) : a ≤ a := fun _ => Observation.le_refl _

theorem le_trans {a b c : Facts} (h : a ≤ b) (h' : b ≤ c) : a ≤ c :=
  fun v => Observation.le_trans (h v) (h' v)

theorem le_antisymm {a b : Facts} (h : a ≤ b) (h' : b ≤ a) : a = b :=
  FiniteMap.ext_get? fun v => Observation.le_antisymm (h v) (h' v)

theorem empty_le (a : Facts) : (FiniteMap.empty : Facts) ≤ a := fun v => by simp

@[simp]
theorem get?_join (a b : Facts) (v : ValueId) :
    (join a b).get? v = Observation.join (a.get? v) (b.get? v) :=
  FiniteMap.get?_mergeWith State.join a b v

theorem join_le_iff {a b c : Facts} : join a b ≤ c ↔ a ≤ c ∧ b ≤ c := by
  constructor
  · intro h
    exact ⟨fun v => (Observation.join_le_iff.1 (get?_join a b v ▸ h v)).1,
      fun v => (Observation.join_le_iff.1 (get?_join a b v ▸ h v)).2⟩
  · intro h v
    rw [get?_join]
    exact Observation.join_le_iff.2 ⟨h.1 v, h.2 v⟩

theorem le_join_left (a b : Facts) : a ≤ join a b := (join_le_iff.1 (le_refl _)).1

theorem le_join_right (a b : Facts) : b ≤ join a b := (join_le_iff.1 (le_refl _)).2

theorem join_eq_left_iff {a b : Facts} : join a b = a ↔ b ≤ a := by
  constructor
  · intro h
    exact h ▸ le_join_right a b
  · intro h
    exact le_antisymm (join_le_iff.2 ⟨le_refl a, h⟩) (le_join_left a b)

@[simp]
theorem empty_join (a : Facts) : join FiniteMap.empty a = a :=
  le_antisymm (join_le_iff.2 ⟨empty_le a, le_refl a⟩) (le_join_right _ a)

/-- Joining at a value leaves the other values alone. -/
theorem get?_joinAt (facts : Facts) (v w : ValueId) (s : State) :
    (joinAt facts v s).get? w =
      if w = v then Observation.join (facts.get? v) (some s) else facts.get? w := by
  unfold joinAt
  rw [FiniteMap.get?_alter]
  cases h : facts.get? v <;> simp [Observation.join]

/-- Joins a list of observations into the facts, each at its value. -/
def gather (items : List (ValueId × Observation)) (facts : Facts) : Facts :=
  items.foldl
    (fun facts item =>
      match item.2 with
      | some s => joinAt facts item.1 s
      | none => facts)
    facts

/-- One step of `gather`, whether or not there is a state to join. -/
theorem gather_cons (v : ValueId) (o : Observation) (items : List (ValueId × Observation))
    (facts : Facts) :
    ∃ next : Facts, gather ((v, o) :: items) facts = gather items next ∧
      ∀ w, next.get? w = if w = v then Observation.join (facts.get? v) o else facts.get? w := by
  cases o with
  | none => exact ⟨facts, rfl, fun w => by by_cases h : w = v <;> simp [h]⟩
  | some s => exact ⟨joinAt facts v s, rfl, fun w => get?_joinAt facts v w s⟩

/-- Gathering loses nothing that was there. -/
theorem le_gather (items : List (ValueId × Observation)) (facts : Facts) :
    facts ≤ gather items facts := by
  induction items generalizing facts with
  | nil => exact le_refl facts
  | cons item items ih =>
    obtain ⟨next, hgather, hnext⟩ := gather_cons item.1 item.2 items facts
    rw [hgather]
    -- the first item raises one value, and the rest raises what is there
    refine le_trans (fun w => ?_) (ih next)
    rw [hnext]
    split
    · next h => exact h ▸ Observation.le_join_left _ _
    · exact Observation.le_refl _

/-- What is gathered at a value is found there. -/
theorem le_get?_gather {items : List (ValueId × Observation)} {v : ValueId} {o : Observation}
    (h : (v, o) ∈ items) (facts : Facts) : o ≤ (gather items facts).get? v := by
  induction items generalizing facts with
  | nil => simp at h
  | cons item items ih =>
    obtain ⟨next, hgather, hnext⟩ := gather_cons item.1 item.2 items facts
    rw [hgather]
    -- what is joined at the front is still there at the end
    rcases List.mem_cons.1 h with h | h
    · have hv : o ≤ next.get? v := by
        rw [hnext, ← h, if_pos rfl]
        exact Observation.le_join_right _ _
      exact Observation.le_trans hv (le_gather items next v)
    · exact ih h next

/-- A value keeps its observation or takes over one of the gathered ones: joins make up no state. -/
theorem get?_gather_eq_or (items : List (ValueId × Observation)) (facts : Facts) (v : ValueId) :
    (gather items facts).get? v = facts.get? v ∨ (v, (gather items facts).get? v) ∈ items := by
  induction items generalizing facts with
  | nil => exact Or.inl rfl
  | cons item items ih =>
    obtain ⟨next, hgather, hnext⟩ := gather_cons item.1 item.2 items facts
    rw [hgather]
    rcases ih next with h | h
    · -- the rest of the list has left `v` alone, so the front decides
      rw [h, hnext]
      by_cases hv : v = item.1
      · subst hv
        rw [if_pos rfl]
        rcases Observation.join_eq_or (facts.get? item.1) item.2 with hj | hj
        · exact Or.inl hj
        · exact Or.inr (by rw [hj]; exact List.mem_cons_self ..)
      · exact Or.inl (if_neg hv)
    · exact Or.inr (List.mem_cons_of_mem _ h)

/-- Gathering gives the least facts above what was there and what is gathered. -/
theorem gather_le {items : List (ValueId × Observation)} {facts bound : Facts}
    (hfacts : facts ≤ bound) (hitems : ∀ v o, (v, o) ∈ items → o ≤ bound.get? v) :
    gather items facts ≤ bound := by
  intro v
  -- a value has what it had or one of the items, and both are below the bound
  rcases get?_gather_eq_or items facts v with h | h
  · exact h ▸ hfacts v
  · exact hitems v _ h

/-- Gathering into facts is joining with what is gathered from nothing. -/
theorem gather_eq_join (items : List (ValueId × Observation)) (facts : Facts) :
    gather items facts = join facts (gather items FiniteMap.empty) := by
  apply le_antisymm
  -- both sides are least above the facts and the items
  · exact gather_le (le_join_left _ _) fun v o h =>
      Observation.le_trans (le_get?_gather h _) (le_join_right _ _ v)
  · exact join_le_iff.2 ⟨le_gather items facts,
      gather_le (empty_le _) fun v o h => le_get?_gather h facts⟩

end Facts

/-! ## §3 Tables -/

namespace Table

instance : LE Table := ⟨fun a b => ∀ i v, a.get? i v ≤ b.get? i v⟩

theorem le_refl (a : Table) : a ≤ a := fun _ _ => Observation.le_refl _

theorem le_trans {a b c : Table} (h : a ≤ b) (h' : b ≤ c) : a ≤ c :=
  fun i v => Observation.le_trans (h i v) (h' i v)

/-- The facts are part of what the table holds at an instruction. -/
def Holds (t : Table) (i : InstId) (facts : Facts) : Prop := ∀ v, facts.get? v ≤ t.get? i v

theorem Holds.mono {t t' : Table} {i : InstId} {facts : Facts} (h : t.Holds i facts) (ht : t ≤ t') :
    t'.Holds i facts := fun v => Observation.le_trans (h v) (ht i v)

theorem get?_join (t : Table) (i j : InstId) (v w : ValueId) (s : State) :
    (t.join i v s).get? j w =
      if j = i ∧ w = v then Observation.join (t.get? i v) (some s) else t.get? j w := by
  unfold join get?
  rw [FiniteMap.get?_alter]
  cases h : t.states.get? ⟨i, v⟩ <;> simp [Observation.join]

/-- Joining the facts of a row changes the cells of that row only. -/
theorem get?_joinRow (t : Table) (i j : InstId) (facts : Facts) (v : ValueId) :
    (t.joinRow i facts).get? j v =
      if j = i then Observation.join (t.get? i v) (facts.get? v) else t.get? j v := by
  -- the induction is on the listed facts; that they ascend makes each value occur once
  have aux : ∀ (entries : List (ValueId × State)), Ascending entries → ∀ t : Table,
      (entries.foldl (fun t e => t.join i e.1 e.2) t).get? j v =
        if j = i then Observation.join (t.get? i v) (FiniteMap.find v entries) else t.get? j v := by
    intro entries
    induction entries with
    | nil => intro _ t; by_cases h : j = i <;> simp [FiniteMap.find, h]
    | cons e rest ih =>
      intro h t
      obtain ⟨w, s⟩ := e
      have hrest := (List.pairwise_cons.1 h).1
      rw [List.foldl_cons, ih (List.Pairwise.of_cons h), get?_join, get?_join]
      by_cases hj : j = i
      · by_cases hv : v = w
        · -- `v` stands at the front, and nothing behind it is `v` again
          subst hv
          simp [hj, FiniteMap.find, FiniteMap.find_eq_none_of_lt hrest]
        · have hne : compare v w ≠ .eq := fun e => hv (Std.compare_eq_iff_eq.1 e)
          simp [hj, hv, FiniteMap.find, hne]
      · simp [hj]
  exact aux facts.toList facts.ascending t

theorem le_joinRow (t : Table) (i : InstId) (facts : Facts) : t ≤ t.joinRow i facts := by
  intro j v
  rw [get?_joinRow]
  split
  · next h => exact h ▸ Observation.le_join_left _ _
  · exact Observation.le_refl _

theorem holds_joinRow (t : Table) (i : InstId) (facts : Facts) : (t.joinRow i facts).Holds i facts := by
  intro v
  rw [get?_joinRow, if_pos rfl]
  exact Observation.le_join_right _ _

/-- Facts that a row holds already add nothing to the table. -/
theorem joinRow_eq_self {t : Table} {i : InstId} {facts : Facts} (h : t.Holds i facts) :
    t.joinRow i facts = t := by
  refine ext_get? fun j v => ?_
  rw [get?_joinRow]
  split
  · next hj => rw [hj, Observation.join_eq_left_iff.2 (h v)]
  · rfl

/-- A cell keeps its state or takes over the one of the row. -/
theorem get?_joinRow_eq_or (t : Table) (i j : InstId) (facts : Facts) (v : ValueId) :
    (t.joinRow i facts).get? j v = t.get? j v ∨
      j = i ∧ (t.joinRow i facts).get? j v = facts.get? v := by
  rw [get?_joinRow]
  by_cases h : j = i
  · subst h
    rw [if_pos rfl]
    rcases Observation.join_eq_or (t.get? j v) (facts.get? v) with h | h
    · exact Or.inl h
    · exact Or.inr ⟨rfl, h⟩
  · exact Or.inl (if_neg h)

/-- The row of an instruction: the state of every value that has a cell there. -/
def factsAt (t : Table) (i : InstId) : Facts := FiniteMap.ofList (t.row i)

/-- The row of an instruction lists its cells. -/
theorem mem_row_iff {t : Table} {i : InstId} {v : ValueId} {s : State} :
    (v, s) ∈ t.row i ↔ t.get? i v = some s := by
  simp only [row, List.mem_map, List.mem_filter, decide_eq_true_eq, Prod.mk.injEq]
  constructor
  · rintro ⟨⟨⟨j, w⟩, u⟩, ⟨hm, rfl⟩, rfl, rfl⟩
    exact FiniteMap.mem_toList_iff.1 hm
  · intro h
    exact ⟨(⟨i, v⟩, s), ⟨FiniteMap.mem_toList_iff.2 h, rfl⟩, rfl, rfl⟩

@[simp]
theorem get?_factsAt (t : Table) (i : InstId) (v : ValueId) : (t.factsAt i).get? v = t.get? i v :=
  FiniteMap.get?_ofList fun _ => mem_row_iff

end Table

/-! ## §4 The effect of a call on a value -/

namespace CallModel

/-- What a consumed position makes of the observation of `v`. -/
def consumeOne (m : CallModel) (callee : String) (args : List ValueId) (v : ValueId)
    (o : Observation) (p : Position) : Observation :=
  if Position.argument? args p = some v then some (m.next callee (o.getD .uninit)) else o

/-- What a produced position makes of the observation of `v`. -/
def produceOne (m : CallModel) (callee : String) (args : List ValueId) (result : Option ValueId)
    (v : ValueId) (o : Observation) (p : Position) : Observation :=
  if target? args result p = some v then some (m.next callee .uninit) else o

/-- What a call makes of the observation of `v`. -/
def effect (m : CallModel) (callee : String) (args : List ValueId) (result : Option ValueId)
    (v : ValueId) (o : Observation) : Observation :=
  if m.observes callee then
    let info := m.info callee
    let o := (FiniteSet.toList info.consumers).foldl (m.consumeOne callee args v) o
    if info.isFactory then
      (FiniteSet.toList info.outputs).foldl (m.produceOne callee args result v) o
    else
      o
  else
    o

/-- The call moves or produces `v`: it is looked at, and `v` stands at a consumed position or is
what a produced position stands for. -/
def Touches (m : CallModel) (callee : String) (args : List ValueId) (result : Option ValueId)
    (v : ValueId) : Prop :=
  m.observes callee = true ∧
    ((∃ p ∈ FiniteSet.toList (m.info callee).consumers, Position.argument? args p = some v) ∨
      (m.info callee).isFactory = true ∧
        ∃ p ∈ FiniteSet.toList (m.info callee).outputs, target? args result p = some v)

variable (m : CallModel) (callee : String) (args : List ValueId) (result : Option ValueId)

theorem get?_consume (facts : Facts) (p : Position) (v : ValueId) :
    (m.consume callee args facts p).get? v = m.consumeOne callee args v (facts.get? v) p := by
  unfold consume consumeOne
  cases h : Position.argument? args p with
  | none => simp
  | some w =>
    by_cases hv : v = w
    · simp [hv]
    · simp [hv, Ne.symm hv]

theorem get?_produce (facts : Facts) (p : Position) (v : ValueId) :
    (m.produce callee args result facts p).get? v =
      m.produceOne callee args result v (facts.get? v) p := by
  unfold produce produceOne
  cases h : target? args result p with
  | none => simp
  | some w =>
    by_cases hv : v = w
    · simp [hv]
    · simp [hv, Ne.symm hv]

/-- A fold that acts on each value separately can be followed on one value. -/
theorem get?_foldl_pointwise {β : Type} {f : Facts → β → Facts} {g : Observation → β → Observation}
    {v : ValueId} (h : ∀ facts b, (f facts b).get? v = g (facts.get? v) b) (bs : List β)
    (facts : Facts) : (bs.foldl f facts).get? v = bs.foldl g (facts.get? v) := by
  induction bs generalizing facts with
  | nil => rfl
  | cons b bs ih => rw [List.foldl_cons, List.foldl_cons, ih, h]

/-- **Calls act on each value separately.** -/
theorem get?_apply (facts : Facts) (v : ValueId) :
    (m.apply callee args result facts).get? v =
      m.effect callee args result v (facts.get? v) := by
  -- both folds, over the consumed and over the produced positions, act on `v` by itself
  have hconsume := get?_foldl_pointwise (v := v) (fun facts p => m.get?_consume callee args facts p v)
  have hproduce :=
    get?_foldl_pointwise (v := v) (fun facts p => m.get?_produce callee args result facts p v)
  unfold apply effect
  split
  · simp only
    split
    · rw [hproduce, hconsume]
    · exact hconsume _ _
  · rfl

/-- A relation between observations that every consumed and every produced position keeps is kept by
the whole call. -/
theorem effect_rel {R : Observation → Observation → Prop} {v : ValueId}
    (hmove : ∀ o o', R o o' →
      R (some (m.next callee (o.getD .uninit))) (some (m.next callee (o'.getD .uninit))))
    (hset : R (some (m.next callee .uninit)) (some (m.next callee .uninit)))
    {o o' : Observation} (h : R o o') :
    R (m.effect callee args result v o) (m.effect callee args result v o') := by
  have hconsume := List.foldl_rel (l := FiniteSet.toList (m.info callee).consumers)
    (f := m.consumeOne callee args v) (g := m.consumeOne callee args v) h fun p _ o o' h => by
      unfold consumeOne
      split
      · exact hmove _ _ h
      · exact h
  unfold effect
  split
  · simp only
    split
    · -- what is produced does not depend on what the consumed positions have left
      apply List.foldl_rel hconsume
      intro p _ o o' h
      unfold produceOne
      split
      · exact hset
      · exact h
    · exact hconsume
  · exact h

/-- A property that some step of a fold establishes and every step keeps holds at its end. -/
theorem foldl_of_mem {α β : Type} {f : α → β → α} {P : α → Prop} {b : β} (hb : ∀ a, P (f a b))
    (hkeep : ∀ a c, P a → P (f a c)) {bs : List β} (hmem : b ∈ bs) (a : α) : P (bs.foldl f a) := by
  induction bs generalizing a with
  | nil => cases hmem
  | cons c bs ih =>
    rcases List.mem_cons.1 hmem with rfl | hmem
    · exact List.foldlRecOn bs f (hb a) fun a ha c _ => hkeep a c ha
    · exact ih hmem _

/-- A value that stands at none of the positions keeps its observation. -/
theorem effect_of_not_touches {v : ValueId} (h : ¬ m.Touches callee args result v)
    (o : Observation) : m.effect callee args result v o = o := by
  unfold effect
  split
  · next hobserves =>
    -- every single position leaves `v` alone, so the folds do
    have hconsume : (FiniteSet.toList (m.info callee).consumers).foldl
        (m.consumeOne callee args v) o = o := by
      refine List.foldlRecOn (motive := fun x => x = o) _ _ rfl ?_
      rintro - rfl p hp
      exact if_neg fun hv => h ⟨hobserves, Or.inl ⟨p, hp, hv⟩⟩
    simp only [hconsume]
    split
    · next hfactory =>
      refine List.foldlRecOn (motive := fun x => x = o) _ _ rfl ?_
      rintro - rfl p hp
      exact if_neg fun hv => h ⟨hobserves, Or.inr ⟨hfactory, p, hp, hv⟩⟩
    · rfl
  · rfl

/-- A value that a call touches has a state behind it, even if it had none before. -/
theorem isSome_effect {v : ValueId} (h : m.Touches callee args result v) (o : Observation) :
    (m.effect callee args result v o).isSome = true := by
  obtain ⟨hobserves, htouched⟩ := h
  have hconsume : ∀ o p, o.isSome = true → (m.consumeOne callee args v o p).isSome = true := by
    intro o p ho
    unfold consumeOne
    split
    · rfl
    · exact ho
  have hproduce : ∀ o p, o.isSome = true →
      (m.produceOne callee args result v o p).isSome = true := by
    intro o p ho
    unfold produceOne
    split
    · rfl
    · exact ho
  unfold effect
  rw [if_pos hobserves]
  simp only
  -- a position of either kind leaves a state at `v`, and no later one takes it away
  rcases htouched with ⟨p, hp, hv⟩ | ⟨hfactory, p, hp, hv⟩
  · have hmoved : ((FiniteSet.toList (m.info callee).consumers).foldl
        (m.consumeOne callee args v) o).isSome = true := by
      apply foldl_of_mem (P := fun o : Observation => o.isSome = true) ?_ hconsume hp
      intro o
      rw [consumeOne, if_pos hv]
      rfl
    split
    · -- whatever is produced on top leaves a state
      exact List.foldlRecOn (motive := fun o : Observation => o.isSome = true) _ _ hmoved
        fun o ho p _ => hproduce o p ho
    · exact hmoved
  · rw [if_pos hfactory]
    apply foldl_of_mem (P := fun o : Observation => o.isSome = true) ?_ hproduce hp
    intro o
    rw [produceOne, if_pos hv]
    rfl

/-! ## §5 A small model -/

/-- A model that knows one function of each role, each of its first argument. Runs on small programs
can be computed with it. -/
def small (coverage : Coverage) (mode : Mode) : CallModel :=
  let entry := fun (name : String) (token : Token) => (name, ⟨name, token, [0], []⟩)
  let known : KnownTable := ⟨FiniteMap.ofList
    [entry "extract" .extract, entry "rebuild" .rebuild, entry "release" .release,
      entry "access" .access]⟩
  ⟨⟨known, .empty⟩, coverage, mode⟩

end CallModel

end Typestate
