import Mathlib.Algebra.Order.Ring.Nat
import Typestate.Program.Builder

/-!
# Bodies under construction

The steps that build a body scatter its instructions over its blocks in any order. What can be said of
them all the same: the instructions of the body are those that the steps emitted, each under the
identity that its step gave back, and in the order of the steps the identities count on.

A step fails in one way only, and the steps before it say when: it emits into a block that does not
exist, or adds a successor to one.

## Contents

- §1 `Misplaced`: steps that fail
- §2 Numbers counted from one on
- §3 The instructions that steps emit
-/

namespace Typestate

/-! ## §1 Misplaced steps -/

/-- The operation that a step emits. -/
def BodyStep.op? : BodyStep → Option Op
  | call callee args result => some (.call callee args result)
  | ret value => some (.ret value)
  | other text => some (.other text)
  | _ => none

/-- The number of blocks of a body after the steps. -/
def blockCount (steps : List BodyStep) : Nat := 1 + steps.count .newBlock

/-- The block that receives instructions after the steps, which are given latest first. -/
def receiverOfReverse : List BodyStep → Nat
  | [] => 0
  | .newBlock :: earlier => blockCount earlier
  | .switchTo block :: _ => block.toNat
  | _ :: earlier => receiverOfReverse earlier

/-- The block that receives instructions after the steps: the one that was opened or switched to
last. -/
def receiver (steps : List BodyStep) : Nat := receiverOfReverse steps.reverse

/-- After the steps `before`, the step emits into a block that does not exist or adds a successor to
one. -/
inductive Misplaced (before : List BodyStep) : BodyStep → Prop where
  | emission {s : BodyStep} :
      s.op?.isSome = true → blockCount before ≤ receiver before → Misplaced before s
  | edge {source target : UInt64} :
      blockCount before ≤ source.toNat → Misplaced before (.edge source target)

namespace BodyBuilder

variable {b b' c : BodyBuilder} {s : BodyStep} {r : BodyResult} {op : Op} {k : Nat}
  {before steps : List BodyStep} {results : List BodyResult}

/-- The builder stands where the steps lead. -/
structure After (b : BodyBuilder) (steps : List BodyStep) : Prop where
  blocks : b.blocks.length = blockCount steps
  current : b.current = receiver steps

theorem after_start (first : UInt32) : (start first).After [] := ⟨rfl, rfl⟩

theorem emit_eq_none_iff (h : b.After before) (hop : s.op? = some op) :
    b.emit op = none ↔ Misplaced before s := by
  unfold emit
  rw [h.blocks, h.current]
  constructor
  · intro hnone
    refine .emission (by rw [hop]; rfl) (Nat.not_lt.1 fun hlt => ?_)
    rw [if_pos hlt] at hnone
    cases hnone
  · rintro (⟨-, hle⟩ | _)
    · exact if_neg (Nat.not_lt.2 hle)
    · cases hop

/-- **A step fails exactly when it is misplaced.** -/
theorem step_eq_none_iff (h : b.After before) : b.step s = none ↔ Misplaced before s := by
  cases s with
  | call callee args result => exact emit_eq_none_iff h rfl
  | ret value => exact emit_eq_none_iff h rfl
  | other text => exact emit_eq_none_iff h rfl
  | newBlock => exact ⟨fun hnone => (nomatch hnone), by rintro ⟨⟨⟩, -⟩⟩
  | switchTo block => exact ⟨fun hnone => (nomatch hnone), by rintro ⟨⟨⟩, -⟩⟩
  | edge source target =>
    rw [step, h.blocks]
    constructor
    · intro hnone
      refine .edge (Nat.not_lt.1 fun hlt => ?_)
      rw [if_pos hlt] at hnone
      cases hnone
    · rintro (⟨⟨⟩, -⟩ | hle)
      exact if_neg (Nat.not_lt.2 hle)

theorem of_emit (h : b.emit op = some (r, b')) :
    r = .instruction ⟨b.nextInst⟩ ∧ b.current < b.blocks.length ∧
      b' = { b with
        nextInst := b.nextInst + 1
        blocks := b.blocks.modify b.current fun block =>
          { block with instructions := block.instructions ++ [⟨⟨b.nextInst⟩, op⟩] } } := by
  unfold emit at h
  split at h
  · next hlt =>
    cases h
    exact ⟨rfl, hlt, rfl⟩
  · cases h

theorem of_edge {source target : UInt64} (h : b.step (.edge source target) = some (r, b')) :
    r = .nothing ∧ source.toNat < b.blocks.length ∧
      b' = { b with
        blocks := b.blocks.modify source.toNat fun block =>
          { block with successors := block.successors ++ [target] } } := by
  rw [step] at h
  split at h
  · next hlt =>
    cases h
    exact ⟨rfl, hlt, rfl⟩
  · cases h

/-- A step moves the builder on. -/
theorem After.step (h : b.After before) (hstep : b.step s = some (r, b')) :
    b'.After (before ++ [s]) := by
  have hblocks := h.blocks
  have hcurrent := h.current
  -- a step that neither opens nor switches leaves both as they are
  have hstays (hnew : s ≠ .newBlock)
      (hreceiver : receiverOfReverse (s :: before.reverse) = receiverOfReverse before.reverse)
      (hlength : b'.blocks.length = b.blocks.length) (hsame : b'.current = b.current) :
      b'.After (before ++ [s]) := by
    refine ⟨?_, ?_⟩
    · rw [hlength, hblocks, blockCount, blockCount, List.count_append,
        List.count_singleton, beq_false_of_ne hnew]
      rfl
    · rw [hsame, hcurrent, receiver, receiver, List.reverse_append]
      exact hreceiver.symm
  have hemitted (op : Op) (hop : b.emit op = some (r, b')) :
      b'.blocks.length = b.blocks.length ∧ b'.current = b.current := by
    obtain ⟨-, -, rfl⟩ := of_emit hop
    exact ⟨List.length_modify .., rfl⟩
  cases s with
  | call callee args result =>
    obtain ⟨hlength, hsame⟩ := hemitted _ hstep
    exact hstays (by simp) rfl hlength hsame
  | ret value =>
    obtain ⟨hlength, hsame⟩ := hemitted _ hstep
    exact hstays (by simp) rfl hlength hsame
  | other text =>
    obtain ⟨hlength, hsame⟩ := hemitted _ hstep
    exact hstays (by simp) rfl hlength hsame
  | newBlock =>
    cases hstep
    refine ⟨?_, ?_⟩
    · simp [blockCount, hblocks, Nat.add_assoc]
    · simp [receiver, receiverOfReverse, blockCount, hblocks]
  | switchTo block =>
    cases hstep
    exact ⟨by simp [blockCount, hblocks], by simp [receiver, receiverOfReverse]⟩
  | edge source target =>
    obtain ⟨-, -, rfl⟩ := of_edge hstep
    exact hstays (by simp) rfl (List.length_modify ..) rfl

/-- So do steps one after the other. -/
theorem After.run (h : b.After before) (hrun : b.run steps = some (results, c)) :
    c.After (before ++ steps) := by
  induction steps generalizing b before results with
  | nil =>
    cases hrun
    rwa [List.append_nil]
  | cons s steps ih =>
    obtain ⟨r, b', rest, hstep, hrest, -⟩ := runSteps_cons_eq_some_iff.1 hrun
    have hafter := ih (h.step hstep) hrest
    rwa [List.append_assoc] at hafter

/-- A body fails exactly when one of its steps is misplaced. -/
theorem run_eq_none_iff (h : b.After before) :
    b.run steps = none ↔
      ∃ front s back, steps = front ++ s :: back ∧ Misplaced (before ++ front) s := by
  induction steps generalizing b before with
  | nil => simp [BodyBuilder.run, runSteps]
  | cons s steps ih =>
    constructor
    · intro hnone
      rcases runSteps_cons_eq_none_iff.1 hnone with hstep | ⟨r, b', hstep, hrest⟩
      · refine ⟨[], s, steps, rfl, ?_⟩
        rw [List.append_nil]
        exact (step_eq_none_iff h).1 hstep
      · obtain ⟨front, t, back, rfl, hmisplaced⟩ := (ih (h.step hstep)).1 hrest
        exact ⟨s :: front, t, back, rfl, by rwa [List.append_assoc] at hmisplaced⟩
    · rintro ⟨front, t, back, heq, hmisplaced⟩
      cases front with
      | nil =>
        cases heq
        rw [List.append_nil] at hmisplaced
        exact runSteps_cons_eq_none_iff.2 (Or.inl ((step_eq_none_iff h).2 hmisplaced))
      | cons u front =>
        cases heq
        -- the steps in front of the misplaced one may fail as well
        cases hstep : b.step s with
        | none => exact runSteps_cons_eq_none_iff.2 (Or.inl hstep)
        | some result =>
          have hrest := (ih (h.step hstep)).2 ⟨front, t, back, rfl, by rwa [List.append_assoc]⟩
          exact runSteps_cons_eq_none_iff.2 (Or.inr ⟨result.1, result.2, hstep, hrest⟩)

end BodyBuilder

/-! ## §2 Numbers -/

/-- The `count` words from `first` on, which start again from zero behind the last one. -/
def wordsFrom (first count : Nat) : List UInt32 := (List.range' first count).map UInt32.ofNat

theorem wordsFrom_add (first m n : Nat) :
    wordsFrom first (m + n) = wordsFrom first m ++ wordsFrom (first + m) n := by
  unfold wordsFrom
  rw [← List.range'_append_1, List.map_append]

/-- Up to `2^32` words do not start again. -/
theorem map_toNat_wordsFrom {count : Nat} (h : count < 2 ^ 32) :
    (wordsFrom 0 count).map UInt32.toNat = List.range count := by
  have hword : ∀ n ∈ List.range count, (UInt32.ofNat n).toNat = n := by
    intro n hn
    have hlt := List.mem_range.1 hn
    simp only [UInt32.toNat_ofNat']
    omega
  unfold wordsFrom
  rw [List.map_map, ← List.range_eq_range']
  exact (List.map_congr_left hword).trans (List.map_id _)

/-- Lists whose numbers are counted from zero on have no repetition. -/
theorem nodup_of_map_eq_wordsFrom {α : Type} {f : α → UInt32} {l : List α} {count : Nat}
    (h : l.map f = wordsFrom 0 count) (hcount : count < 2 ^ 32) : l.Nodup := by
  have hnodup : (l.map (fun x => (f x).toNat)).Nodup := by
    have hmap : l.map (fun x => (f x).toNat) = List.range count := by
      rw [← map_toNat_wordsFrom hcount, ← h, List.map_map]
      rfl
    rw [hmap]
    exact List.nodup_range
  exact (List.pairwise_map.1 hnodup).imp fun hne heq => hne (by rw [heq])

/-! ## §3 Emitted instructions -/

/-- The instruction that a step emitted, given what it gave back. -/
def BodyStep.emission? : BodyStep × BodyResult → Option Instruction
  | (s, .instruction id) => s.op?.map fun op => ⟨id, op⟩
  | _ => none

/-- Adding to what one element of a list holds adds to what all of them hold together. -/
theorem perm_flatMap_modify {α β : Type} {f : α → α} {g : α → List β} {xs : List β}
    (hf : ∀ a, g (f a) = g a ++ xs) {l : List α} {i : Nat} (h : i < l.length) :
    ((l.modify i f).flatMap g).Perm (l.flatMap g ++ xs) := by
  induction l generalizing i with
  | nil => simp at h
  | cons a l ih =>
    cases i with
    | zero =>
      -- here the addition moves to the end past the rest of the list
      rw [List.modify_zero_cons, List.flatMap_cons, List.flatMap_cons, hf, List.append_assoc,
        List.append_assoc]
      exact (List.perm_append_comm).append_left _
    | succ i =>
      rw [List.modify_succ_cons, List.flatMap_cons, List.flatMap_cons, List.append_assoc]
      exact (ih (Nat.lt_of_succ_lt_succ h)).append_left _

namespace BodyBuilder

/-- The instructions that the steps of a body emitted. -/
def emitted (steps : List BodyStep) (results : List BodyResult) : List Instruction :=
  (steps.zip results).filterMap BodyStep.emission?

/-- The number of steps that emit. -/
def emissions (steps : List BodyStep) : Nat := steps.countP (·.op?.isSome)

/-- The instructions of a body under construction. -/
def instructions (b : BodyBuilder) : List Instruction := b.blocks.flatMap (·.instructions)

/-- From `b` to `b'` the given instructions were added, numbered from `k` on. -/
structure Emits (b b' : BodyBuilder) (k : Nat) (is : List Instruction) : Prop where
  numbers : is.map (·.id.index) = wordsFrom k is.length
  nextInst : b'.nextInst = UInt32.ofNat (k + is.length)
  instructions : b'.instructions.Perm (b.instructions ++ is)

variable {b b' c : BodyBuilder} {s : BodyStep} {r : BodyResult} {op : Op} {k : Nat}
  {steps : List BodyStep} {results : List BodyResult} {is js : List Instruction}

theorem Emits.refl (h : b.nextInst = UInt32.ofNat k) : b.Emits b k [] :=
  ⟨rfl, h, by rw [List.append_nil]⟩

theorem Emits.trans (h : b.Emits b' k is) (h' : b'.Emits c (k + is.length) js) :
    b.Emits c k (is ++ js) where
  numbers := by
    rw [List.map_append, h.numbers, h'.numbers, List.length_append, wordsFrom_add]
  nextInst := by rw [h'.nextInst, List.length_append, Nat.add_assoc]
  instructions := by
    rw [← List.append_assoc]
    exact h'.instructions.trans (h.instructions.append_right js)

theorem emits_of_emit (h : b.emit op = some (r, b')) (hk : b.nextInst = UInt32.ofNat k) :
    ∃ i : Instruction, r = .instruction i.id ∧ i.op = op ∧ b.Emits b' k [i] := by
  obtain ⟨rfl, hlt, rfl⟩ := of_emit h
  refine ⟨⟨⟨b.nextInst⟩, op⟩, rfl, rfl, ⟨?_, ?_, ?_⟩⟩
  · exact congrArg (fun w => [w]) hk
  · simp [hk]
  · exact perm_flatMap_modify (fun _ => rfl) hlt

/-- A step emits the instruction it gives back, if any. -/
theorem emits_of_step (h : b.step s = some (r, b')) (hk : b.nextInst = UInt32.ofNat k) :
    b.Emits b' k (BodyStep.emission? (s, r)).toList ∧
      (BodyStep.emission? (s, r)).isSome = s.op?.isSome := by
  have hemit (op : Op) (hop : s.op? = some op) (hstep : b.emit op = some (r, b')) :
      b.Emits b' k (BodyStep.emission? (s, r)).toList ∧
        (BodyStep.emission? (s, r)).isSome = s.op?.isSome := by
    obtain ⟨i, rfl, rfl, hemits⟩ := emits_of_emit hstep hk
    simp only [BodyStep.emission?, hop, Option.map_some, Option.toList_some]
    exact ⟨hemits, rfl⟩
  cases s with
  | call callee args result => exact hemit _ rfl h
  | ret value => exact hemit _ rfl h
  | other text => exact hemit _ rfl h
  | newBlock =>
    cases h
    exact ⟨⟨rfl, hk, by simp [instructions, BodyStep.emission?]⟩, rfl⟩
  | switchTo block =>
    cases h
    exact ⟨⟨rfl, hk, by simp [instructions, BodyStep.emission?]⟩, rfl⟩
  | edge source target =>
    obtain ⟨rfl, hlt, rfl⟩ := of_edge h
    -- successors are no instructions
    have hsame := perm_flatMap_modify (g := fun block : Block => block.instructions)
      (f := fun block => { block with successors := block.successors ++ [target] })
      (fun _ => (List.append_nil _).symm) hlt
    exact ⟨⟨rfl, hk, hsame⟩, rfl⟩

/-- **A body emits what its steps give back**, under numbers that count on. -/
theorem emits_of_run (h : b.run steps = some (results, c)) (hk : b.nextInst = UInt32.ofNat k) :
    b.Emits c k (emitted steps results) ∧ (emitted steps results).length = emissions steps := by
  induction steps generalizing b k results with
  | nil =>
    cases h
    exact ⟨.refl hk, rfl⟩
  | cons s steps ih =>
    obtain ⟨r, b', rest, hstep, hrest, rfl⟩ := runSteps_cons_eq_some_iff.1 h
    obtain ⟨hfirst, hsome⟩ := emits_of_step hstep hk
    obtain ⟨hlater, hlength⟩ := ih hrest hfirst.nextInst
    -- what this step emitted, if anything, comes in front
    have hcons : emitted (s :: steps) (r :: rest) =
        (BodyStep.emission? (s, r)).toList ++ emitted steps rest := by
      unfold emitted
      rw [List.zip_cons_cons, List.filterMap_cons]
      cases BodyStep.emission? (s, r) <;> rfl
    rw [hcons]
    refine ⟨hfirst.trans hlater, ?_⟩
    rw [List.length_append, hlength, emissions, emissions, List.countP_cons, ← hsome, Nat.add_comm]
    cases BodyStep.emission? (s, r) <;> rfl

end BodyBuilder

end Typestate
