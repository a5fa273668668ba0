import Typestate.Proofs.Bindings
import Typestate.Proofs.Bodies
import Typestate.Proofs.Diagnosis

/-!
# Fresh identities

A builder counts: every value and every instruction that is asked for gets the next number. The
counters are shared by all functions, and the instructions of one body may stand in any of its blocks,
so the numbers do not follow the order of the program. They follow the order of the steps, and that is
what keeps identities apart in the program that is built.

## Contents

- §1 The instructions that steps emit
- §2 The values that steps hand out
- §3 `FreshIdentities`: built programs
-/

namespace Typestate

/-! ## §1 Emitted instructions -/

/-- The instructions that a step emitted, each with the name of its function. -/
def BuildStep.emission : BuildStep × BuildResult → List (String × Instruction)
  | (define name _ body, .body results) => (BodyBuilder.emitted body results).map fun i => (name, i)
  | _ => []

/-- The number of instructions that a step asks for. -/
def BuildStep.emissions : BuildStep → Nat
  | define _ _ body => BodyBuilder.emissions body
  | _ => 0

/-- The instructions of a program, each with the name of its function. -/
def Program.places (p : Program) : List (String × Instruction) :=
  p.instructions.map fun e => (e.1.name, e.2)

theorem Program.places_append (functions : List Function) (f : Function)
    (names : FiniteMap ValueId String) :
    Program.places ⟨functions ++ [f], names⟩ =
      Program.places ⟨functions, names⟩ ++ f.instructions.map fun i => (f.name, i) := by
  simp [places, Program.instructions]

namespace Builder

/-- From `b` to `b'` the given instructions were added, numbered from `k` on. -/
structure Emits (b b' : Builder) (k : Nat) (es : List (String × Instruction)) : Prop where
  numbers : es.map (·.2.id.index) = wordsFrom k es.length
  nextInst : b'.nextInst = UInt32.ofNat (k + es.length)
  places : b'.program.places.Perm (b.program.places ++ es)

variable {b b' c : Builder} {s : BuildStep} {r : BuildResult} {k : Nat} {steps : List BuildStep}
  {results : List BuildResult} {es ds : List (String × Instruction)} {vs ws : List ValueId}

theorem Emits.refl (h : b.nextInst = UInt32.ofNat k) : b.Emits b k [] :=
  ⟨rfl, h, by rw [List.append_nil]⟩

theorem Emits.trans (h : b.Emits b' k es) (h' : b'.Emits c (k + es.length) ds) :
    b.Emits c k (es ++ ds) where
  numbers := by
    rw [List.map_append, h.numbers, h'.numbers, List.length_append, wordsFrom_add]
  nextInst := by rw [h'.nextInst, List.length_append, Nat.add_assoc]
  places := by
    rw [← List.append_assoc]
    exact h'.places.trans (h.places.append_right ds)

/-- Fresh values add neither functions nor instructions. -/
theorem frame_parameters (b : Builder) (name : String) (first count : Nat) :
    (b.parameters name first count).2.program.functions = b.program.functions ∧
      (b.parameters name first count).2.nextInst = b.nextInst := by
  induction count generalizing b first with
  | zero => exact ⟨rfl, rfl⟩
  | succ count ih => exact ih (b.value (name ++ ".arg" ++ toString first)).2 (first + 1)

/-- A definition adds the function that its body was built for. -/
theorem of_define {name : String} {params : List ValueId} {body : List BodyStep}
    (h : b.step (.define name params body) = some (r, b')) :
    ∃ results built, (BodyBuilder.start b.nextInst).run body = some (results, built) ∧
      r = .body results ∧
      b' = { b with nextInst := built.nextInst }.addFunction ⟨name, params, none, built.blocks⟩ := by
  simp only [step, Option.bind_eq_bind, Option.bind_eq_some_iff, Prod.exists, Option.pure_def,
    Option.some.injEq, Prod.mk.injEq] at h
  obtain ⟨results, built, hrun, rfl, rfl⟩ := h
  exact ⟨results, built, hrun, rfl, rfl⟩

/-- A step emits what its body gives back. -/
theorem emits_of_step (h : b.step s = some (r, b')) (hk : b.nextInst = UInt32.ofNat k) :
    b.Emits b' k (BuildStep.emission (s, r)) ∧
      (BuildStep.emission (s, r)).length = s.emissions := by
  cases s with
  | value name =>
    cases h
    exact ⟨⟨rfl, hk, by simp [BuildStep.emission, Program.places, Program.instructions]⟩, rfl⟩
  | declare name arity outputArg =>
    cases h
    obtain ⟨hfunctions, hnext⟩ := b.frame_parameters name 0 arity
    refine ⟨⟨rfl, hnext.trans hk, ?_⟩, rfl⟩
    simp [BuildStep.emission, addFunction, Program.places, Program.instructions, hfunctions,
      Function.instructions]
  | define name params body =>
    obtain ⟨results, built, hrun, rfl, rfl⟩ := of_define h
    obtain ⟨hemits, hlength⟩ := BodyBuilder.emits_of_run hrun hk
    -- a new body has no instructions but those that its steps emit
    have hbody : built.instructions.Perm (BodyBuilder.emitted body results) := hemits.instructions
    simp only [BuildStep.emission, BuildStep.emissions, List.length_map]
    refine ⟨⟨?_, ?_, ?_⟩, hlength⟩
    · rw [List.map_map, List.length_map]
      exact hemits.numbers
    · rw [List.length_map]
      exact hemits.nextInst
    · show (Program.places ⟨b.program.functions ++ [_], b.program.valueNames⟩).Perm _
      rw [Program.places_append]
      exact (hbody.map _).append_left _

/-- The instructions that the steps emitted. -/
def emitted (steps : List BuildStep) (results : List BuildResult) : List (String × Instruction) :=
  (steps.zip results).flatMap BuildStep.emission

/-- The number of instructions that the steps ask for. -/
def emissions (steps : List BuildStep) : Nat := (steps.map BuildStep.emissions).sum

/-- **Building emits what its steps give back**, under numbers that count on over all bodies. -/
theorem emits_of_run (h : b.run steps = some (results, c)) (hk : b.nextInst = UInt32.ofNat k) :
    b.Emits c k (emitted steps results) ∧ (emitted steps results).length = emissions steps := by
  induction steps generalizing b k results with
  | nil =>
    cases h
    exact ⟨.refl hk, rfl⟩
  | cons s steps ih =>
    obtain ⟨r, b', rest, hstep, hrest, rfl⟩ := runSteps_cons_eq_some_iff.1 h
    obtain ⟨hfirst, hcount⟩ := emits_of_step hstep hk
    obtain ⟨hlater, hlength⟩ := ih hrest hfirst.nextInst
    refine ⟨hfirst.trans hlater, ?_⟩
    show (BuildStep.emission (s, r) ++ emitted steps rest).length = _
    rw [List.length_append, hcount, hlength, emissions, emissions, List.map_cons, List.sum_cons]

end Builder

/-! ## §2 Values -/

/-- The number of values that a step asks for. -/
def BuildStep.requests : BuildStep → Nat
  | value _ => 1
  | declare _ arity _ => arity
  | define .. => 0

/-- The value that a step gave back. -/
def BuildResult.value? : BuildResult → Option ValueId
  | value id => some id
  | _ => none

/-- The parameters of the functions without body. -/
def Program.declaredValues (p : Program) : List ValueId :=
  (p.functions.filter fun f => !f.hasBody).flatMap (·.params)

/-- The values that were handed out: given back, or made parameters of a function without body. -/
def handedOut (results : List BuildResult) (p : Program) : List ValueId :=
  results.filterMap BuildResult.value? ++ p.declaredValues

theorem Program.declaredValues_append (functions : List Function) (f : Function)
    (names : FiniteMap ValueId String) :
    Program.declaredValues ⟨functions ++ [f], names⟩ =
      Program.declaredValues ⟨functions, names⟩ ++ if f.hasBody then [] else f.params := by
  unfold declaredValues
  rw [List.filter_append, List.flatMap_append]
  cases hbody : f.hasBody <;> simp [hbody]

namespace Builder

/-- From `b` to `b'` the given values were named, numbered from `k` on. -/
structure Names (b b' : Builder) (k : Nat) (vs : List ValueId) : Prop where
  numbers : vs.map (·.index) = wordsFrom k vs.length
  nextValue : b'.nextValue = UInt32.ofNat (k + vs.length)
  names : ∀ v, b'.program.valueNames.contains v = true ↔
    b.program.valueNames.contains v = true ∨ v ∈ vs

variable {b b' c : Builder} {s : BuildStep} {r : BuildResult} {k : Nat} {steps : List BuildStep}
  {results : List BuildResult} {vs ws : List ValueId}

theorem Names.refl (h : b.nextValue = UInt32.ofNat k) : b.Names b k [] :=
  ⟨rfl, h, by simp⟩

theorem Names.trans (h : b.Names b' k vs) (h' : b'.Names c (k + vs.length) ws) :
    b.Names c k (vs ++ ws) where
  numbers := by
    rw [List.map_append, h.numbers, h'.numbers, List.length_append, wordsFrom_add]
  nextValue := by rw [h'.nextValue, List.length_append, Nat.add_assoc]
  names v := by rw [h'.names, h.names, List.mem_append, or_assoc]

/-- A fresh value gets the next number. -/
theorem names_value (hk : b.nextValue = UInt32.ofNat k) (name : String) :
    b.Names (b.value name).2 k [(b.value name).1] where
  numbers := congrArg (fun w => [w]) hk
  nextValue := by simp [value, hk]
  names v := by
    simp only [value, FiniteMap.contains, FiniteMap.get?_insert, List.mem_singleton]
    by_cases hv : v = ⟨b.nextValue⟩ <;> simp [hv]

/-- The parameters of a declaration are numbered one after the other. -/
theorem names_parameters (hk : b.nextValue = UInt32.ofNat k) (name : String) (first count : Nat) :
    b.Names (b.parameters name first count).2 k (b.parameters name first count).1 ∧
      (b.parameters name first count).1.length = count := by
  induction count generalizing b k first with
  | zero => exact ⟨.refl hk, rfl⟩
  | succ count ih =>
    have hfirst := names_value hk (name ++ ".arg" ++ toString first)
    obtain ⟨hlater, hlength⟩ := ih hfirst.nextValue (first + 1)
    exact ⟨hfirst.trans hlater, congrArg (· + 1) hlength⟩

/-- A step names the values that it gives back or declares. -/
theorem names_of_step (h : b.step s = some (r, b')) (hk : b.nextValue = UInt32.ofNat k) :
    ∃ vs, b.Names b' k vs ∧ vs.length = s.requests ∧
      (r.value?.toList ++ b'.program.declaredValues).Perm (b.program.declaredValues ++ vs) := by
  cases s with
  | value name =>
    cases h
    exact ⟨_, names_value hk name, rfl, List.perm_append_comm⟩
  | declare name arity outputArg =>
    cases h
    obtain ⟨hnames, hlength⟩ := names_parameters hk name 0 arity
    refine ⟨_, ⟨hnames.numbers, hnames.nextValue, hnames.names⟩, hlength, ?_⟩
    have hdeclared := Program.declaredValues_append b.program.functions
      ⟨name, (b.parameters name 0 arity).1, outputArg, []⟩ b.program.valueNames
    simp only [BuildResult.value?, Option.toList_none, List.nil_append, addFunction,
      (b.frame_parameters name 0 arity).1]
    rw [Program.declaredValues] at hdeclared ⊢
    rw [hdeclared]
    exact .refl _
  | define name params body =>
    obtain ⟨results, built, hrun, rfl, rfl⟩ := of_define h
    -- a body has at least the block that it starts with, so it declares no values
    have hblocks : built.blocks ≠ [] := by
      have hcount := ((BodyBuilder.after_start b.nextInst).run hrun).blocks
      rintro hempty
      rw [hempty, blockCount, List.length_nil] at hcount
      omega
    refine ⟨[], ⟨rfl, hk, by simp [addFunction]⟩, rfl, ?_⟩
    have hdeclared := Program.declaredValues_append b.program.functions
      ⟨name, params, none, built.blocks⟩ b.program.valueNames
    have hbody : Function.hasBody ⟨name, params, none, built.blocks⟩ = true := by
      simpa [Function.hasBody] using hblocks
    rw [hbody] at hdeclared
    exact .of_eq hdeclared

/-- The number of values that the steps ask for. -/
def requests (steps : List BuildStep) : Nat := (steps.map BuildStep.requests).sum

/-- **Building names what its steps hand out**, under numbers that count on. -/
theorem names_of_run (h : b.run steps = some (results, c)) (hk : b.nextValue = UInt32.ofNat k) :
    ∃ vs, b.Names c k vs ∧ vs.length = requests steps ∧
      (handedOut results c.program).Perm (b.program.declaredValues ++ vs) := by
  induction steps generalizing b k results with
  | nil =>
    cases h
    exact ⟨[], .refl hk, rfl, by rw [List.append_nil]; rfl⟩
  | cons s steps ih =>
    obtain ⟨r, b', rest, hstep, hrest, rfl⟩ := runSteps_cons_eq_some_iff.1 h
    obtain ⟨vs, hfirst, hcount, hvs⟩ := names_of_step hstep hk
    obtain ⟨ws, hlater, hlength, hws⟩ := ih hrest hfirst.nextValue
    refine ⟨vs ++ ws, hfirst.trans hlater, ?_, ?_⟩
    · rw [List.length_append, hcount, hlength, requests, requests, List.map_cons, List.sum_cons]
    · have hcons : handedOut (r :: rest) c.program =
          r.value?.toList ++ handedOut rest c.program := by
        unfold handedOut
        rw [List.filterMap_cons]
        cases r.value? <;> rfl
      -- what this step gave back, then what the later ones gave back or declared
      calc handedOut (r :: rest) c.program
        _ = r.value?.toList ++ handedOut rest c.program := hcons
        List.Perm _ (r.value?.toList ++ (b'.program.declaredValues ++ ws)) := hws.append_left _
        _ = (r.value?.toList ++ b'.program.declaredValues) ++ ws := by rw [List.append_assoc]
        List.Perm _ ((b.program.declaredValues ++ vs) ++ ws) := hvs.append_right ws
        _ = b.program.declaredValues ++ (vs ++ ws) := by rw [List.append_assoc]

/-! ## §3 Built programs -/

/-- Steps other than definitions cannot fail. -/
theorem step_eq_none_iff :
    b.step s = none ↔
      ∃ name params body, s = .define name params body ∧
        ∃ front t back, body = front ++ t :: back ∧ Misplaced front t := by
  cases s with
  | value name => exact iff_of_false (fun h => nomatch h) (by rintro ⟨_, _, _, ⟨⟩, -⟩)
  | declare name arity outputArg =>
    exact iff_of_false (fun h => nomatch h) (by rintro ⟨_, _, _, ⟨⟩, -⟩)
  | define name params body =>
    have hbody : (BodyBuilder.start b.nextInst).run body = none ↔
        ∃ front t back, body = front ++ t :: back ∧ Misplaced ([] ++ front) t :=
      BodyBuilder.run_eq_none_iff (BodyBuilder.after_start b.nextInst)
    have hstep : b.step (.define name params body) = none ↔
        (BodyBuilder.start b.nextInst).run body = none := by
      cases hrun : (BodyBuilder.start b.nextInst).run body <;> simp [step, hrun]
    rw [hstep, hbody]
    constructor
    · exact fun h => ⟨name, params, body, rfl, h⟩
    · rintro ⟨_, _, _, ⟨⟩, h⟩
      exact h

/-- Building fails exactly when a step of some body is misplaced. -/
theorem run_eq_none_iff :
    b.run steps = none ↔
      ∃ name params body, .define name params body ∈ steps ∧
        ∃ front t back, body = front ++ t :: back ∧ Misplaced front t := by
  induction steps generalizing b with
  | nil => simp [run, runSteps]
  | cons s steps ih =>
    constructor
    · intro hnone
      rcases runSteps_cons_eq_none_iff.1 hnone with hstep | ⟨r, b', -, hrest⟩
      · obtain ⟨name, params, body, rfl, h⟩ := step_eq_none_iff.1 hstep
        exact ⟨name, params, body, List.mem_cons_self .., h⟩
      · obtain ⟨name, params, body, hmem, h⟩ := ih.1 hrest
        exact ⟨name, params, body, List.mem_cons_of_mem _ hmem, h⟩
    · rintro ⟨name, params, body, hmem, h⟩
      rcases List.mem_cons.1 hmem with heq | hmem
      · have hstep : b.step s = none := step_eq_none_iff.2 ⟨name, params, body, heq.symm, h⟩
        exact runSteps_cons_eq_none_iff.2 (Or.inl hstep)
      · -- the later steps fail from every builder, so from the one that this step leads to
        cases hstep : b.step s with
        | none => exact runSteps_cons_eq_none_iff.2 (Or.inl hstep)
        | some result =>
          have hrest := (ih (b := result.2)).2 ⟨name, params, body, hmem, h⟩
          exact runSteps_cons_eq_none_iff.2 (Or.inr ⟨result.1, result.2, hstep, hrest⟩)

end Builder

/-- In the program built by the steps no identity is used twice. -/
structure FreshIdentities (steps : List BuildStep) (results : List BuildResult) (p : Program) :
    Prop where
  /-- The identities of instructions are 0, 1, 2, …, each once. -/
  identities :
    (p.instructions.map (·.2.id.index.toNat)).Perm (List.range (Builder.emissions steps))
  /-- The instructions are those that were emitted, each under the identity given back for it. -/
  returned : p.places.Perm (Builder.emitted steps results)
  /-- The identities count the steps that emit. -/
  numbered :
    (Builder.emitted steps results).map (·.2.id.index.toNat) = List.range (Builder.emissions steps)
  /-- No value is handed out twice. -/
  values : (handedOut results p).Nodup
  /-- The named values are those that were handed out. -/
  names : ∀ v, v ∈ handedOut results p ↔ p.valueNames.contains v = true
  /-- The check finds no repeated identity, whatever the entry points are. -/
  validated : ∀ entries i, p.validate entries ≠ .error (.duplicateInstruction i)

namespace Builder

variable {b : Builder} {steps : List BuildStep} {results : List BuildResult}

/-- All that is said of identities follows from what was emitted and named, counted from zero on. -/
theorem freshIdentities_of_run (h : start.run steps = some (results, b))
    (hinstructions : emissions steps < 2 ^ 32) (hvalues : requests steps < 2 ^ 32) :
    FreshIdentities steps results b.program := by
  obtain ⟨hemits, hemissions⟩ := emits_of_run (k := 0) h rfl
  obtain ⟨vs, hnames, hrequests, hvs⟩ := names_of_run (k := 0) h rfl
  have hplaces : b.program.places.Perm (emitted steps results) := hemits.places
  have hhanded : (handedOut results b.program).Perm vs := hvs
  -- few enough words are as many numbers
  have hnumbered : (emitted steps results).map (·.2.id.index.toNat) =
      List.range (emissions steps) := by
    rw [← map_toNat_wordsFrom hinstructions, ← hemissions, ← hemits.numbers, List.map_map]
    rfl
  -- the order of the program is another one, but it has the same places
  have hidentities : (b.program.instructions.map (·.2.id.index.toNat)).Perm
      (List.range (emissions steps)) := by
    have hmap := hplaces.map (·.2.id.index.toNat)
    rw [hnumbered, Program.places, List.map_map] at hmap
    exact hmap
  -- different numbers belong to different identities
  have hnodup : ((b.program.functions.flatMap (·.instructions)).map (·.id)).Nodup := by
    have hids : (b.program.functions.flatMap (·.instructions)).map (·.id) =
        b.program.instructions.map (·.2.id) := by
      simp [Program.instructions, List.map_flatMap, Function.comp_def]
    rw [hids]
    have hpair := List.pairwise_map.1 (hidentities.nodup_iff.2 List.nodup_range)
    exact List.pairwise_map.2 (hpair.imp fun hne heq => hne (by rw [heq]))
  exact {
    identities := hidentities
    returned := hplaces
    numbered := hnumbered
    values := hhanded.nodup_iff.2
      (nodup_of_map_eq_wordsFrom (hrequests ▸ hnames.numbers) hvalues)
    names := fun v => by
      rw [hhanded.mem_iff, hnames.names]
      simp [start, Program.empty, FiniteMap.contains]
    validated := Program.validate_ne_duplicateInstruction hnodup }

/-- **Built programs have fresh identities.** As long as the words do not run out, building fails
exactly when a step of a body is misplaced, it fails at that step, and otherwise no identity is used
twice. -/
theorem run_fresh (steps : List BuildStep) (hinstructions : emissions steps < 2 ^ 32)
    (hvalues : requests steps < 2 ^ 32) :
    (start.run steps = none ↔
      ∃ name params body, .define name params body ∈ steps ∧
        ∃ front t back, body = front ++ t :: back ∧ Misplaced front t) ∧
    (∀ first before results b t,
      (BodyBuilder.start first).run before = some (results, b) →
        (b.step t = none ↔ Misplaced before t)) ∧
    ∀ results b, start.run steps = some (results, b) → FreshIdentities steps results b.program := by
  refine ⟨run_eq_none_iff, fun first before results b t h => ?_, fun results b h => ?_⟩
  · exact BodyBuilder.step_eq_none_iff ((BodyBuilder.after_start first).run h)
  · exact freshIdentities_of_run h hinstructions hvalues

/-- Steps that scatter the instructions of a body over its blocks. -/
def weaving : List BuildStep :=
  [.value "s", .declare "take" 2 none,
    .define "main" [⟨0⟩] [.newBlock, .ret none, .switchTo 0, .call "take" [⟨0⟩] none, .edge 0 1,
      .switchTo 1, .other "late"],
    .value "t", .define "helper" [] [.ret none]]

/-- The steps build a program with fresh identities; with one more body they fail. -/
theorem run_weaving :
    emissions weaving < 2 ^ 32 ∧ requests weaving < 2 ^ 32 ∧
      (∃ results b, start.run weaving = some (results, b) ∧
        FreshIdentities weaving results b.program ∧
        b.program.instructions.map (·.2.id.index) = [1, 0, 2, 3]) ∧
      start.run (weaving ++ [.define "lost" [] [.switchTo 1, .other "nowhere"]]) = none := by
  have hmisplaced : Misplaced [.switchTo 1] (.other "nowhere") := .emission rfl (by decide)
  refine ⟨by decide, by decide, ⟨_, _, rfl, ?_, rfl⟩, ?_⟩
  · exact (run_fresh weaving (by decide) (by decide)).2.2 _ _ rfl
  · exact (run_fresh _ (by decide) (by decide)).1.2
      ⟨"lost", [], _, by simp [weaving], [.switchTo 1], _, [], rfl, hmisplaced⟩

end Builder

end Typestate
