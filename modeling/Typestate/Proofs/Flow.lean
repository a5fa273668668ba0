import Typestate.Proofs.Observation
import Typestate.Solver.Flow

/-!
# Flow through instructions

An instruction either enters a body of the program or acts on the facts by itself. This module names
the two cases, says what each operation on facts does through look-up, and separates the facts
behind an instruction (`flow`) from what a pass writes down about it (`Ledger.Records`).

## Contents

- §1 Passing arguments, reading back, recording returns
- §2 `Entering`: calls into a body
- §3 `flow`: the facts behind an instruction
- §4 `Along`: a property at every point of a run of instructions
- §5 `Ledger`: what is written down at an instruction
-/

namespace Typestate

/-! ## §1 Operations on facts -/

/-- Passing arguments gathers, at every parameter, what its arguments are observed to have; the
other operations are of the same kind. -/
theorem passArguments_eq_gather (facts : Facts) (pairs : List (ValueId × ValueId)) (passed : Facts) :
    passArguments facts pairs passed =
      Facts.gather (pairs.map fun p => (p.2, facts.get? p.1)) passed := by
  unfold passArguments Facts.gather
  rw [List.foldl_map]
  rfl

theorem readBack_eq_gather (exit : Facts) (pairs : List (ValueId × ValueId)) (facts : Facts) :
    readBack exit pairs facts = Facts.gather (pairs.map fun p => (p.1, exit.get? p.2)) facts := by
  unfold readBack Facts.gather
  rw [List.foldl_map]
  rfl

theorem recordExit_eq_gather (params : List ValueId) (facts exit : Facts) :
    recordExit params facts exit = Facts.gather (params.map fun p => (p, facts.get? p)) exit := by
  unfold recordExit Facts.gather
  rw [List.foldl_map]
  rfl

/-- Passing on top of what was passed before is joining with what is passed now. -/
theorem passArguments_eq_join (facts : Facts) (pairs : List (ValueId × ValueId)) (passed : Facts) :
    passArguments facts pairs passed =
      Facts.join passed (passArguments facts pairs FiniteMap.empty) := by
  rw [passArguments_eq_gather, passArguments_eq_gather, Facts.gather_eq_join]

theorem recordExit_eq_join (params : List ValueId) (facts exit : Facts) :
    recordExit params facts exit = Facts.join exit (recordExit params facts FiniteMap.empty) := by
  rw [recordExit_eq_gather, recordExit_eq_gather, Facts.gather_eq_join]

/-- A parameter receives at least what its argument has. -/
theorem le_get?_passArguments {pairs : List (ValueId × ValueId)} {a p : ValueId}
    (h : (a, p) ∈ pairs) (facts passed : Facts) :
    facts.get? a ≤ (passArguments facts pairs passed).get? p := by
  rw [passArguments_eq_gather]
  exact Facts.le_get?_gather
    (List.mem_map_of_mem (f := fun p : ValueId × ValueId => (p.2, facts.get? p.1)) h) passed

/-- What a parameter receives comes from one of its arguments. -/
theorem get?_passArguments_eq_some {facts : Facts} {pairs : List (ValueId × ValueId)} {p : ValueId}
    {s : State} (h : (passArguments facts pairs FiniteMap.empty).get? p = some s) :
    ∃ a, (a, p) ∈ pairs ∧ facts.get? a = some s := by
  rw [passArguments_eq_gather] at h
  rcases Facts.get?_gather_eq_or (pairs.map fun p => (p.2, facts.get? p.1)) FiniteMap.empty p
    with hg | hg
  · -- nothing was there before
    rw [h] at hg
    simp at hg
  · rw [h] at hg
    obtain ⟨⟨a, q⟩, hmem, heq⟩ := List.mem_map.1 hg
    obtain ⟨rfl, ha⟩ := Prod.mk.inj heq
    exact ⟨a, hmem, ha⟩

/-- Reading back loses nothing. -/
theorem le_readBack (exit : Facts) (pairs : List (ValueId × ValueId)) (facts : Facts) :
    facts ≤ readBack exit pairs facts := by
  rw [readBack_eq_gather]
  exact Facts.le_gather _ _

theorem le_get?_readBack {pairs : List (ValueId × ValueId)} {a p : ValueId} (h : (a, p) ∈ pairs)
    (exit facts : Facts) : exit.get? p ≤ (readBack exit pairs facts).get? a := by
  rw [readBack_eq_gather]
  exact Facts.le_get?_gather
    (List.mem_map_of_mem (f := fun p : ValueId × ValueId => (p.1, exit.get? p.2)) h) facts

/-- An argument keeps its state or takes over that of one of its parameters. -/
theorem get?_readBack_eq_or (exit : Facts) (pairs : List (ValueId × ValueId)) (facts : Facts)
    (a : ValueId) :
    (readBack exit pairs facts).get? a = facts.get? a ∨
      ∃ p, (a, p) ∈ pairs ∧ (readBack exit pairs facts).get? a = exit.get? p := by
  rw [readBack_eq_gather]
  rcases Facts.get?_gather_eq_or (pairs.map fun p => (p.1, exit.get? p.2)) facts a with h | h
  · exact Or.inl h
  · obtain ⟨⟨b, q⟩, hmem, heq⟩ := List.mem_map.1 h
    obtain ⟨rfl, hq⟩ := Prod.mk.inj heq
    exact Or.inr ⟨q, hmem, hq.symm⟩

@[simp]
theorem readBack_empty (pairs : List (ValueId × ValueId)) (facts : Facts) :
    readBack FiniteMap.empty pairs facts = facts := by
  apply Facts.le_antisymm ?_ (le_readBack _ _ _)
  intro a
  -- with nothing known at the returns, nothing can be taken over
  rcases get?_readBack_eq_or FiniteMap.empty pairs facts a with h | ⟨p, -, h⟩
  · exact h ▸ Observation.le_refl _
  · rw [h]
    simp

theorem le_get?_recordExit {params : List ValueId} {p : ValueId} (h : p ∈ params)
    (facts exit : Facts) : facts.get? p ≤ (recordExit params facts exit).get? p := by
  rw [recordExit_eq_gather]
  exact Facts.le_get?_gather
    (List.mem_map_of_mem (f := fun p : ValueId => (p, facts.get? p)) h) exit

/-- An exit speaks of parameters only. -/
theorem get?_recordExit_eq_some {params : List ValueId} {facts : Facts} {p : ValueId} {s : State}
    (h : (recordExit params facts FiniteMap.empty).get? p = some s) :
    p ∈ params ∧ facts.get? p = some s := by
  rw [recordExit_eq_gather] at h
  rcases Facts.get?_gather_eq_or (params.map fun p => (p, facts.get? p)) FiniteMap.empty p
    with hg | hg
  · rw [h] at hg
    simp at hg
  · rw [h] at hg
    obtain ⟨q, hmem, heq⟩ := List.mem_map.1 hg
    obtain ⟨rfl, hq⟩ := Prod.mk.inj heq
    exact ⟨hmem, hq⟩

theorem recordReturn_eq (value : Option ValueId) (facts : Facts) (ret : Option State) :
    recordReturn value facts ret = Observation.join ret (value.bind facts.get?) := by
  unfold recordReturn
  cases h : value.bind fun v => facts.get? v with
  | none => simp
  | some s => exact joinOption_eq ret s

/-- Binding replaces the state of the result, if one was returned, and touches nothing else. -/
theorem get?_bindResult (result : Option ValueId) (ret : Observation) (facts : Facts) (v : ValueId) :
    (bindResult result ret facts).get? v =
      if result = some v ∧ ret.isSome then ret else facts.get? v := by
  unfold bindResult
  cases result with
  | none => simp
  | some w =>
    cases ret with
    | none => simp
    | some s => by_cases h : v = w <;> simp [h, eq_comm]

theorem bindResult_none (result : Option ValueId) (facts : Facts) :
    bindResult result none facts = facts := by
  cases result <;> rfl

/-! ## §2 Entering a body -/

/-- A call into a body: the function entered, the arguments and the place of the result. -/
structure Entering where
  target : Function
  args : List ValueId
  result : Option ValueId

namespace Entering

/-- Arguments with the parameters they are paired with. -/
def pairs (e : Entering) : List (ValueId × ValueId) := e.args.zip e.target.params

/-- The facts that the arguments bring to the parameters. -/
def passed (e : Entering) (facts : Facts) : Facts := passArguments facts e.pairs .empty

/-- The facts behind the call, given what is known at the returns of the target. -/
def resume (e : Entering) (exit : Facts) (ret : Observation) (facts : Facts) : Facts :=
  bindResult e.result ret (readBack exit e.pairs facts)

/-- Behind a target that nothing is known of, all is as before. -/
theorem resume_empty (e : Entering) (facts : Facts) : e.resume .empty none facts = facts := by
  rw [resume, readBack_empty, bindResult_none]

/-- What a value has behind a call it had before, its parameter has it at the returns, or it is the
returned state. -/
theorem get?_resume_eq_or (e : Entering) (exit : Facts) (ret : Observation) (facts : Facts)
    (v : ValueId) :
    (e.resume exit ret facts).get? v = facts.get? v ∨
      (∃ p, (v, p) ∈ e.pairs ∧ (e.resume exit ret facts).get? v = exit.get? p) ∨
      e.result = some v ∧ (e.resume exit ret facts).get? v = ret := by
  rw [resume, get?_bindResult]
  by_cases h : e.result = some v ∧ ret.isSome = true
  · rw [if_pos h]
    exact Or.inr (Or.inr ⟨h.1, rfl⟩)
  · rw [if_neg h]
    rcases get?_readBack_eq_or exit e.pairs facts v with hold | hback
    · exact Or.inl hold
    · exact Or.inr (Or.inl hback)

end Entering

namespace Program

/-- The call into a body that an instruction is, if it is one. -/
def entering? (program : Program) (i : Instruction) : Option Entering :=
  match i.op with
  | .call callee args result => (program.body? callee).map (⟨·, args, result⟩)
  | _ => none

theorem name_of_body? {program : Program} {name : String} {f : Function}
    (h : program.body? name = some f) : f.name = name := by
  have := List.find?_some h
  simp only [Bool.and_eq_true, beq_iff_eq] at this
  exact this.1

theorem mem_of_body? {program : Program} {name : String} {f : Function}
    (h : program.body? name = some f) : f ∈ program.functions := List.mem_of_find?_eq_some h

theorem blocks_of_body? {program : Program} {name : String} {f : Function}
    (h : program.body? name = some f) : 0 < f.blocks.length := by
  have hbody := List.find?_some h
  simp only [Bool.and_eq_true, Function.hasBody, Bool.not_eq_true'] at hbody
  apply List.length_pos_iff.2
  intro hnil
  simp [hnil] at hbody

theorem body?_name {program : Program} {name : String} {f : Function}
    (h : program.body? name = some f) : program.body? f.name = some f := by
  rw [name_of_body? h, h]

/-- Of several bodies with one name, calls enter only one. -/
theorem eq_of_body? {program : Program} {f g : Function} (hf : program.body? f.name = some f)
    (hg : program.body? g.name = some g) (hname : g.name = f.name) : g = f := by
  rw [hname, hf] at hg
  exact (Option.some.inj hg).symm

/-- What is entered is the body of its own name. -/
theorem body?_of_entering {program : Program} {i : Instruction} {e : Entering}
    (h : program.entering? i = some e) : program.body? e.target.name = some e.target := by
  unfold entering? at h
  split at h
  · obtain ⟨g, hg, rfl⟩ := Option.map_eq_some_iff.1 h
    exact body?_name hg
  · cases h

theorem entering?_ret {program : Program} {i : Instruction} {value : Option ValueId}
    (h : i.op = .ret value) : program.entering? i = none := by
  simp [entering?, h]

end Program

/-! ## §3 The facts behind an instruction -/

/-- The facts behind an instruction that enters no body. -/
def CallModel.through (m : CallModel) (i : Instruction) (facts : Facts) : Facts :=
  match i.op with
  | .call callee args result => m.apply callee args result facts
  | _ => facts

/-- The summary of a function among the given ones. -/
def Summaries.of (summaries : Summaries) (name : String) : Summary :=
  (FiniteMap.get? summaries name).getD .empty

/-- The facts behind an instruction, given what is known about the functions it may enter. -/
def flow (program : Program) (model : CallModel) (summaries : Summaries) (i : Instruction)
    (facts : Facts) : Facts :=
  match program.entering? i with
  | some e =>
    e.resume (summaries.of e.target.name).exit (summaries.of e.target.name).ret facts
  | none => model.through i facts

section
variable {program : Program} {model : CallModel} {summaries : Summaries} {i : Instruction}
variable {facts : Facts}

theorem flow_of_entering {e : Entering} (h : program.entering? i = some e) :
    flow program model summaries i facts =
      e.resume (summaries.of e.target.name).exit (summaries.of e.target.name).ret facts := by
  simp [flow, h]

theorem flow_of_not_entering (h : program.entering? i = none) :
    flow program model summaries i facts = model.through i facts := by
  simp [flow, h]

/-- Entering a body resumes behind the call, and adds what is passed to the outcome. -/
theorem descend_eq (summaries : Summaries) (e : Entering) (facts : Facts) (outcome : Outcome) :
    descend summaries e.target e.args e.result facts outcome =
      (e.resume (summaries.of e.target.name).exit (summaries.of e.target.name).ret facts,
        { outcome with
          calls := outcome.calls.alter e.target.name
            (fun passed => passArguments facts e.pairs (passed.getD .empty)) }) := by
  unfold descend Summaries.of
  cases h : FiniteMap.get? summaries e.target.name with
  -- without a summary the call is stepped over, as with the empty one
  | none => simp [Summary.empty, Entering.resume_empty, Entering.pairs]
  | some s => rfl

theorem transfer_of_entering {function : Function} {outcome : Outcome} {e : Entering}
    (h : program.entering? i = some e) :
    transfer program model summaries function i facts outcome =
      (flow program model summaries i facts,
        { outcome with
          calls := outcome.calls.alter e.target.name
            (fun passed => passArguments facts e.pairs (passed.getD .empty)) }) := by
  rw [flow_of_entering h]
  unfold Program.entering? at h
  unfold transfer
  split at h
  · next callee args result hop =>
    obtain ⟨g, hg, rfl⟩ := Option.map_eq_some_iff.1 h
    rw [hop]
    simp only [hg]
    exact descend_eq summaries ⟨g, args, result⟩ facts outcome
  · cases h

theorem transfer_of_ret {function : Function} {outcome : Outcome} {value : Option ValueId}
    (h : i.op = .ret value) :
    transfer program model summaries function i facts outcome =
      (flow program model summaries i facts,
        { outcome with
          exit := recordExit function.params facts outcome.exit
          ret := recordReturn value facts outcome.ret }) := by
  rw [flow_of_not_entering (Program.entering?_ret h)]
  simp [transfer, CallModel.through, h]

theorem transfer_of_other {function : Function} {outcome : Outcome}
    (h : program.entering? i = none) (hret : ∀ value, i.op ≠ .ret value) :
    transfer program model summaries function i facts outcome =
      (flow program model summaries i facts, outcome) := by
  rw [flow_of_not_entering h]
  unfold Program.entering? at h
  unfold transfer CallModel.through
  -- a call that enters nothing is left to the model
  cases hop : i.op with
  | call callee args result =>
    rw [hop] at h
    simp [Option.map_eq_none_iff.1 h]
  | ret value => exact absurd hop (hret value)
  | other text => rfl

/-- **What an instruction can do.** It enters a body, is a return, or writes nothing down. -/
theorem transfer_cases (program : Program) (model : CallModel) (summaries : Summaries)
    (function : Function) (i : Instruction) (facts : Facts) (outcome : Outcome) :
    (∃ e, program.entering? i = some e ∧
      transfer program model summaries function i facts outcome =
        (flow program model summaries i facts,
          { outcome with
            calls := outcome.calls.alter e.target.name
              (fun passed => passArguments facts e.pairs (passed.getD .empty)) })) ∨
    (∃ value, i.op = .ret value ∧
      transfer program model summaries function i facts outcome =
        (flow program model summaries i facts,
          { outcome with
            exit := recordExit function.params facts outcome.exit
            ret := recordReturn value facts outcome.ret })) ∨
    transfer program model summaries function i facts outcome =
      (flow program model summaries i facts, outcome) := by
  cases he : program.entering? i with
  | some e => exact Or.inl ⟨e, rfl, transfer_of_entering he⟩
  | none =>
    by_cases hret : ∃ value, i.op = .ret value
    · obtain ⟨value, hret⟩ := hret
      exact Or.inr (Or.inl ⟨value, hret, transfer_of_ret hret⟩)
    · exact Or.inr (Or.inr (transfer_of_other he fun value h => hret ⟨value, h⟩))

end

/-! ## §4 A property at every point -/

/-- `Φ` holds at every point on the way through the instructions, from the facts before the first of
them to the facts behind the last. -/
def Along (program : Program) (model : CallModel) (summaries : Summaries)
    (Φ : List Instruction → Facts → Prop) : List Instruction → Facts → Prop
  | [], facts => Φ [] facts
  | i :: rest, facts =>
    Φ (i :: rest) facts ∧
      Along program model summaries Φ rest (flow program model summaries i facts)

namespace Along

variable {program : Program} {model : CallModel} {summaries : Summaries}
variable {Φ Ψ : List Instruction → Facts → Prop} {rest : List Instruction} {facts : Facts}

theorem head (h : Along program model summaries Φ rest facts) : Φ rest facts := by
  cases rest with
  | nil => exact h
  | cons i rest => exact h.1

theorem mono (h : Along program model summaries Φ rest facts)
    (hΦ : ∀ rest facts, Φ rest facts → Ψ rest facts) :
    Along program model summaries Ψ rest facts := by
  induction rest generalizing facts with
  | nil => exact hΦ _ _ h
  | cons i rest ih => exact ⟨hΦ _ _ h.1, ih h.2⟩

/-- Other summaries give the same points when they agree at every instruction passed. -/
theorem of_summaries {summaries' : Summaries} (h : Along program model summaries Φ rest facts)
    (hflow : ∀ i rest facts, Φ (i :: rest) facts →
      flow program model summaries i facts = flow program model summaries' i facts) :
    Along program model summaries' Φ rest facts := by
  induction rest generalizing facts with
  | nil => exact h
  | cons i rest ih =>
    refine ⟨h.1, ?_⟩
    rw [← hflow i rest facts h.1]
    exact ih h.2

/-- What holds along a run of instructions holds along the rest of it, from some facts on. -/
theorem exists_of_suffix (h : Along program model summaries Φ rest facts) {i : Instruction}
    {behind : List Instruction} (hi : i :: behind <:+ rest) :
    ∃ facts', Along program model summaries Φ (i :: behind) facts' := by
  induction rest generalizing facts with
  | nil => simp at hi
  | cons j rest ih =>
    -- the rest begins here or further on
    rcases List.suffix_cons_iff.1 hi with heq | hsuffix
    · rw [heq]
      exact ⟨facts, h⟩
    · exact ih h.2 hsuffix

theorem exists_of_mem (h : Along program model summaries Φ rest facts) {i : Instruction}
    (hi : i ∈ rest) : ∃ behind facts', Φ (i :: behind) facts' := by
  obtain ⟨before, behind, heq⟩ := List.append_of_mem hi
  have hsuffix : i :: behind <:+ rest := ⟨before, heq.symm⟩
  obtain ⟨facts', h'⟩ := h.exists_of_suffix hsuffix
  exact ⟨behind, facts', h'.head⟩

end Along

/-! ## §5 What is written down -/

/-- Everything that is written down on the way through a function. -/
structure Ledger where
  table : Table
  /-- States of parameters at the returns. -/
  exit : Facts
  /-- State of the returned value at the returns. -/
  ret : Observation
  /-- For every function entered, the states passed to its parameters. -/
  entry : String → Facts → Prop

namespace Ledger

/-- The ledger has taken in an instruction of `function` with the given facts before it. -/
structure Records (ledger : Ledger) (program : Program) (function : Function) (i : Instruction)
    (facts : Facts) : Prop where
  holds : ledger.table.Holds i.id facts
  passed : ∀ e, program.entering? i = some e →
    ∃ known, ledger.entry e.target.name known ∧ e.passed facts ≤ known
  exit : ∀ value, i.op = .ret value → recordExit function.params facts .empty ≤ ledger.exit
  ret : ∀ value, i.op = .ret value → value.bind facts.get? ≤ ledger.ret

/-- Everything that one ledger says about functions with a body is also in the other. -/
structure Below (ledger : Ledger) (program : Program) (ledger' : Ledger) : Prop where
  table : ledger.table ≤ ledger'.table
  exit : ledger.exit ≤ ledger'.exit
  ret : ledger.ret ≤ ledger'.ret
  entry : ∀ name known, (program.body? name).isSome = true → ledger.entry name known →
    ∃ known', ledger'.entry name known' ∧ known ≤ known'

theorem Below.refl {program : Program} (ledger : Ledger) : ledger.Below program ledger where
  table := Table.le_refl _
  exit := Facts.le_refl _
  ret := Observation.le_refl _
  entry := fun _ known _ h => ⟨known, h, Facts.le_refl _⟩

theorem Below.trans {program : Program} {a b c : Ledger} (h : a.Below program b)
    (h' : b.Below program c) : a.Below program c where
  table := Table.le_trans h.table h'.table
  exit := Facts.le_trans h.exit h'.exit
  ret := Observation.le_trans h.ret h'.ret
  entry := by
    intro name known hbody hk
    obtain ⟨known', hk', hle⟩ := h.entry name known hbody hk
    obtain ⟨known'', hk'', hle'⟩ := h'.entry name known' hbody hk'
    exact ⟨known'', hk'', Facts.le_trans hle hle'⟩

/-- What has been taken in stays taken in when more is written down. -/
theorem Records.mono {ledger ledger' : Ledger} {program : Program} {function : Function}
    {i : Instruction} {facts : Facts} (h : ledger.Records program function i facts)
    (hle : ledger.Below program ledger') : ledger'.Records program function i facts where
  holds := h.holds.mono hle.table
  passed := by
    intro e he
    obtain ⟨known, hk, hpassed⟩ := h.passed e he
    have hbody := Option.isSome_iff_exists.2 ⟨_, Program.body?_of_entering he⟩
    obtain ⟨known', hk', hle'⟩ := hle.entry _ _ hbody hk
    exact ⟨known', hk', Facts.le_trans hpassed hle'⟩
  exit := fun value hv => Facts.le_trans (h.exit value hv) hle.exit
  ret := fun value hv => Observation.le_trans (h.ret value hv) hle.ret

end Ledger

/-- What a pass has written down. -/
def Outcome.ledger (outcome : Outcome) (table : Table) : Ledger :=
  ⟨table, outcome.exit, outcome.ret, fun name known => outcome.calls.get? name = some known⟩

/-- Everything that one outcome has found is also in the other. -/
structure Outcome.Below (outcome outcome' : Outcome) : Prop where
  exit : outcome.exit ≤ outcome'.exit
  ret : (outcome.ret : Observation) ≤ outcome'.ret
  calls : ∀ name known, outcome.calls.get? name = some known →
    ∃ known', outcome'.calls.get? name = some known' ∧ known ≤ known'

namespace Outcome.Below

theorem refl (outcome : Outcome) : outcome.Below outcome where
  exit := Facts.le_refl _
  ret := Observation.le_refl _
  calls := fun _ known h => ⟨known, h, Facts.le_refl _⟩

theorem trans {a b c : Outcome} (h : a.Below b) (h' : b.Below c) : a.Below c where
  exit := Facts.le_trans h.exit h'.exit
  ret := Observation.le_trans h.ret h'.ret
  calls := by
    intro name known hk
    obtain ⟨known', hk', hle⟩ := h.calls name known hk
    obtain ⟨known'', hk'', hle'⟩ := h'.calls name known' hk'
    exact ⟨known'', hk'', Facts.le_trans hle hle'⟩

theorem ledger {program : Program} {a b : Outcome} (h : a.Below b) {table table' : Table}
    (htable : table ≤ table') : (a.ledger table).Below program (b.ledger table') where
  table := htable
  exit := h.exit
  ret := h.ret
  entry := fun name known _ hk => h.calls name known hk

end Outcome.Below

section
variable (program : Program) (model : CallModel) (summaries : Summaries) (function : Function)
variable (i : Instruction) (facts : Facts) (outcome : Outcome) (table : Table)

theorem transfer_fst :
    (transfer program model summaries function i facts outcome).1 =
      flow program model summaries i facts := by
  rcases transfer_cases program model summaries function i facts outcome with
    ⟨e, -, h⟩ | ⟨value, -, h⟩ | h
  all_goals rw [h]

/-- Going through an instruction loses nothing that was found before. -/
theorem below_transfer :
    outcome.Below (transfer program model summaries function i facts outcome).2 := by
  rcases transfer_cases program model summaries function i facts outcome with
    ⟨e, -, h⟩ | ⟨value, -, h⟩ | h
  · rw [h]
    refine ⟨Facts.le_refl _, Observation.le_refl _, fun name known hk => ?_⟩
    simp only
    rw [FiniteMap.get?_alter]
    by_cases hn : name = e.target.name
    · -- what is passed is joined to what earlier calls have passed
      subst hn
      refine ⟨_, if_pos rfl, ?_⟩
      rw [hk, Option.getD_some, passArguments_eq_join]
      exact Facts.le_join_left _ _
    · exact ⟨known, by rw [if_neg hn, hk], Facts.le_refl _⟩
  · rw [h]
    refine ⟨?_, ?_, fun _ known h => ⟨known, h, Facts.le_refl _⟩⟩
    · rw [recordExit_eq_join]
      exact Facts.le_join_left _ _
    · rw [recordReturn_eq]
      exact Observation.le_join_left _ _
  · rw [h]
    exact Outcome.Below.refl _

/-- Going through an instruction takes it in, provided that its row has been written. -/
theorem records_transfer (hrow : table.Holds i.id facts) :
    ((transfer program model summaries function i facts outcome).2.ledger table).Records
      program function i facts := by
  refine ⟨hrow, ?_, ?_, ?_⟩
  · intro e he
    rw [transfer_of_entering he]
    refine ⟨_, by simp only [Outcome.ledger, FiniteMap.get?_alter, if_true]; rfl, ?_⟩
    -- what is passed now is a part of the join, whatever was passed before
    rw [passArguments_eq_join]
    exact Facts.le_join_right _ _
  · intro value hret
    rw [transfer_of_ret hret]
    simp only [Outcome.ledger]
    rw [recordExit_eq_join function.params facts outcome.exit]
    exact Facts.le_join_right _ _
  · intro value hret
    rw [transfer_of_ret hret]
    simp only [Outcome.ledger]
    rw [recordReturn_eq]
    exact Observation.le_join_right _ _

end

end Typestate
