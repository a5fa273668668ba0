import Mathlib.Data.List.Forall2
import Typestate.Proofs.ControlFlow

/-!
# Programs with their successors in another order

Two programs that differ only in the order of the successors of their blocks have the same places,
the same instructions there, and the same ways for control to go.

## Contents

- §1 The relation
- §2 Bodies and calls
- §3 Control flow
-/

namespace Typestate

/-! ## §1 Reordered programs -/

/-- The second block is the first with its successors in another order. -/
structure Block.Reordered (b b' : Block) : Prop where
  instructions : b'.instructions = b.instructions
  successors : b.successors.Perm b'.successors

/-- The second function is the first with the successors of its blocks in another order. -/
structure Function.Reordered (f f' : Function) : Prop where
  name : f'.name = f.name
  params : f'.params = f.params
  outputArg : f'.outputArg = f.outputArg
  blocks : List.Forall₂ Block.Reordered f.blocks f'.blocks

/-- The second program is the first with the successors of its blocks in another order. -/
structure Program.Reordered (program program' : Program) : Prop where
  functions : List.Forall₂ Function.Reordered program.functions program'.functions
  valueNames : program'.valueNames = program.valueNames

theorem Block.Reordered.symm {b b' : Block} (h : b.Reordered b') : b'.Reordered b :=
  ⟨h.instructions.symm, h.successors.symm⟩

theorem Function.Reordered.symm {f f' : Function} (h : f.Reordered f') : f'.Reordered f where
  name := h.name.symm
  params := h.params.symm
  outputArg := h.outputArg.symm
  blocks := (h.blocks.imp fun _ _ => Block.Reordered.symm).flip

theorem Program.Reordered.symm {program program' : Program} (h : program.Reordered program') :
    program'.Reordered program where
  functions := (h.functions.imp fun _ _ => Function.Reordered.symm).flip
  valueNames := h.valueNames.symm

/-- Related lists have related elements at every index. -/
theorem rel_getElem? {α : Type} {R : α → α → Prop} {l l' : List α} (h : List.Forall₂ R l l')
    (k : Nat) : Option.Rel R l[k]? l'[k]? := by
  induction h generalizing k with
  | nil => exact Option.Rel.none
  | cons hhead _ ih =>
    cases k with
    | zero => exact Option.Rel.some hhead
    | succ k => exact ih k

/-- What is related to something is something. -/
theorem exists_of_rel {α : Type} {R : α → α → Prop} {o o' : Option α} (h : Option.Rel R o o')
    {a : α} (ha : o = some a) : ∃ a', o' = some a' ∧ R a a' := by
  subst ha
  cases h with
  | some h => exact ⟨_, rfl, h⟩

theorem Function.Reordered.exists_block {f f' : Function} (h : f.Reordered f') {k : Nat} {b : Block}
    (hb : f.blocks[k]? = some b) : ∃ b', f'.blocks[k]? = some b' ∧ b.Reordered b' :=
  exists_of_rel (rel_getElem? h.blocks k) hb

/-! ## §2 Bodies and calls -/

namespace Program.Reordered

variable {program program' : Program}

/-- Bodies correspond. -/
theorem rel_body? (h : program.Reordered program') (name : String) :
    Option.Rel Function.Reordered (program.body? name) (program'.body? name) := by
  unfold Program.body?
  have hfunctions := h.functions
  generalize program.functions = fs at hfunctions
  generalize program'.functions = fs' at hfunctions
  induction hfunctions with
  | nil => exact Option.Rel.none
  | @cons f f' fs fs' hhead _ ih =>
    -- the name and whether there are blocks are the same on both sides
    have hsame : (f'.name == name && f'.hasBody) = (f.name == name && f.hasBody) := by
      have hblocks := hhead.blocks
      rw [hhead.name, Function.hasBody, Function.hasBody]
      generalize f.blocks = bs at hblocks
      generalize f'.blocks = bs' at hblocks
      cases hblocks <;> rfl
    rw [List.find?_cons, List.find?_cons, hsame]
    cases f.name == name && f.hasBody with
    | true => exact Option.Rel.some hhead
    | false => exact ih

/-- `f'` is the body in the second program that corresponds to the body `f` in the first. -/
structure Twin (program' : Program) (f f' : Function) : Prop where
  reordered : f.Reordered f'
  body : program'.body? f'.name = some f'

/-- Every body has a twin. -/
theorem exists_twin (h : program.Reordered program') {f : Function}
    (hbody : program.body? f.name = some f) : ∃ f', Twin program' f f' := by
  obtain ⟨f', hf', hreordered⟩ := exists_of_rel (h.rel_body? f.name) hbody
  exact ⟨f', hreordered, Program.body?_name hf'⟩

/-- Twins are found by name, so bodies with one name have one twin. -/
theorem Twin.unique {f g f' g' : Function} (h : Twin program' f f') (h' : Twin program' g g')
    (hname : g.name = f.name) : g' = f' := by
  apply Program.eq_of_body? h.body h'.body
  rw [h'.reordered.name, h.reordered.name, hname]

/-- Calls into bodies correspond. -/
structure Call (program' : Program) (e e' : Entering) : Prop where
  target : Twin program' e.target e'.target
  args : e'.args = e.args
  result : e'.result = e.result

theorem Call.pairs {e e' : Entering} (h : Call program' e e') : e'.pairs = e.pairs := by
  rw [Entering.pairs, Entering.pairs, h.args, h.target.reordered.params]

/-- An instruction enters corresponding bodies in both programs, or none in either. -/
theorem rel_entering? (h : program.Reordered program') (i : Instruction) :
    Option.Rel (Call program') (program.entering? i) (program'.entering? i) := by
  unfold Program.entering?
  cases i.op with
  | call callee args result =>
    have hbody := h.rel_body? callee
    have hname : ∀ f', program'.body? callee = some f' → program'.body? f'.name = some f' :=
      fun _ => Program.body?_name
    show Option.Rel (Call program') ((program.body? callee).map _) ((program'.body? callee).map _)
    -- the two look-ups are related, so both find a body or neither does
    generalize program.body? callee = o at hbody
    generalize program'.body? callee = o' at hbody hname
    cases hbody with
    | none => exact Option.Rel.none
    | some hreordered => exact Option.Rel.some ⟨⟨hreordered, hname _ rfl⟩, rfl, rfl⟩
  | ret value => exact Option.Rel.none
  | other text => exact Option.Rel.none

theorem exists_entering (h : program.Reordered program') {i : Instruction} {e : Entering}
    (he : program.entering? i = some e) :
    ∃ e', program'.entering? i = some e' ∧ Call program' e e' :=
  exists_of_rel (h.rel_entering? i) he

theorem entering?_eq_none (h : program.Reordered program') {i : Instruction}
    (he : program.entering? i = none) : program'.entering? i = none := by
  have hrel := h.rel_entering? i
  rw [he] at hrel
  cases hi : program'.entering? i with
  | none => rfl
  | some e' =>
    rw [hi] at hrel
    cases hrel

end Program.Reordered

/-! ## §3 Control flow -/

open Program.Reordered (Twin)

/-- The same instructions remain to be gone through. -/
theorem Remains.reordered {f f' : Function} {k : Nat} {rest : List Instruction}
    (h : Remains f k rest) (hf : f.Reordered f') : Remains f' k rest := by
  obtain ⟨b, hb, hsuffix⟩ := h
  obtain ⟨b', hb', hreordered⟩ := hf.exists_block hb
  refine ⟨b', hb', ?_⟩
  rw [hreordered.instructions]
  exact hsuffix

/-- The same blocks are reached, whatever the order of successors and of entry points. -/
theorem Reached.reordered {program program' : Program} {entries entries' : List String}
    (hprogram : program.Reordered program') (hentries : ∀ name ∈ entries, name ∈ entries')
    {f : Function} {k : Nat} (h : Reached program entries f k) {f' : Function}
    (hf : Twin program' f f') : Reached program' entries' f' k := by
  induction h generalizing f' with
  | entry hname hbody =>
    refine Reached.entry (hentries _ hname) ?_
    rw [← Program.name_of_body? hbody, ← hf.reordered.name]
    exact hf.body
  | jump _ hb ht ih =>
    obtain ⟨c, hc, hreordered⟩ := hf.reordered.exists_block hb
    exact (ih hf).jump hc (hreordered.successors.mem_iff.1 ht)
  | enter hreached hb hi he ih =>
    -- the caller has a twin, and that calls the twin of the callee
    obtain ⟨caller', hcaller⟩ := hprogram.exists_twin hreached.body
    obtain ⟨c, hc, hreordered⟩ := hcaller.reordered.exists_block hb
    obtain ⟨e', he', hcall⟩ := hprogram.exists_entering he
    rw [hcall.target.unique hf rfl]
    exact (ih hcaller).enter hc (hreordered.instructions ▸ hi) he'

end Typestate
