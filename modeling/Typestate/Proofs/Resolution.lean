import Typestate.Program.Declarations

/-!
# What the index says of a name and which body a call enters

The index and the solver go over the same functions with different rules for a repeated name. A call
enters the first body there is. The index lets every body take the place of what it held, another body
included, so it ends up with the last one; only where there is no body does it keep the first
occurrence. The two mean the same function where there is at most one body, and agree otherwise only
as far as the first and the last body look alike from outside.

## Contents

- §1 The bodies of a name
- §2 The index of a list of functions
- §3 The index against the body entered
-/

namespace Typestate

/-! ## §1 Bodies -/

/-- The functions of the given name that have a body, in program order. -/
def Program.definitions (p : Program) (name : String) : List Function :=
  p.functions.filter (fun f => f.name == name && f.hasBody)

namespace Program

variable {p : Program} {name : String} {f : Function}

theorem head?_definitions (p : Program) (name : String) :
    (p.definitions name).head? = p.body? name := List.head?_filter

theorem definitions_eq_nil_iff : p.definitions name = [] ↔ p.body? name = none := by
  rw [← head?_definitions, List.head?_eq_none_iff]

theorem hasBody_of_mem_definitions (h : f ∈ p.definitions name) : f.hasBody = true :=
  (Bool.and_eq_true_iff.1 (List.mem_filter.1 h).2).2

end Program

/-! ## §2 The index -/

namespace Declarations

/-- The last body of a name counts; without one, what the index held before; without that, the first
occurrence. -/
theorem resolve?_foldl_add (fs : List Function) (d : Declarations) (name : String) :
    (fs.foldl add d).resolve? name =
      (((fs.filter fun f => f.name == name && f.hasBody).getLast?.map Function.declaration).or
        (d.resolve? name)).or
      ((fs.find? fun f => f.name == name).map Function.declaration) := by
  induction fs generalizing d with
  | nil => simp
  | cons f fs ih =>
    rw [List.foldl_cons, ih, resolve?_add]
    by_cases hname : name = f.name
    · cases hbody : f.hasBody with
      | true =>
        -- the new body is in the index now, and is the last one unless another follows
        subst hname
        cases hlast : (fs.filter fun g => g.name == f.name && g.hasBody).getLast? <;>
          simp [hbody, List.getLast?_cons, hlast]
      | false =>
        -- a declaration counts only where nothing was known
        subst hname
        cases d.resolve? f.name <;> simp [hbody]
    · have hother : ¬ f.name = name := fun h => hname h.symm
      simp [hname, hother]

theorem resolve?_ofProgram (p : Program) (name : String) :
    (ofProgram p).resolve? name =
      ((p.definitions name).getLast?.map Function.declaration).or
        ((p.function? name).map Function.declaration) := by
  have hempty : empty.resolve? name = none := rfl
  unfold ofProgram Program.definitions Program.function?
  rw [resolve?_foldl_add, hempty, Option.or_none]

theorem resolve?_of_getLast? {p : Program} {name : String} {g : Function}
    (hg : (p.definitions name).getLast? = some g) :
    (ofProgram p).resolve? name = some ⟨g.params.length, g.outputArg, true⟩ := by
  have hbody := Program.hasBody_of_mem_definitions (List.mem_of_getLast? hg)
  rw [resolve?_ofProgram, hg, ← hbody]
  rfl

/-! ## §3 The index and the solver -/

/-- **The index speaks of the last body of a name, the solver enters the first.** The index describes
the body entered exactly where the two have equally many parameters and the same hidden result
argument. A name without a body is described by its first occurrence. -/
theorem resolve?_body? (p : Program) (name : String) :
    (∀ f, p.body? name = some f → ∃ g, (p.definitions name).getLast? = some g ∧
      (ofProgram p).resolve? name = some ⟨g.params.length, g.outputArg, true⟩ ∧
      ((ofProgram p).resolve? name = some ⟨f.params.length, f.outputArg, true⟩ ↔
        f.params.length = g.params.length ∧ f.outputArg = g.outputArg)) ∧
    (p.body? name = none →
      (ofProgram p).resolve? name = (p.function? name).map Function.declaration) := by
  constructor
  · intro f hf
    -- the body that is entered is one of the definitions, so there is a last one
    have hne : p.definitions name ≠ [] := by
      rw [Ne, Program.definitions_eq_nil_iff, hf]
      exact Option.some_ne_none f
    have hg := List.getLast?_eq_some_getLast hne
    have hresolve := resolve?_of_getLast? hg
    refine ⟨_, hg, hresolve, ?_⟩
    rw [hresolve, Option.some.injEq, Declaration.mk.injEq]
    constructor
    · rintro ⟨harity, hslot, -⟩
      exact ⟨harity.symm, hslot.symm⟩
    · rintro ⟨harity, hslot⟩
      exact ⟨harity.symm, hslot.symm, rfl⟩
  · intro hnone
    rw [resolve?_ofProgram, Program.definitions_eq_nil_iff.2 hnone]
    rfl

end Declarations

/-- A function of the given name that only returns. -/
def returning (name : String) (params : List ValueId) (outputArg : Option UInt64) (id : InstId) :
    Function := ⟨name, params, outputArg, [⟨[⟨id, .ret none⟩], []⟩]⟩

/-- Under `same` a declaration and two bodies that look alike from outside, under `other` two that do
not, and under `outside` two declarations. -/
def repeating : Program :=
  ⟨[⟨"same", [], none, []⟩, returning "same" [⟨0⟩] none ⟨0⟩, returning "same" [⟨1⟩] none ⟨1⟩,
      returning "other" [⟨2⟩] none ⟨2⟩, returning "other" [⟨3⟩, ⟨4⟩] (some 0) ⟨3⟩,
      ⟨"outside", [⟨5⟩], some 0, []⟩, ⟨"outside", [], none, []⟩],
    .empty⟩

/-- Bodies that look alike from outside can stand for each other. -/
theorem resolve?_repeating :
    repeating.body? "same" = some (returning "same" [⟨0⟩] none ⟨0⟩) ∧
      (Declarations.ofProgram repeating).resolve? "same" = some ⟨1, none, true⟩ ∧
      repeating.body? "outside" = none ∧
      (Declarations.ofProgram repeating).resolve? "outside" = some ⟨1, some 0, false⟩ := by
  have hbody : repeating.body? "same" = some (returning "same" [⟨0⟩] none ⟨0⟩) := by decide
  have hnone : repeating.body? "outside" = none := by decide
  obtain ⟨g, hg, -, hsame⟩ := (Declarations.resolve?_body? repeating "same").1 _ hbody
  obtain rfl : returning "same" [⟨1⟩] none ⟨1⟩ = g := Option.some.inj hg
  refine ⟨hbody, hsame.2 ⟨rfl, rfl⟩, hnone, ?_⟩
  exact (Declarations.resolve?_body? repeating "outside").2 hnone

/-- A call of `other` enters a body with one parameter, the index tells of one with two. -/
theorem resolve?_ne_body? :
    repeating.body? "other" = some (returning "other" [⟨2⟩] none ⟨2⟩) ∧
      (Declarations.ofProgram repeating).resolve? "other" = some ⟨2, some 0, true⟩ ∧
      (Declarations.ofProgram repeating).resolve? "other" ≠
        some (returning "other" [⟨2⟩] none ⟨2⟩).declaration := by
  decide

end Typestate
