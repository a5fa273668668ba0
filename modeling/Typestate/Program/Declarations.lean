import Typestate.Program.Basic

/-!
# Declarations: what a program says about a name

The index answers how many parameters the function of a given name has, whether its result is passed
back through a hidden argument, and whether its body is part of the program. A name may occur several
times: the first occurrence counts until a function with a body takes its place.
-/

namespace Typestate

/-- What a program says about a function it declares or defines. -/
structure Declaration where
  /-- The number of parameters. -/
  arity : Nat
  /-- The position of the hidden result argument. -/
  outputArg : Option UInt64
  /-- Whether the body is part of the program. -/
  hasBody : Bool
  deriving DecidableEq, Inhabited

/-- What a function says about its own name. -/
def Function.declaration (f : Function) : Declaration := ⟨f.params.length, f.outputArg, f.hasBody⟩

/-- The declarations of a program by name. -/
structure Declarations where
  byName : FiniteMap String Declaration
  deriving DecidableEq, Inhabited

namespace Declarations

/-- The index without names. -/
def empty : Declarations := ⟨.empty⟩

/-- Takes one more function into account. A body takes the place of what was there before. -/
def add (d : Declarations) (f : Function) : Declarations :=
  ⟨d.byName.alter f.name fun
    | none => f.declaration
    | some earlier => if f.hasBody then f.declaration else earlier⟩

/-- The index of a program, from its functions in order. -/
def ofProgram (p : Program) : Declarations := p.functions.foldl add empty

/-- What is declared under exactly this name. -/
def resolve? (d : Declarations) (name : String) : Option Declaration := d.byName.get? name

theorem resolve?_add (d : Declarations) (f : Function) (name : String) :
    (d.add f).resolve? name =
      if name = f.name then
        some (if f.hasBody then f.declaration else (d.resolve? name).getD f.declaration)
      else d.resolve? name := by
  unfold resolve? add
  rw [FiniteMap.get?_alter]
  split
  · next heq =>
    subst heq
    cases d.byName.get? f.name <;> simp
  · rfl

/-- The number of declared names. -/
def size (d : Declarations) : Nat := d.byName.size

/-- Whether no name is declared. -/
def isEmpty (d : Declarations) : Bool := d.byName.isEmpty

end Declarations

end Typestate
