import Typestate.State
import Typestate.Token

/-!
# The typestate automaton

`Token.step` says where a call of a given role takes a state. It is total over tokens and states,
and the mode changes a single cell of it: a rebuild applied to a value that nothing is known about.

## Contents

- §1 `Mode`: how calls that rebuild an owner are modelled
- §2 One step, and a whole history
-/

namespace Typestate

/-! ## §1 Modes -/

/-- How a call that rebuilds an owner from raw parts is modelled. -/
inductive Mode where
  /-- The rebuilt owner is not tracked; errors surface on the value the raw pointer came from. -/
  | consuming
  /-- The freshly wrapped owner is tracked as a new value. -/
  | factory
  deriving DecidableEq, Inhabited

namespace Mode

/-- Both modes, in the order in which they are run. -/
def all : List Mode := [consuming, factory]

/-- Whether rebuilding calls produce a tracked value. -/
def producesOwner : Mode → Bool
  | consuming => false
  | factory => true

/-- The mode with the given answer to `producesOwner`. -/
def ofFlag (producesOwner : Bool) : Mode := if producesOwner then factory else consuming

/-- The mode as written for a reader. -/
def label : Mode → String
  | consuming => "unsafe_construct_as_factory=false"
  | factory => "unsafe_construct_as_factory=true"

/-- The mode as written in data. -/
def name : Mode → String
  | consuming => "consuming"
  | factory => "factory"

/-- The mode with the given name. -/
def ofName? (name : String) : Option Mode := all.find? (fun m => m.name == name)

end Mode

/-! ## §2 Steps and histories -/

/-- The state that follows `state` after a call of the given role. -/
def Token.step (mode : Mode) (token : Token) (state : State) : State :=
  match state with
  -- sentinels and error states absorb every token
  | .bottom | .top | .useAfterFree | .doubleFree | .violation => state
  | .uninit =>
    match token with
    | .neutral => .uninit
    | .extract => .rawReferenced
    | .rebuild =>
      match mode with
      | .consuming => .violation
      | .factory => .rawWrapped
    | .release | .access => .violation
  | .rawReferenced =>
    match token with
    | .neutral | .extract => .rawReferenced
    | .rebuild => .rawWrapped
    | .release => .dropped
    | .access => .used
  | .rawWrapped =>
    match token with
    | .neutral | .extract | .rebuild => .rawWrapped
    | .release => .dropped
    | .access => .used
  | .used =>
    match token with
    | .release => .dropped
    | .neutral | .extract | .rebuild | .access => .used
  | .dropped =>
    match token with
    | .neutral => .dropped
    | .release => .doubleFree
    | .extract | .rebuild | .access => .useAfterFree

/-- The state after a whole history of calls. -/
def State.run (mode : Mode) (start : State) (tokens : List Token) : State :=
  tokens.foldl (fun state token => token.step mode state) start

/-- The states passed through along a history, each after its token. -/
def State.trace (mode : Mode) : State → List Token → List (Token × State)
  | _, [] => []
  | state, token :: rest =>
    (token, token.step mode state) :: State.trace mode (token.step mode state) rest

@[simp]
theorem Token.step_neutral (mode : Mode) (state : State) : neutral.step mode state = state := by
  cases state <;> rfl

theorem Token.step_of_isAbsorbing {mode : Mode} {token : Token} {state : State}
    (h : state.isAbsorbing = true) : token.step mode state = state := by
  cases state <;> first | rfl | cases h

/-- No step loses information. -/
theorem Token.le_step (mode : Mode) (token : Token) (state : State) :
    state ≤ token.step mode state := by
  cases state <;> cases token <;> cases mode <;> decide

end Typestate
