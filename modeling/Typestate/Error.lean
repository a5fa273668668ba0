import Typestate.Json.Decode
import Typestate.Solver.Validate
import Typestate.Transition

/-!
# Errors of an analysis

One type for everything that can go wrong between a program file and its findings, with the text of
each in one place.
-/

namespace Typestate

/-- What went wrong. -/
inductive Error where
  /-- A file could not be read; the reason is the system's. -/
  | io (reason : String)
  /-- The text of a program is no program. -/
  | malformed (fault : Json.Fault)
  /-- The settings do not allow an analysis. -/
  | config (reason : String)
  /-- The run in one mode was abandoned. -/
  | solver (mode : Mode) (cause : SolveError)
  /-- Anything else. -/
  | other (reason : String)
  deriving DecidableEq

namespace Error

/-- The text of an error. -/
def message : Error → String
  | io reason => "I/O error: " ++ reason
  | malformed fault => "malformed program: " ++ fault.message
  | config reason => "configuration error: " ++ reason
  | solver mode cause =>
    "run with " ++ mode.label ++ " failed in solver stage `" ++ cause.stage ++ "`: " ++
      cause.message
  | other reason => reason

/-- The text of the error that caused this one, where that is an error of its own. -/
def cause? : Error → Option String
  | io reason => some reason
  | malformed fault => some fault.message
  | solver _ cause => some cause.message
  | config _ | other _ => none

/-- The texts of an error and of what caused it, outermost first. -/
def chain (e : Error) : List String := e.message :: e.cause?.toList

/-- An error known by a chain of contexts, innermost first: only the outermost text is kept. -/
def ofContexts (reason : String) (contexts : List String) : Error :=
  .other (contexts.getLast?.getD reason)

/-- Fails with `reason` unless the condition holds. -/
def ensure (condition : Bool) (reason : String) : Except Error Unit :=
  if condition then .ok () else .error (.other reason)

/-- A count that has to be positive. -/
def ensurePositive (n : Int) : Except Error Int := do
  ensure (0 < n) ("expected a positive count, got " ++ toString n)
  pure n

end Error

end Typestate
