/-!
# Tokens: the role of a call

Every call site plays one of five roles for the values it touches. The role alone decides how a
state moves; which arguments move is a matter of positions.
-/

namespace Typestate

/-- The operational role of a call. -/
inductive Token where
  /-- An uninteresting call: nothing moves. -/
  | neutral
  /-- Extracts a raw pointer and leaves its source alive. -/
  | extract
  /-- Builds an owner from raw parts. -/
  | rebuild
  /-- Releases a value. -/
  | release
  /-- Reads or writes through a value. -/
  | access
  deriving DecidableEq, Inhabited

namespace Token

/-- Every token, in declaration order. -/
def all : List Token := [neutral, extract, rebuild, release, access]

/-- The token as written for a reader. -/
def label : Token → String
  | neutral => "STAR"
  | extract => "GET_PTR"
  | rebuild => "UNSAFE_CONSTRUCT"
  | release => "DROP"
  | access => "USE"

/-- The token as written in data. -/
def name : Token → String
  | neutral => "star"
  | extract => "get-ptr"
  | rebuild => "unsafe-construct"
  | release => "drop"
  | access => "use"

/-- The token with the given name. -/
def ofName? (name : String) : Option Token := all.find? (fun t => t.name == name)

@[simp]
theorem ofName?_name (t : Token) : ofName? t.name = some t := by
  cases t <;> decide

end Token

end Typestate
