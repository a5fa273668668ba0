/-!
# Arguments of a command

A command takes flags, options with a value, and at most one kind of positional argument. The value
of an option and positional values are first collected and only settled when the next option comes or
the arguments end; of two mistakes, the one that is settled first is reported.

## Contents

- §1 What a command takes
- §2 Mistakes
- §3 Collecting and settling
- §4 One argument, and all of them
-/

namespace Typestate.CommandLine

/-! ## §1 What a command takes -/

/-- How often an argument may be given. -/
inductive Repetition where
  | once
  | anyNumber
  deriving DecidableEq

/-- An argument that carries values. -/
structure Slot where
  name : String
  repetition : Repetition
  /-- Which values are possible. -/
  accepts : String → Bool

/-- What a command takes. -/
structure Signature where
  /-- Names of flags, without the dashes. -/
  flags : List String
  options : List Slot
  /-- Positional values, of which at least one is required. -/
  positional : Option Slot

/-! ## §2 Mistakes -/

/-- Why arguments do not make a command. The first three are not mistakes but questions. -/
inductive UsageFault where
  | helpRequested
  | versionRequested
  /-- No command is given. -/
  | nothingRequested
  | unknownCommand
  | unknownArgument
  /-- The value of an option is missing or not possible. -/
  | invalidValue
  | missingArgument
  /-- An argument is given again that may be given once. -/
  | repeatedArgument
  /-- A value is given to a flag. -/
  | unexpectedValue
  deriving DecidableEq

/-- The exit code that goes with a fault. -/
def UsageFault.exitCode : UsageFault → Nat
  | helpRequested | versionRequested => 0
  | _ => 2

/-! ## §3 Collecting and settling -/

/-- Arguments read so far. -/
structure Collected where
  /-- Settled arguments with their values, in order. -/
  settled : List (String × List String)
  /-- The argument whose values are being collected. -/
  open? : Option (Slot × List String)
  /-- Whether everything from here on is positional. -/
  positionalOnly : Bool
  /-- Whether a positional value has been seen. -/
  positionalSeen : Bool

namespace Collected

/-- Nothing has been read. -/
def start : Collected := ⟨[], none, false, false⟩

/-- Whether an argument has been settled. -/
def has (c : Collected) (name : String) : Bool := c.settled.any (fun s => s.1 == name)

/-- The values of an argument, in order. -/
def values (c : Collected) (name : String) : List String :=
  (c.settled.filter (fun s => s.1 == name)).flatMap (·.2)

/-- Settles values: there has to be one, the argument must be allowed again, and the values possible. -/
def add (c : Collected) (slot : Slot) (values : List String) : Except UsageFault Collected :=
  if values.isEmpty then .error .invalidValue
  else if slot.repetition == .once && c.has slot.name then .error .repeatedArgument
  else if !values.all slot.accepts then .error .invalidValue
  else .ok { c with settled := c.settled ++ [(slot.name, values)] }

/-- Settles the argument whose values are being collected. -/
def settle (c : Collected) : Except UsageFault Collected :=
  match c.open? with
  | none => .ok c
  | some (slot, values) => { c with open? := none }.add slot values

/-- Settles a flag. -/
def addFlag (c : Collected) (name : String) : Except UsageFault Collected := do
  let c ← c.settle
  if c.has name then .error .repeatedArgument
  else .ok { c with settled := c.settled ++ [(name, [])] }

/-- Starts collecting for an argument. -/
def begin (c : Collected) (slot : Slot) (values : List String) : Except UsageFault Collected := do
  let c ← c.settle
  pure { c with open? := some (slot, values) }

/-! ## §4 Arguments -/

/-- A positional value. -/
def positional (signature : Signature) (c : Collected) (value : String) :
    Except UsageFault Collected :=
  match signature.positional with
  | none => .error .unknownArgument
  | some slot =>
    match slot.repetition with
    | .once =>
      if c.positionalSeen then .error .unknownArgument
      else do pure { ← c.begin slot [value] with positionalSeen := true }
    | .anyNumber =>
      match c.open? with
      | some (collecting, values) =>
        if collecting.name == slot.name then
          .ok { c with open? := some (slot, values ++ [value]) }
        else c.begin slot [value]
      | none => c.begin slot [value]

/-- An option or flag by its long name, with the value behind an equals sign if there is one. -/
def long (signature : Signature) (c : Collected) (name : String) (attached : Option String) :
    Except UsageFault Collected :=
  if name == "help" || signature.flags.contains name then
    match attached with
    | some _ => .error .unexpectedValue
    | none =>
      if name == "help" then do
        let _ ← c.settle
        .error .helpRequested
      else c.addFlag name
  else
    match signature.options.find? (fun slot => slot.name == name) with
    | none => .error .unknownArgument
    | some slot =>
      match attached with
      | none => c.begin slot []
      | some value => do (← c.settle).add slot [value]

/-- Cuts a text at its first equals sign. -/
def splitEquals (text : List Char) : String × Option String :=
  (String.ofList (text.takeWhile (· != '=')),
    match text.dropWhile (· != '=') with
    | _ :: value => some (String.ofList value)
    | [] => none)

/-- One argument. -/
def argument (signature : Signature) (c : Collected) (arg : String) :
    Except UsageFault Collected :=
  if c.positionalOnly then positional signature c arg
  else
    match arg.toList with
    | ['-', '-'] => .ok { c with positionalOnly := true }
    | '-' :: '-' :: rest =>
      let (name, attached) := splitEquals rest
      long signature c name attached
    | '-' :: 'h' :: _ => do
      let _ ← c.settle
      .error .helpRequested
    | '-' :: _ :: _ => .error .unknownArgument
    | _ =>
      match c.open? with
      | some (slot, []) => .ok { c with open? := some (slot, [arg]) }
      | _ => positional signature c arg

/-- All arguments of a command. -/
def all (signature : Signature) (args : List String) : Except UsageFault Collected := do
  let c ← args.foldlM (argument signature) start
  let c ← c.settle
  match signature.positional with
  | some slot => if c.has slot.name then pure c else .error .missingArgument
  | none => pure c

end Collected

end Typestate.CommandLine
