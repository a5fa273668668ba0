import Typestate.KnownTable
import Typestate.Program.Declarations
import Typestate.Transition

/-!
# Classification of call targets

What a call does to the values around it is decided by the identifier of its target, in this order:

1. an entry of the table of known functions, under the normalised identifier;
2. a marker inside the normalised identifier;
3. a target that the program does not declare does nothing;
4. any other target is an access to each of its arguments.

The mode only matters for calls that rebuild an owner: what they produce is tracked in the factory
mode and left alone in the consuming mode.

## Contents

- §1 `CallInfo`: the result of a classification
- §2 Markers
- §3 Shaping by mode and output slot
- §4 The classifier
-/

namespace Typestate

/-! ## §1 Call information -/

/-- Which of the four rules decided. -/
inductive Provenance where
  /-- An entry of the table. -/
  | curated
  /-- A marker in the identifier. -/
  | heuristic
  /-- The program does not declare the identifier. -/
  | unresolved
  /-- Declared and otherwise unknown. -/
  | fallback
  deriving DecidableEq, Inhabited

namespace Provenance

/-- Whether the call was recognised, as opposed to given a default meaning. -/
def isRecognised : Provenance → Bool
  | curated | heuristic => true
  | unresolved | fallback => false

/-- The rule as written in data and for a reader. -/
def name : Provenance → String
  | curated => "curated"
  | heuristic => "heuristic"
  | unresolved => "unresolved"
  | fallback => "fallback"

end Provenance

/-- What a call does: its role, the positions that move and the positions that are produced. -/
structure CallInfo where
  token : Token
  /-- Whether the call produces a tracked value. -/
  isFactory : Bool
  /-- Positions that receive the produced value. -/
  outputs : FiniteSet Position
  /-- Argument positions whose values move. -/
  consumers : FiniteSet Position
  provenance : Provenance
  deriving DecidableEq, Inhabited

/-- Whether some argument moves. -/
def CallInfo.isConsuming (info : CallInfo) : Bool := !info.consumers.isEmpty

/-! ## §2 Markers -/

/-- Whether `pattern` occurs in the text. -/
def occursIn (pattern : List Char) : List Char → Bool
  | [] => pattern.isEmpty
  | c :: rest => pattern.isPrefixOf (c :: rest) || occursIn pattern rest

/-- The markers of each role, in the order in which they are looked for. -/
def markers : List (Token × List String) :=
  [ (.extract, ["into_raw_parts", "into_raw", "as_mut_ptr", "as_ptr"]),
    (.rebuild, ["from_raw_parts", "from_raw"]),
    (.release, ["drop_in_place", "::drop", "dealloc"]) ]

/-- The role that a marker inside a normalised identifier stands for. -/
def markedToken? (identifier : String) : Option Token :=
  (markers.find? (fun m => m.2.any (fun p => occursIn p.toList identifier.toList))).map (·.1)

/-! ## §3 Shaping -/

/-- Whether a call produces a tracked value, and where, before any output slot is considered. -/
def production (mode : Mode) (token : Token) (outputs : FiniteSet Position) :
    Bool × FiniteSet Position :=
  match token with
  | .rebuild =>
    match mode with
    | .consuming => (false, FiniteSet.empty)
    | .factory =>
      (true, if outputs.isEmpty then FiniteSet.ofList [Position.result] else outputs)
  | _ => (!outputs.isEmpty, outputs)

/--
The classification of a recognised call. An output slot takes a place of its own among the
arguments: positions from the slot on move up by one, and a produced value also arrives there.
-/
def CallInfo.recognised (mode : Mode) (token : Token) (consumers outputs : FiniteSet Position)
    (provenance : Provenance) (slot : Option UInt64) : CallInfo :=
  let (isFactory, outputs) := production mode token outputs
  match slot with
  | none => ⟨token, isFactory, outputs, consumers, provenance⟩
  | some k =>
    let place := Position.ofSlot k
    ⟨token, isFactory,
      if isFactory then FiniteSet.insert outputs place else outputs,
      FiniteSet.map (fun p => if place ≤ p then Position.next p else p) consumers,
      provenance⟩

/-- A call that does nothing. -/
def CallInfo.inert (provenance : Provenance) : CallInfo :=
  ⟨.neutral, false, FiniteSet.empty, FiniteSet.empty, provenance⟩

/-- A call that accesses its arguments: those below the position that `arity` stands for. -/
def CallInfo.accessAll (arity : Nat) : CallInfo :=
  ⟨.access, false, FiniteSet.empty,
    FiniteSet.ofList ((List.range (Position.ofIndex arity).toNat).map Int.ofNat), .fallback⟩

/-! ## §4 The classifier -/

/-- What classification depends on besides the identifier and the mode. -/
structure Classifier where
  known : KnownTable
  declarations : Declarations
  deriving Inhabited

namespace Classifier

/-- The classification of a call target. -/
def classify (c : Classifier) (mode : Mode) (identifier : String) : CallInfo :=
  let declaration := c.declarations.resolve? identifier
  let slot := declaration.bind (·.outputArg)
  let normalized := Identifier.normalize identifier
  match c.known.get? normalized with
  | some entry =>
    .recognised mode entry.token (FiniteSet.ofList entry.consumers) (FiniteSet.ofList entry.outputs)
      .curated slot
  | none =>
    match markedToken? normalized with
    | some token =>
      let outputs := match token with
        | .extract | .rebuild => [Position.result]
        | _ => []
      .recognised mode token (FiniteSet.ofList [0]) (FiniteSet.ofList outputs) .heuristic slot
    | none =>
      match declaration with
      | none => .inert .unresolved
      | some d => .accessAll d.arity

/-- The role of a call target, which no mode changes. -/
def tokenOf (c : Classifier) (identifier : String) : Token :=
  (c.classify .consuming identifier).token

end Classifier

end Typestate
