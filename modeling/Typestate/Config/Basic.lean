import Typestate.Analysis
import Typestate.Toml.Decode

/-!
# Configuration texts

A configuration is a TOML document with the sections `analysis`, `reconcile` and `classifier`, each
of which may be absent. Reading one gives the settings of an analysis. What is well-formed is still
checked: there is an entry point, the limit is positive, and added entries name possible positions.

## Contents

- §1 Sections
- §2 Checks
-/

namespace Typestate.Config

open Toml (Field Fields)

/-! ## §1 Sections -/

/-- The section on runs. -/
def readAnalysis (t : Toml) : Except Toml.Fault RunSettings := do
  let absent := RunSettings.default
  let fields ← Fields.ofToml true
    [⟨"entry-points", some "entry_points"⟩, ⟨"parallel", none⟩, ⟨"coverage", none⟩,
      ⟨"max-iterations", some "max_iterations"⟩] t
  let entryPoints ← fields.withDefault "entry-points" absent.entryPoints
    (Toml.readList Toml.readString)
  let parallel ← fields.withDefault "parallel" absent.parallel Toml.readBool
  let coverage ← fields.withDefault "coverage" absent.coverage (Toml.readChoice Coverage.ofName?)
  let limit ← fields.withDefault "max-iterations" (Int.ofNat absent.maxIterations)
    (Toml.readInt 0 UInt64.size)
  pure ⟨entryPoints, coverage, parallel, limit.toNat⟩

/-- The section on reconciliation. -/
def readReconcile (t : Toml) : Except Toml.Fault Scope := do
  let fields ← Fields.ofToml true [⟨"scope", none⟩] t
  fields.withDefault "scope" .rebuildSites (Toml.readChoice Scope.ofName?)

/-- A position at a call. -/
def readPosition : Toml → Except Toml.Fault Position :=
  Toml.readInt (-Position.largest - 1) (Position.largest + 1)

/-- An entry for the table of known functions. -/
def readKnown (t : Toml) : Except Toml.Fault KnownFunction := do
  let fields ← Fields.ofToml false
    [⟨"name", none⟩, ⟨"token", none⟩, ⟨"consumers", none⟩, ⟨"factory_outputs", none⟩] t
  let name ← fields.required "name" Toml.readString
  let token ← fields.required "token" (Toml.readChoice Token.ofName?)
  let consumers ← fields.withDefault "consumers" [] (Toml.readList readPosition)
  let outputs ← fields.withDefault "factory_outputs" [] (Toml.readList readPosition)
  pure ⟨name, token, consumers, outputs⟩

/-- The section on classification. -/
def readClassifier (t : Toml) : Except Toml.Fault (List KnownFunction) := do
  let fields ← Fields.ofToml true [⟨"known", none⟩] t
  fields.withDefault "known" [] (Toml.readList readKnown)

/-- A whole document. -/
def readSettings (t : Toml) : Except Toml.Fault Settings := do
  let absent := Settings.default
  let fields ← Fields.ofToml true [⟨"analysis", none⟩, ⟨"reconcile", none⟩, ⟨"classifier", none⟩] t
  let run ← fields.withDefault "analysis" absent.run readAnalysis
  let scope ← fields.withDefault "reconcile" absent.scope readReconcile
  let known ← fields.withDefault "classifier" absent.known readClassifier
  pure ⟨run, scope, known⟩

/-! ## §2 Checks -/

/-- Why a configuration is refused. -/
inductive Fault where
  /-- The text does not read as a configuration. -/
  | unreadable (fault : Toml.Fault)
  | noEntryPoints
  | zeroLimit
  /-- An added entry names an impossible position. -/
  | known (fault : PositionFault)
  deriving DecidableEq

/-- The text of a refusal. -/
def Fault.message : Fault → String
  | unreadable fault => "TOML parse error: " ++ fault.message
  | noEntryPoints => "`analysis.entry-points` must name at least one function"
  | zeroLimit => "`analysis.max-iterations` must be positive"
  | known fault => "invalid `classifier.known` entry " ++ fault.message

/-- Checks settings that read well. -/
def check (s : Settings) : Except Fault Settings :=
  if s.run.entryPoints.isEmpty then .error .noEntryPoints
  else if s.run.maxIterations = 0 then .error .zeroLimit
  else
    match s.known.findSome? KnownFunction.fault? with
    | some fault => .error (.known fault)
    | none => .ok s

/-- The settings of a configuration text. -/
def parse (text : String) : Except Fault Settings :=
  match (Toml.parse text).bind readSettings with
  | .ok s => check s
  | .error fault => .error (.unreadable fault)

end Typestate.Config
