import Typestate.Run

/-!
# Findings

One run follows one value at a time, so it loses the link between a raw pointer and the owner that
is later rebuilt from it. The consuming run shows errors on the values the pointers came from, the
factory run follows the rebuilt owners. A finding is a call at which the two meet: some value is in
a memory error in the consuming run, and some value is freshly wrapped in the factory run.

## Contents

- §1 `Scope` and `Finding`
- §2 Call sites
- §3 Reconciliation
-/

namespace Typestate

/-! ## §1 Scope and findings -/

/-- Which calls are looked at. -/
inductive Scope where
  /-- Only calls that rebuild an owner. -/
  | rebuildSites
  /-- Every call. -/
  | allCallSites
  deriving DecidableEq, Inhabited

namespace Scope

/-- Both scopes. -/
def all : List Scope := [rebuildSites, allCallSites]

/-- The scope as written in data. -/
def name : Scope → String
  | rebuildSites => "unsafe-construct-sites"
  | allCallSites => "all-call-sites"

/-- The scope with the given name. -/
def ofName? (name : String) : Option Scope := all.find? (fun s => s.name == name)

/-- Whether calls with the token are looked at. -/
def covers (s : Scope) (token : Token) : Bool :=
  match s with
  | rebuildSites => token == .rebuild
  | allCallSites => true

end Scope

/-- A call at which an errored value meets a rewrapped one. -/
structure Finding where
  instruction : InstId
  /-- The name of the enclosing function. -/
  function : String
  callee : String
  token : Token
  /-- The values that contribute, with their states in either run. -/
  values : StateSets
  kinds : FiniteSet MemoryError
  deriving DecidableEq, Inhabited

/-- The states of all contributing values. -/
def Finding.states (f : Finding) : FiniteSet State :=
  f.values.values.foldl FiniteSet.union FiniteSet.empty

/-! ## §2 Call sites -/

/-- A call in a program. -/
structure CallSite where
  function : String
  instruction : InstId
  callee : String
  deriving DecidableEq

/-- The call sites among instructions in program order, of each identity only the first. -/
def firstCallSites (seen : FiniteSet InstId) : List (Function × Instruction) → List CallSite
  | [] => []
  | (f, i) :: rest =>
    match i.callee? with
    | none => firstCallSites seen rest
    | some callee =>
      if seen.contains i.id then firstCallSites seen rest
      else ⟨f.name, i.id, callee⟩ :: firstCallSites (FiniteSet.insert seen i.id) rest

/-- The call sites of a program, of each identity only the first. -/
def Program.callSites (p : Program) : List CallSite :=
  firstCallSites FiniteSet.empty p.instructions

/-! ## §3 Reconciliation -/

/-- The cells of a run at an instruction, of the listed values only. -/
def Run.observations (r : Run) (inst : InstId) (values : List ValueId) : List (ValueId × State) :=
  (r.table.row inst).filter (fun o => values.contains o.1)

/-- The contributing values at an instruction: errored ones of the consuming run and rewrapped ones
of the factory run. -/
def contributions (runs : RunPair) (inst : InstId) : StateSets :=
  let errored := runs.consuming.valuesWhere State.isMemoryError
  let wrapped := runs.factory.valuesWhere (· == State.rawWrapped)
  (runs.consuming.observations inst errored ++ runs.factory.observations inst wrapped).foldl
    (fun sets o => StateSets.add sets o.1 o.2) FiniteMap.empty

/-- The kinds of misuse among the states of contributing values. -/
def errorKinds (values : StateSets) : FiniteSet MemoryError :=
  FiniteSet.ofList (values.values.flatMap (fun set =>
    (FiniteSet.toList set).filterMap State.memoryError?))

/-- The finding at a call site, if there is one. -/
def findingAt? (classifier : Classifier) (scope : Scope) (runs : RunPair) (site : CallSite) :
    Option Finding :=
  let token := classifier.tokenOf site.callee
  if scope.covers token then
    let values := contributions runs site.instruction
    let kinds := errorKinds values
    if !kinds.isEmpty && values.values.any (FiniteMap.contains · State.rawWrapped) then
      some ⟨site.instruction, site.function, site.callee, token, values, kinds⟩
    else
      none
  else
    none

/-- The findings of two filtered runs, in program order. -/
def reconcile (program : Program) (classifier : Classifier) (scope : Scope) (runs : RunPair) :
    List Finding :=
  program.callSites.filterMap (findingAt? classifier scope runs)

end Typestate
