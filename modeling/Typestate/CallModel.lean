import Typestate.Classifier
import Typestate.Table

/-!
# Call models

A call model fixes everything a solver needs to know about calls to functions outside the program:
how targets are classified, in which mode, and which calls are looked at. It turns a call into an
update of the facts.

## Contents

- §1 `Coverage` and `CallModel`
- §2 The effect of a call on the facts
-/

namespace Typestate

/-! ## §1 Models -/

/-- Which calls may move states. -/
inductive Coverage where
  /-- Every call. -/
  | full
  /-- Only calls that were recognised. -/
  | allowList
  deriving DecidableEq, Inhabited

namespace Coverage

/-- Both coverages. -/
def all : List Coverage := [full, allowList]

/-- The coverage as written in data. -/
def name : Coverage → String
  | full => "full"
  | allowList => "allow-list"

/-- The coverage with the given name. -/
def ofName? (name : String) : Option Coverage := all.find? (fun c => c.name == name)

end Coverage

/-- How calls to functions without a body are understood. -/
structure CallModel where
  classifier : Classifier
  coverage : Coverage
  mode : Mode
  deriving Inhabited

namespace CallModel

/-- The least informative state that an observation starts from, in every model alike. -/
def bottom (_ : CallModel) : State := State.bottom

/-- The state of a value to which nothing has happened yet, in every model alike. -/
def uninit (_ : CallModel) : State := State.uninit

/-- The state that stands for noise, in every model alike. -/
def error (_ : CallModel) : State := State.error

/-- The classification of a call target in the mode of the model. -/
def info (m : CallModel) (callee : String) : CallInfo := m.classifier.classify m.mode callee

/-- The state that follows `s` after a call. -/
def next (m : CallModel) (callee : String) (s : State) : State :=
  (m.info callee).token.step m.mode s

/-- Whether calls to the target are looked at. -/
def observes (m : CallModel) (callee : String) : Bool :=
  match m.coverage with
  | .full => true
  | .allowList => (m.info callee).provenance.isRecognised

/-! ## §2 Effects -/

/-- The value at a consumed position moves; one that nothing is known about starts as `uninit`. -/
def consume (m : CallModel) (callee : String) (args : List ValueId) (facts : Facts)
    (p : Position) : Facts :=
  match Position.argument? args p with
  | some v => facts.insert v (m.next callee ((facts.get? v).getD .uninit))
  | none => facts

/-- The value that a produced position stands for. -/
def target? (args : List ValueId) (result : Option ValueId) (p : Position) : Option ValueId :=
  if p = Position.result then result else Position.argument? args p

/-- The value at a produced position becomes fresh. -/
def produce (m : CallModel) (callee : String) (args : List ValueId) (result : Option ValueId)
    (facts : Facts) (p : Position) : Facts :=
  match target? args result p with
  | some v => facts.insert v (m.next callee .uninit)
  | none => facts

/-- The facts after a call: first consumed positions move, then produced ones are set. -/
def apply (m : CallModel) (callee : String) (args : List ValueId) (result : Option ValueId)
    (facts : Facts) : Facts :=
  if m.observes callee then
    let info := m.info callee
    let facts := (FiniteSet.toList info.consumers).foldl (m.consume callee args) facts
    if info.isFactory then
      (FiniteSet.toList info.outputs).foldl (m.produce callee args result) facts
    else
      facts
  else
    facts

end CallModel

end Typestate
