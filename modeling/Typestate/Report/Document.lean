import Typestate.Json.Printer
import Typestate.Report.Fingerprint
import Typestate.Timestamp

/-!
# The findings as a JSON document

The document holds the time of its making, the number of findings, and for each finding its
fingerprint, its place, its kinds and the contributing values with their labels and states.
-/

namespace Typestate.Report

/-- A contributing value. -/
def valueJson (program : Program) (e : ValueId × FiniteSet State) : Json :=
  .ofMembers [
    ("value", .ofNat e.1.index.toNat),
    ("name", .ofString (program.valueLabel e.1)),
    ("states", .array ((FiniteSet.toList e.2).map (fun s => .ofString s.name)))]

/-- A finding. -/
def findingJson (program : Program) (f : Finding) : Json :=
  .ofMembers [
    ("id", .ofString f.fingerprint),
    ("instruction", .ofNat f.instruction.index.toNat),
    ("function", .ofString f.function),
    ("callee", .ofString f.callee),
    ("token", .ofString f.token.name),
    ("kinds", .array ((FiniteSet.toList f.kinds).map (fun k => .ofString k.name))),
    ("values", .array (f.values.toList.map (valueJson program)))]

/-- The report of findings made at a given time. -/
def documentJson (program : Program) (fs : List Finding) (time : Timestamp) : Json :=
  .ofMembers [
    ("generated_at", .ofString time.write),
    ("total", .ofNat fs.length),
    ("findings", .array (fs.map (findingJson program)))]

/-- The document of a report. -/
def document (program : Program) (fs : List Finding) (time : Timestamp) : String :=
  (documentJson program fs time).pretty

end Typestate.Report
