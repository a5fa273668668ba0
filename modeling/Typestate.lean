import Typestate.CommandLine.Execute
import Typestate.Files.Tree
import Typestate.Main
import Typestate.Program.Builder
import Typestate.Proofs.Bindings
import Typestate.Proofs.Observation
import Typestate.Proofs.Flow
import Typestate.Proofs.ControlFlow
import Typestate.Proofs.Pass
import Typestate.Proofs.Propagation
import Typestate.Proofs.FixedPoint
import Typestate.Proofs.Closure
import Typestate.Proofs.Provenance
import Typestate.Proofs.Activation
import Typestate.Proofs.Trace
import Typestate.Proofs.Reordering
import Typestate.Proofs.OrderIndependence
import Typestate.Proofs.Tracking
import Typestate.Proofs.Route
import Typestate.Proofs.Budget
import Typestate.Proofs.Termination
import Typestate.Proofs.Filtering
import Typestate.Proofs.Reconciliation
import Typestate.Proofs.WrittenJson
import Typestate.Proofs.ProgramCodec
import Typestate.Proofs.Renaming
import Typestate.Proofs.Simulation
import Typestate.Proofs.Equivariance
import Typestate.Proofs.Roles
import Typestate.Proofs.Irrelevance
import Typestate.Proofs.Coverage
import Typestate.Proofs.Faults
import Typestate.Proofs.Diagnosis
import Typestate.Proofs.OutputSlot
import Typestate.Proofs.Fingerprints
import Typestate.Proofs.Resolution
import Typestate.Proofs.Histories
import Typestate.Proofs.Classification
import Typestate.Proofs.Modes
import Typestate.Proofs.NormalForm
import Typestate.Proofs.Spelling
import Typestate.Proofs.Lookup
import Typestate.Proofs.Forms
import Typestate.Proofs.Bodies
import Typestate.Proofs.Building
import Typestate.Proofs.ReportReading
import Typestate.Proofs.RowTable
import Typestate.Proofs.TableHistories
import Typestate.Proofs.Overrides
import Typestate.Proofs.Discovery
import Typestate.Proofs.Rounds
import Typestate.Proofs.Growth
import Typestate.Proofs.Replay
