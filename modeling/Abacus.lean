import Abacus.Main
import Abacus.Sink.Characters
import Abacus.Stack.View
import Abacus.Proofs.Program.Basic
import Abacus.Proofs.Machine.History
import Abacus.Proofs.Program.Encoding
import Abacus.Proofs.Program.Refinement
import Abacus.Proofs.Program.Trail
import Abacus.Proofs.Machine.Trace
import Abacus.Proofs.Machine.Independence
import Abacus.Proofs.Machine.StepLimit
import Abacus.Proofs.Expression.Basic
import Abacus.Proofs.Expression.Postorder
import Abacus.Proofs.Expression.Forest
import Abacus.Proofs.Chunk.SafeEdits
import Abacus.Proofs.Listing.Agreement
import Abacus.Proofs.Machine.Completed
import Abacus.Proofs.Machine.Control
import Abacus.Proofs.Chunk.Growth
import Abacus.Proofs.Machine.Appending
import Abacus.Proofs.Machine.Diagnosis
import Abacus.Proofs.Bare.Machine
import Abacus.Proofs.Machine.Bounds
import Abacus.Proofs.Chunk.AppendOnly
import Abacus.Proofs.Program.RoundTrip
import Abacus.Proofs.Listing.Legible
import Abacus.Proofs.CommandLine.Output
import Abacus.Proofs.Sink.CutTrace
import Abacus.Proofs.Bare.InPlace
import Abacus.Proofs.Listing.Coverage
import Abacus.Proofs.Listing.Walk
import Abacus.Proofs.Listing.Written
import Abacus.Proofs.Chunk.Rebuild
import Abacus.Proofs.Listing.Extension
import Abacus.Proofs.Config.Variables
import Abacus.Proofs.CommandLine.Grammar
import Abacus.Proofs.Machine.FaultText
import Abacus.Proofs.Number.Binary64
