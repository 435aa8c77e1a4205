import MiniScript.Code.Listing
import MiniScript.Function.Description
import MiniScript.Function.Signature
import MiniScript.Json.Reader
import MiniScript.Main
import MiniScript.Program.DocumentReader
import MiniScript.Session.Basic
import MiniScript.Proofs.Code.Layout
import MiniScript.Proofs.Code.Control
import MiniScript.Proofs.Compiler.Yields
import MiniScript.Proofs.Code.SourceMap
import MiniScript.Proofs.Compiler.Written
import MiniScript.Proofs.Compiler.Layout
import MiniScript.Proofs.Compiler.Lines
import MiniScript.Proofs.World.Change
import MiniScript.Proofs.Machine.Outcome
import MiniScript.Proofs.Machine.Plan
import MiniScript.Proofs.Machine.Run
import MiniScript.Proofs.Machine.Discipline
import MiniScript.Proofs.Machine.Frames
import MiniScript.Proofs.Machine.Standing
import MiniScript.Proofs.Machine.Located
import MiniScript.Proofs.Machine.Lifecycle
import MiniScript.Proofs.Machine.Suspension
import MiniScript.Proofs.Machine.Operands
import MiniScript.Proofs.Machine.Returning
import MiniScript.Proofs.World.Alike
import MiniScript.Proofs.Machine.Driving
import MiniScript.Proofs.Machine.Drivers
import MiniScript.Proofs.Machine.Waits
import MiniScript.Proofs.Evaluation.Basic
import MiniScript.Proofs.Evaluation.Following
import MiniScript.Proofs.Evaluation.Instructions
import MiniScript.Proofs.Evaluation.Control
import MiniScript.Proofs.Evaluation.Compiled
import MiniScript.Proofs.Machine.Waking
import MiniScript.Proofs.Module.Books
import MiniScript.Proofs.Module.Loading
import MiniScript.Proofs.Module.Order
import MiniScript.Proofs.Module.Fate
import MiniScript.Proofs.Module.Import
import MiniScript.Proofs.Module.Circular
import MiniScript.Proofs.Machine.Natives
import MiniScript.Proofs.World.Scene
import MiniScript.Proofs.Debugger.Sessions
import MiniScript.Proofs.Debugger.Instructions
import MiniScript.Proofs.Debugger.StopPoints
import MiniScript.Proofs.Debugger.Calls
import MiniScript.Proofs.Compiler.Acceptance
import MiniScript.Proofs.Parser.RoundTrip
import MiniScript.Proofs.Number.Integer
import MiniScript.Proofs.Number.Order
import MiniScript.Proofs.Operator.Lengths
import MiniScript.Proofs.Machine.Bursts
import MiniScript.Proofs.Heap.Names
import MiniScript.Proofs.Heap.Ancestry
import MiniScript.Proofs.Machine.Methods
import MiniScript.Proofs.Machine.Interceptors
import MiniScript.Proofs.Code.Sealing
import MiniScript.Proofs.Compiler.Nodes
import MiniScript.Proofs.Machine.Trail
import MiniScript.Proofs.Machine.Passage
import MiniScript.Proofs.Machine.ShortCircuit
import MiniScript.Proofs.Machine.Tenure
import MiniScript.Proofs.Compiler.ForLoops
import MiniScript.Proofs.Machine.Loops
import MiniScript.Proofs.Datum.Basic
import MiniScript.Proofs.Datum.Equality
import MiniScript.Proofs.Heap.Comparison
import MiniScript.Proofs.Heap.Equivalence
import MiniScript.Proofs.Heap.Filing
import MiniScript.Proofs.Machine.Draining
import MiniScript.Proofs.Token.Lexemes
import MiniScript.Proofs.Datum.Literal
import MiniScript.Proofs.Datum.Building
import MiniScript.Proofs.Datum.Beside
import MiniScript.Proofs.Parser.Assignment
import MiniScript.Proofs.Evaluation.Driven
import MiniScript.Proofs.Datum.ReadBack
import MiniScript.Proofs.Token.Spans
import MiniScript.Proofs.Machine.Failing
import MiniScript.Proofs.Deferred.History
import MiniScript.Proofs.Compiler.Literals
import MiniScript.Proofs.Heap.Seclusion
import MiniScript.Proofs.World.Seclusion
import MiniScript.Proofs.Machine.Seclusion
import MiniScript.Proofs.Machine.Confinement
import MiniScript.Proofs.Machine.Locality
import MiniScript.Proofs.Function.Signature
import MiniScript.Proofs.Code.Labels
import MiniScript.Proofs.Parser.Bookkeeping
import MiniScript.Proofs.Parser.Places
import MiniScript.Proofs.Number.Counting
import MiniScript.Proofs.Operator.Slices
import MiniScript.Proofs.Library.Positions
import MiniScript.Proofs.Text.Occurrences
import MiniScript.Proofs.Library.Splitting
import MiniScript.Proofs.Library.Searching
