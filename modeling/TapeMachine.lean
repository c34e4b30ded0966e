import TapeMachine.Catalogue
import TapeMachine.CommandLine.Command
import TapeMachine.CommandLine.Options
import TapeMachine.CommandLine.Report
import TapeMachine.Description
import TapeMachine.Direction
import TapeMachine.Distinct
import TapeMachine.Encoding
import TapeMachine.Error
import TapeMachine.Event
import TapeMachine.Json
import TapeMachine.Json.Layout
import TapeMachine.Json.Lexeme
import TapeMachine.Json.Numeral
import TapeMachine.Json.Quoted
import TapeMachine.Json.Record
import TapeMachine.Json.RoundTrip
import TapeMachine.Json.Token
import TapeMachine.Json.Tree
import TapeMachine.Machine
import TapeMachine.Machine.Run
import TapeMachine.Main
import TapeMachine.Outcome
import TapeMachine.Program
import TapeMachine.Program.Check
import TapeMachine.Program.Reachability
import TapeMachine.Proofs.BoundedTape
import TapeMachine.Proofs.DeadRules
import TapeMachine.Proofs.DebugTrace
import TapeMachine.Proofs.EventLog
import TapeMachine.Proofs.Flags
import TapeMachine.Proofs.LiftedBounds
import TapeMachine.Proofs.LockStep
import TapeMachine.Proofs.LoopFree
import TapeMachine.Proofs.Lossless
import TapeMachine.Proofs.OneWayTape
import TapeMachine.Proofs.Reachable
import TapeMachine.Proofs.Recurrence
import TapeMachine.Proofs.Renaming
import TapeMachine.Proofs.Requirements
import TapeMachine.Proofs.Restart
import TapeMachine.Proofs.RuleOrder
import TapeMachine.Proofs.Session
import TapeMachine.Proofs.Standstill
import TapeMachine.Proofs.StepCap
import TapeMachine.Proofs.TapeGrowth
import TapeMachine.Proofs.TrailingBlanks
import TapeMachine.Proofs.Transition
import TapeMachine.Proofs.UnreadCells
import TapeMachine.Proofs.Verdict
import TapeMachine.Proofs.Vocabulary
import TapeMachine.Rule
import TapeMachine.State
import TapeMachine.Tape
import TapeMachine.Text.Digits
import TapeMachine.Text.Graphic
import TapeMachine.Text.Quoted
import TapeMachine.Text.Search
import TapeMachine.Text.Space
import TapeMachine.Proofs.Ambiguity
import TapeMachine.Proofs.Offenders
import TapeMachine.Proofs.LookAhead
import TapeMachine.Proofs.Unreachable
import TapeMachine.Proofs.Describing
import TapeMachine.Proofs.Placement
import TapeMachine.Proofs.Inputs
import TapeMachine.Proofs.Scans
import TapeMachine.Proofs.Sweep
import TapeMachine.Proofs.Termination
import TapeMachine.Proofs.WalkBack
import TapeMachine.Proofs.LastWrite
import TapeMachine.Proofs.InTurn
import TapeMachine.Proofs.Juxtaposition
import TapeMachine.Proofs.Phrases
import TapeMachine.Proofs.Forms
import TapeMachine.Proofs.Presentation
import TapeMachine.Proofs.FirstMention
