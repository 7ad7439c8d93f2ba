import Courier.Engine.Performance
import Courier.Grid.Entry
import Courier.Main
import Courier.Proofs.Engine.Conclusion
import Courier.Proofs.Engine.Feat
import Courier.Proofs.Queue.Control
import Courier.Proofs.Queue.Spell
import Courier.Proofs.Engine.Realm
import Courier.Proofs.Queue.Reachable
import Courier.Proofs.Queue.Ledger
import Courier.Proofs.Queue.Settlement
import Courier.Proofs.Queue.Preemption
import Courier.Proofs.Number.Exact
import Courier.Proofs.Queue.Outlook
import Courier.Proofs.Grid.Reachable
import Courier.Proofs.Instruction.Form
import Courier.Proofs.Instruction.Spelling
import Courier.Proofs.Run.Solvability
import Courier.Proofs.Engine.Uncancelled
import Courier.Proofs.Interpreter.Execution
import Courier.Proofs.Program.Meaning
import Courier.Proofs.Program.Compilation
import Courier.Proofs.Run.Verdict
import Courier.Proofs.Queue.Order
import Courier.Proofs.Engine.Session
import Courier.Proofs.Engine.Steady
import Courier.Proofs.Engine.Withdrawal
import Courier.Proofs.Queue.Instant
import Courier.Proofs.Queue.Passage
import Courier.Proofs.Queue.Posture
import Courier.Proofs.Queue.Attendance
import Courier.Proofs.Queue.Halt
import Courier.Proofs.Queue.Lobby
import Courier.Proofs.Queue.Branches
import Courier.Proofs.Engine.Handling
import Courier.Proofs.Json.Lookup
import Courier.Proofs.Program.Naming
import Courier.Proofs.Program.Resaving
import Courier.Proofs.Queue.Deliveries
import Courier.Proofs.Program.RoundTrip
import Courier.Proofs.Program.Recompiling
import Courier.Proofs.Number.Visible
import Courier.Proofs.Text.Lines
import Courier.Proofs.Program.TextForm
import Courier.Proofs.Grid.LevelForm
import Courier.Proofs.Run.Recording
import Courier.Proofs.Run.Replay
import Courier.Proofs.Interpreter.Branching
import Courier.Proofs.Program.Balance
import Courier.Proofs.Program.Counting
import Courier.Proofs.Program.Unrolling
import Courier.Proofs.Program.Limit
import Courier.Proofs.Cli.Precedence
import Courier.Proofs.Program.Unknown
import Courier.Proofs.Interpreter.Attempt
import Courier.Proofs.Text.Case
import Courier.Proofs.Interpreter.Registration
import Courier.Proofs.Instruction.Refusal
import Courier.Proofs.Instruction.Grammar
import Courier.Proofs.Files.Keeping
import Courier.Proofs.Json.Defects
import Courier.Proofs.Program.Defects
import Courier.Proofs.Grid.Defects
import Courier.Proofs.Run.Shortest
import Courier.Proofs.Cli.Pickup
import Courier.Proofs.Engine.Obstacle
import Courier.Proofs.Engine.Footage
import Courier.Proofs.Engine.Subscription
import Courier.Proofs.Queue.Showing
import Courier.Proofs.Run.Exposure
import Courier.Proofs.Files.RunName
import Courier.Proofs.Cli.Coercion
import Courier.Proofs.Settings.Acceptance
import Courier.Proofs.Json.Equality
import Courier.Proofs.Pose.Settling
import Courier.Proofs.Grid.Picture
import Courier.Proofs.Engine.Alarm
import Courier.Proofs.Engine.Dip
