import DequeMachine.Cli.Folder
import DequeMachine.Deque.Consistency
import DequeMachine.Deque.Printer
import DequeMachine.Main
import DequeMachine.Proofs.Cli.Command
import DequeMachine.Proofs.Deque.Consistency
import DequeMachine.Proofs.Deque.History
import DequeMachine.Proofs.Deque.Safety
import DequeMachine.Proofs.Machine.Cleanup
import DequeMachine.Proofs.Machine.Failure
import DequeMachine.Proofs.Machine.Halting
import DequeMachine.Proofs.Machine.LimitedSink
import DequeMachine.Proofs.Machine.MemoryLimit
import DequeMachine.Proofs.Machine.ReadablePrefix
import DequeMachine.Proofs.Machine.RoundTrip
import DequeMachine.Proofs.Machine.Session
import DequeMachine.Proofs.Machine.Simulation
import DequeMachine.Proofs.Statement.Grammar
import DequeMachine.Proofs.Machine.Trace
import DequeMachine.Proofs.Statement.Residue
import DequeMachine.Proofs.Text.LineEnds
import DequeMachine.Proofs.Machine.LineEnds
import DequeMachine.Proofs.Machine.Padding
import DequeMachine.Proofs.Deque.Frame
import DequeMachine.Proofs.Deque.Laws
import DequeMachine.Proofs.Deque.Peak
import DequeMachine.Proofs.Deque.Detached
import DequeMachine.Proofs.Machine.Arithmetic
import DequeMachine.Proofs.Machine.Output
import DequeMachine.Proofs.Deque.Insertion
