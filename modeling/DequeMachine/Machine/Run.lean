import DequeMachine.Log
import DequeMachine.Machine.Exec
import DequeMachine.Script
import DequeMachine.Statement

/-!
# DequeMachine.Machine.Run

How a machine runs a program.

1. It starts afresh, whatever it did before.
2. It reads the lines in order, counts each, and stops at the first error.
3. However the run ends, it flushes its output once and then releases all nodes.  A flush that fails
   is an error of the run, unless the run has one already.
-/

namespace DequeMachine

/-- The result of a run. -/
structure Report where
  /-- Why the run stopped before the end of the program. -/
  error? : Option Error
  /-- What the machine reported, in order. -/
  log : Array Entry
  /-- The machine after the run. -/
  machine : Machine
deriving DecidableEq, Repr

namespace Machine

/-! ## Lines -/

/-- The result of one line. -/
structure Step where
  error? : Option Error
  entry? : Option Entry
  machine : Machine
deriving DecidableEq, Repr

/-- Reads the next line and does what it says. -/
def step (m : Machine) (text : List Char) : Step :=
  -- A word of 32 bits counts the same, if the program has fewer than `maxLines` lines.
  let line := m.line + 1
  let m := { m with line }
  match Statement.parseLine line text with
  | .error e => ⟨some e, none, m⟩
  | .ok .blank => ⟨none, none, m⟩
  | .ok .comment => ⟨none, none, m⟩
  | .ok (.mode mode) => ⟨none, some ⟨.switch line mode, []⟩, { m with mode }⟩
  | .ok (.instruction i) =>
    let mark := m.sink.written.size
    let (cause?, m) := m.exec i
    ⟨cause?.map (Error.exec line), some ⟨.exec line i, m.sink.since mark⟩, m⟩

/-- Reads lines up to the first error, after what `log` holds. -/
def runLines (m : Machine) (log : Array Entry) : List (List Char) → Report
  | [] => ⟨none, log, m⟩
  | text :: texts =>
    let ⟨error?, entry?, m⟩ := m.step text
    let log := log ++ entry?.toArray
    match error? with
    | some e => ⟨some e, log, m⟩
    | none => m.runLines log texts

end Machine

/-! ## Runs -/

/-- Ends a run whose lines stop for the reason `stop?`. -/
def Report.finish (r : Report) (stop? : Option ReadError) : Report :=
  let ⟨error?, log, m⟩ := r
  let (fault?, sink) := m.sink.flush
  let (count, deque) := m.deque.clear
  let error? := error?.or (stop?.map Error.read)
  let error? := error?.or (fault?.map (Error.exec m.line ∘ ExecError.output))
  { error?
    log := log.push ⟨.released count, []⟩
    machine := { m with deque, sink, status := if error?.isNone then .finished else .failed } }

namespace Machine

/-- Runs a program. -/
def run (m : Machine) (script : Script) : Report :=
  (m.reset.runLines #[] script.lines).finish script.stop?

/-- Runs the program that a text holds. -/
def runText (m : Machine) (source : String) : Report := m.run (Script.ofText source)

/-- Runs the program that arrives from a stream. -/
def runReads (m : Machine) (reads : List Read) : Report := m.run (Script.ofReads reads)

end Machine

/-- Runs a text on a new machine. -/
def interpret (limit : Nat) (sink : Sink) (source : String) : Report :=
  (Machine.new limit sink).runText source

end DequeMachine
