import DequeMachine.Proofs.Machine.Printing
import DequeMachine.Proofs.Machine.Reads

/-!
# DequeMachine.Proofs.Machine.Session

A machine that is used more than once, on a sink whose flushes may fail at some times and not at
others.

* `run_eq_new`: a run of any machine is that of a new one.
* `written_run`: without a capacity, a run prints what it prints on a new sink.
* `session_eq_new`: whatever was called before, the next run is that of a new machine.
-/

namespace DequeMachine

namespace Machine

variable {m : Machine}

/-! ## One run -/

/-- Nothing that a machine did before shows in a run but its sink. -/
theorem run_eq_new (m : Machine) (script : Script) :
    m.run script = (new m.limit m.sink).run script :=
  run_congr rfl rfl script

/-- What a program prints does not depend on the sink, if it takes everything. -/
theorem output_withSink {s : Sink} (hm : m.sink.capacity? = none) (hs : s.capacity? = none)
    (script : Script) : ((m.withSink s).run script).output = (m.run script).output := by
  have hroom : s.refusal? (m.reset.runLines #[] script.lines).output = none := by
    simp [Sink.refusal?, hs]
  have hlines := congrArg Report.output (runLines_withSink (m := m.reset) hm hroom)
  rw [output_run, output_run]
  exact hlines

/-- Without a capacity, a run adds to the sink what a run on a new sink prints. -/
theorem written_run (hm : m.sink.capacity? = none) (flushFault? : Option Fault) (script : Script) :
    (m.run script).machine.sink.written.toList =
      m.sink.written.toList ++
        ((new m.limit ⟨none, flushFault?, #[], #[]⟩).run script).machine.sink.written.toList := by
  have houtput : ((new m.limit ⟨none, flushFault?, #[], #[]⟩).run script).output =
      (m.run script).output :=
    output_withSink hm rfl script
  rw [run_sink, run_sink, houtput, Array.toList_appendList, Array.toList_appendList]
  rfl

/-! ## Several calls -/

/-- A call to a machine, or something that happens to its sink between two calls. -/
inductive Call where
  | runText (source : String)
  | runReads (reads : List Read)
  | reset
  /-- From now on a flush has this result. -/
  | setFlush (fault? : Option Fault)
deriving DecidableEq, Repr

/-- The machine after a call, whatever the call reports. -/
def call (m : Machine) : Call → Machine
  | .runText source => (m.runText source).machine
  | .runReads reads => (m.runReads reads).machine
  | .reset => m.reset
  | .setFlush fault? => m.withFlushFault fault?

/-- The machine after a series of calls. -/
def session (m : Machine) (calls : List Call) : Machine := calls.foldl call m

theorem call_limit (m : Machine) (c : Call) : (m.call c).limit = m.limit := by
  cases c with
  | runText source => exact run_limit m _
  | runReads reads => exact run_limit m _
  | reset | setFlush => rfl

theorem session_limit (m : Machine) (calls : List Call) : (m.session calls).limit = m.limit := by
  induction calls generalizing m with
  | nil => rfl
  | cons c calls ih => exact (ih (m.call c)).trans (call_limit m c)

theorem call_capacity? (m : Machine) (c : Call) :
    (m.call c).sink.capacity? = m.sink.capacity? := by
  cases c with
  | runText source => rw [call, runText, run_sink]
  | runReads reads => rw [call, runReads, run_sink]
  | reset | setFlush => rfl

theorem written_call (hm : m.sink.capacity? = none) (flushFault? : Option Fault) (c : Call) :
    (m.call c).sink.written.toList =
      m.sink.written.toList ++
        ((new m.limit ⟨none, flushFault?, #[], #[]⟩).call c).sink.written.toList := by
  cases c with
  | runText source => exact written_run hm flushFault? _
  | runReads reads => exact written_run hm flushFault? _
  | reset | setFlush => exact (List.append_nil _).symm

theorem written_session (hm : m.sink.capacity? = none) (flushFault? : Option Fault)
    (calls : List Call) :
    (m.session calls).sink.written.toList =
      m.sink.written.toList ++ calls.flatMap fun c =>
        ((new m.limit ⟨none, flushFault?, #[], #[]⟩).call c).sink.written.toList := by
  induction calls generalizing m with
  | nil => exact (List.append_nil _).symm
  | cons c calls ih =>
      have hrest := ih ((call_capacity? m c).trans hm)
      rw [call_limit, written_call hm flushFault?] at hrest
      rw [List.flatMap_cons, ← List.append_assoc, ← hrest]
      rfl

/-- After any calls, whatever they reported and however their flushes ended, a machine runs a
program as a new one with the same sink: the report is the same, with the machine that it leaves.  A
reset makes it equal to a new one with its sink.  Both hold of every machine, also of one that no
calls lead to.  Without a capacity, the output of all calls is that of each on a new machine, one
after the other. -/
theorem session_eq_new (limit : Nat) (sink : Sink) (calls : List Call) :
    let m := (new limit sink).session calls
    (∀ source, m.runText source = (new limit m.sink).runText source) ∧
      (∀ reads, m.runReads reads = (new limit m.sink).runReads reads) ∧
      m.reset = new limit m.sink ∧
      (∀ (m' : Machine) (script : Script),
        m'.run script = (new m'.limit m'.sink).run script ∧ m'.reset = new m'.limit m'.sink) ∧
      ∀ flushFault? written flushedAt,
        ((new limit ⟨none, flushFault?, written, flushedAt⟩).session calls).sink.written.toList =
          written.toList ++ calls.flatMap fun c =>
            ((new limit ⟨none, flushFault?, #[], #[]⟩).call c).sink.written.toList := by
  intro m
  have hlimit : m.limit = limit := session_limit _ calls
  have hrun : ∀ script, m.run script = (new limit m.sink).run script := run_congr hlimit rfl
  refine ⟨fun source => hrun _, fun reads => hrun _, ?_, ?_, ?_⟩
  · rw [reset_eq_new, hlimit]
  · exact fun m' script => ⟨m'.run_eq_new script, m'.reset_eq_new⟩
  · intro flushFault? written flushedAt
    exact written_session rfl flushFault? calls

end Machine

end DequeMachine
