import DequeMachine.Proofs.Deque.Refinement
import DequeMachine.Proofs.Machine.ListMachine
import DequeMachine.Proofs.Machine.Printing

/-!
# DequeMachine.Proofs.Machine.Simulation

A machine does what the machine on lists does, on every program.

* `Deque.Holds.instruction`: one instruction, on any deque that holds a list.
* `Machine.Executes` lists what an instruction can do on a machine: it fails on the list, or the sink
  refuses its output, or both go well.  `Deque.Holds.executes` says that these are all cases.
* `Machine.Simulates.exec` and `Machine.Simulates.step`: one instruction and one line, on a machine
  whose sink takes everything.
* `Machine.Simulates.runLines`: any number of lines, by induction.
* `interpret_shows_runText`: a run.
-/

namespace DequeMachine

/-! ## Instructions -/

namespace Deque.Holds

variable {d : Deque} {vs : List Value} {limit : Nat}

theorem values (h : d.Holds limit vs) : d.values = vs := by
  rw [Deque.values, h.shows.values?, Option.getD_some]

/-- An instruction prints and leaves what it does on the list.  If it fails, it prints nothing and
leaves the deque as it was. -/
theorem instruction (h : d.Holds limit vs) (mode : Mode) (i : Instruction) :
    match ListMachine.exec limit mode vs i with
    | .ok (output, vs') =>
      i.printed d = .ok output ∧ ∃ e, i.effect limit mode d = (none, e) ∧ e.Holds limit vs'
    | .error cause =>
      i.printed d = .error cause ∨
        i.printed d = .ok [] ∧ i.effect limit mode d = (some cause, d) := by
  have hfront := h.shows.front?
  have hvalues := h.values
  have hsize := h.shows.size
  unfold ListMachine.exec Instruction.printed Instruction.effect
  cases i with
  | push v =>
      by_cases hfull : vs.length = limit
      · cases mode <;>
          simp [hfull, Deque.pushFront, Deque.pushBack, h.pushFront?_full, h.pushBack?_full]
      · cases mode with
        | stack =>
            obtain ⟨e, he, hvs⟩ := h.pushFront? hfull v
            simp [hfull, Deque.pushFront, he, hvs]
        | queue =>
            obtain ⟨e, he, hvs⟩ := h.pushBack? hfull v
            simp [hfull, Deque.pushBack, he, hvs]
  | pop =>
      cases vs with
      | nil =>
          simp [Deque.popFront, h.popFront?_nil]
      | cons v vs =>
          obtain ⟨e, he, hvs⟩ := h.popFront?_cons
          simp [Deque.popFront, he, hvs]
  | swap =>
      cases vs with
      | nil => simp [Deque.swapFront, h.swapFront?_short]
      | cons first vs =>
          cases vs with
          | nil => simp [Deque.swapFront, h.swapFront?_short]
          | cons second vs =>
              obtain ⟨e, he, hvs⟩ := h.swapFront?
              simp [Deque.swapFront, he, hvs]
  | arith op =>
      cases vs with
      | nil => simp [Deque.combineFront, h.combineFront?_short, hsize]
      | cons first vs =>
          cases vs with
          | nil => simp [Deque.combineFront, h.combineFront?_short, hsize]
          | cons second vs =>
              by_cases hzero : op.divides = true ∧ first.toInt = 0
              · have hfirst : first = 0 := Int32.toInt_inj.mp hzero.2
                simp [hzero, hsize, hfront, hfirst]
              · have hguard : (op.divides && decide (2 ≤ d.size) && d.front? == some 0) = false := by
                  simpa [hsize, hfront, ← Int32.toInt_inj] using hzero
                obtain ⟨e, he, hvs⟩ := h.combineFront? op.eval
                rw [Arith.eval_eq_ofInt] at hvs
                simp [hzero, hguard, Deque.combineFront, he, hvs]
  | rotl =>
      obtain ⟨e, he, hvs⟩ := h.rotateLeft?
      simp [Deque.rotateLeft, he, hvs]
  | rotr =>
      obtain ⟨e, he, hvs⟩ := h.rotateRight?
      simp [Deque.rotateRight, he, hvs]
  | pall =>
      simp [hvalues, funext Value.line_eq_numeral, h]
  | pint =>
      cases vs <;> simp [hfront, Value.line_eq_numeral, h]
  | pchar =>
      cases vs with
      | nil => simp [hfront]
      | cons v vs =>
          by_cases hv : 0 ≤ v.toInt ∧ v.toInt ≤ 127
          · simp [hv, hfront, Value.isAscii_eq, Value.byte_eq, h]
          · simp [hv, hfront, Value.isAscii_eq]
  | pstr =>
      simp [hvalues, funext Value.isText_eq, funext Value.byte_eq, h]
  | nop => exact ⟨rfl, d, rfl, h⟩

end Deque.Holds

namespace Machine

/-- What an instruction does on a machine that holds the values `vs`. -/
inductive Executes (m : Machine) (vs : List Value) (i : Instruction) : Prop where
  /-- It cannot be done on the values. -/
  | fails {cause : ExecError}
      (onList : ListMachine.exec m.limit m.mode vs i = .error cause)
      (eq : m.exec i = (some cause, m))
  /-- It prints more than the sink takes. -/
  | refused {output : List UInt8} {vs' : List Value} {f : Fault}
      (onList : ListMachine.exec m.limit m.mode vs i = .ok (output, vs'))
      (refusal : m.sink.refusal? output = some f)
      (eq : m.exec i = (some (.output f), { m with sink := (m.sink.write output).2 }))
  /-- It is done. -/
  | succeeds {output : List UInt8} {vs' : List Value} {d : Deque}
      (onList : ListMachine.exec m.limit m.mode vs i = .ok (output, vs'))
      (accepted : m.sink.refusal? output = none)
      (holds : d.Holds m.limit vs')
      (eq : m.exec i = (none, { m with deque := d, sink := (m.sink.write output).2 }))

end Machine

theorem Deque.Holds.executes {m : Machine} {vs : List Value} (h : m.deque.Holds m.limit vs)
    (i : Instruction) : m.Executes vs i := by
  have hi := h.instruction m.mode i
  cases hlist : ListMachine.exec m.limit m.mode vs i with
  | error cause =>
      rw [hlist] at hi
      rcases hi with hprinted | ⟨hprinted, heffect⟩
      · exact .fails hlist (Machine.exec_of_printed_error hprinted)
      · have hexec := Machine.exec_of_accepted hprinted m.sink.refusal?_nil
        rw [heffect, Sink.write_nil] at hexec
        exact .fails hlist hexec
  | ok result =>
      rw [hlist] at hi
      obtain ⟨hprinted, d, heffect, hd⟩ := hi
      cases hf : m.sink.refusal? result.1 with
      | some f => exact .refused hlist hf (Machine.exec_of_refused hprinted hf)
      | none =>
          have hexec := Machine.exec_of_accepted hprinted hf
          rw [heffect] at hexec
          exact .succeeds hlist hf hd hexec

/-! ## Lines -/

namespace Machine

variable {m : Machine} {s : ListMachine.State}

/-- A machine that prints without limits, in the state `s` but for slots and links. -/
structure Simulates (m : Machine) (s : ListMachine.State) : Prop where
  deque : m.deque.Holds m.limit s.values
  mode : m.mode = s.mode
  sink : m.sink.capacity? = none

theorem Simulates.exec (h : m.Simulates s) (i : Instruction) :
    match ListMachine.exec m.limit s.mode s.values i with
    | .ok (output, values) =>
      ∃ e, e.Holds m.limit values ∧
        m.exec i = (none, { m with deque := e, sink := (m.sink.write output).2 })
    | .error cause => m.exec i = (some cause, m) := by
  rw [← h.mode]
  cases h.deque.executes i with
  | fails onList eq => rw [onList]; exact eq
  | refused _ refusal _ => simp [Sink.refusal?, h.sink] at refusal
  | succeeds onList _ holds eq => rw [onList]; exact ⟨_, holds, eq⟩

theorem Simulates.step (h : m.Simulates s) (text : List Char) :
    match ListMachine.step m.limit (m.line + 1) s text with
    | .error e =>
      (m.step text).error? = some e ∧ (m.step text).machine = { m with line := m.line + 1 }
    | .ok (output, s') =>
      (m.step text).error? = none ∧ (m.step text).machine.Simulates s' ∧
        (m.step text).machine.limit = m.limit ∧ (m.step text).machine.line = m.line + 1 ∧
        (m.step text).machine.sink = (m.sink.write output).2 := by
  have hline : { m with line := m.line + 1 }.Simulates s := ⟨h.deque, h.mode, h.sink⟩
  unfold ListMachine.step Machine.step Statement.parseLine
  cases Statement.parse text with
  | error e => exact ⟨rfl, rfl⟩
  | ok st =>
      cases st with
      | blank | comment => exact ⟨rfl, hline, rfl, rfl, by rw [Sink.write_nil]; rfl⟩
      | mode mode =>
          exact ⟨rfl, ⟨h.deque, rfl, h.sink⟩, rfl, rfl, by rw [Sink.write_nil]; rfl⟩
      | instruction i =>
          have hi := hline.exec i
          simp only [ListMachine.statement]
          cases hexec : ListMachine.exec m.limit s.mode s.values i with
          | error cause =>
              rw [hexec] at hi
              simp only [Except.mapError, hi, Except.map, Option.map_some]
              exact ⟨trivial, trivial⟩
          | ok result =>
              rw [hexec] at hi
              obtain ⟨e, hvs, he⟩ := hi
              simp only [Except.mapError, he, Except.map, Option.map_none]
              exact ⟨trivial, ⟨hvs, h.mode, h.sink⟩, trivial, trivial, trivial⟩

/-! ## Runs -/

/-- What is seen of a report is the outcome `o`, where `sink` is the sink before the run. -/
structure Matches (sink : Sink) (o : ListMachine.Outcome) (r : Report) : Prop where
  error? : r.error? = o.error?
  mode : r.machine.mode = o.mode
  line : r.machine.line = o.line
  sink : r.machine.sink = (sink.write o.output).2

theorem Simulates.runLines (h : m.Simulates s) (log : Array Entry) (texts : List (List Char)) :
    Matches m.sink (ListMachine.runLines m.limit m.line s texts) (m.runLines log texts) := by
  induction texts generalizing m s log with
  | nil => exact ⟨rfl, h.mode, rfl, by rw [ListMachine.runLines, Sink.write_nil]; rfl⟩
  | cons text texts ih =>
      have hstep := h.step text
      rw [ListMachine.runLines, Machine.runLines]
      cases hlist : ListMachine.step m.limit (m.line + 1) s text with
      | error e =>
          rw [hlist] at hstep
          obtain ⟨herror, hmachine⟩ := hstep
          simp only [herror, hmachine]
          exact ⟨rfl, h.mode, rfl, by rw [Sink.write_nil]⟩
      | ok result =>
          rw [hlist] at hstep
          obtain ⟨herror, hsim, hlimit, hline, hsink⟩ := hstep
          -- What the line logs does not matter for the lines after it.
          have hrest := fun log => ih hsim log
          simp only [hlimit, hline, hsink] at hrest
          simp only [herror]
          refine ⟨(hrest _).error?, (hrest _).mode, (hrest _).line, ?_⟩
          rw [(hrest _).sink, Sink.write_write]
          rfl

end Machine

/-- The end of a run whose flush succeeds. -/
theorem Report.finish_of_flush {r : Report} (h : r.machine.sink.flushFault? = none) :
    r.finish none =
      { error? := r.error?
        log := r.log.push ⟨.released r.machine.deque.size, []⟩
        machine := { r.machine with
          deque := ∅
          sink := r.machine.sink.flush.2
          status := if r.error?.isNone then .finished else .failed } } := by
  simp [Report.finish, Sink.flush, Deque.clear, h]
  rfl

/-- All that is seen of a report is the outcome `o`, after the bytes `before`. -/
structure Report.Shows (r : Report) (before : List UInt8) (o : ListMachine.Outcome) : Prop where
  error? : r.error? = o.error?
  output : r.machine.sink.written.toList = before ++ o.output
  mode : r.machine.mode = o.mode
  line : r.machine.line = o.line
  status : r.machine.status = o.status

/-- A program run on a new machine, whose sink takes everything, does what its lines do on a plain
list of at most `limit` values. -/
theorem interpret_shows_runText (limit : Nat) (written : Array UInt8) (flushedAt : Array Nat)
    (source : String) :
    (interpret limit ⟨none, none, written, flushedAt⟩ source).Shows written.toList
      (ListMachine.runText limit source) := by
  let sink : Sink := ⟨none, none, written, flushedAt⟩
  let lines := Lines.all '\n' '\r' source.toList
  let q := (Machine.new limit sink).runLines #[] lines
  have hnew : (Machine.new limit sink).Simulates ⟨[], .stack⟩ := ⟨.empty limit, rfl, rfl⟩
  have hq : Machine.Matches sink (ListMachine.runText limit source) q := hnew.runLines #[] lines
  have hflush : q.machine.sink.flushFault? = none := by rw [hq.sink]; rfl
  change (q.finish none).Shows _ _
  rw [Report.finish_of_flush hflush]
  refine ⟨hq.error?, ?_, hq.mode, hq.line, ?_⟩
  · change q.machine.sink.written.toList = _
    rw [hq.sink, Sink.write_of_unlimited rfl]
    simp [sink]
  · rw [ListMachine.Outcome.status, ← hq.error?]

end DequeMachine
