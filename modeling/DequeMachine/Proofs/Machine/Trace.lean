import DequeMachine.Proofs.Machine.Halting
import DequeMachine.Proofs.Machine.Line

/-!
# DequeMachine.Proofs.Machine.Trace

What a report says about the lines of a program.

1. `ReadsLines` is the number of lines that are read: all, or those up to the first that fails.
   `exists_readsLines` says that the machine counts them.
2. `Statement.events` are the events of numbered lines, read off their statements alone.  The lines
   that are read report these events: `events_runLines`.
3. `Event.lastMode` is the mode after some events; `mode_runLines` says that it is the mode of the
   machine.
4. Only an instruction that prints is followed by output: `prints_of_output_ne_nil`.
5. `run_traces` says all this of a run, whatever ends it.
6. No number in a report is that of a line beyond the end of the program: `lineNumbers_run_le`.  So
   a word of 32 bits holds them all, if the program has fewer than `maxLines` lines:
   `lineNumbers_run_lt`.
-/

namespace DequeMachine

/-! ## Events of lines -/

namespace Event

/-- The line an event belongs to. -/
def line? : Event → Option Nat
  | exec line _ => some line
  | switch line _ => some line
  | released _ => none

/-- The mode that an event selects. -/
def mode? : Event → Option Mode
  | switch _ mode => some mode
  | _ => none

/-- The mode after some events, if it is `first` before them. -/
def lastMode (first : Mode) (events : List Event) : Mode :=
  (events.filterMap mode?).getLast?.getD first

theorem lastMode_append (first : Mode) (events later : List Event) :
    lastMode first (events ++ later) = lastMode (lastMode first events) later := by
  simp only [lastMode, List.filterMap_append, List.getLast?_append, Option.getD_or]

/-- An event of an instruction that prints. -/
def Prints (e : Event) : Prop :=
  ∃ line, ∃ i ∈ [Instruction.pall, .pint, .pchar, .pstr], e = .exec line i

end Event

namespace Statement

/-- The event of a numbered line, if it has one. -/
def event? (text : List Char) (line : Nat) : Option Event :=
  match parse text with
  | .ok (.mode m) => some (.switch line m)
  | .ok (.instruction i) => some (.exec line i)
  | _ => none

/-- The events of lines, where `line` is the number of the first. -/
def events (line : Nat) (texts : List (List Char)) : List Event :=
  (texts.zipIdx line).filterMap fun p => event? p.1 p.2

theorem events_cons (line : Nat) (text : List Char) (texts : List (List Char)) :
    events line (text :: texts) = (event? text line).toList ++ events (line + 1) texts := by
  rw [events, List.zipIdx_cons, List.filterMap_cons, events]
  cases event? text line <;> rfl

theorem line?_event? {text : List Char} {line : Nat} {e : Event} (h : event? text line = some e) :
    e.line? = some line := by
  unfold event? at h
  split at h
  · obtain rfl := Option.some.inj h
    rfl
  · obtain rfl := Option.some.inj h
    rfl
  · cases h

/-- The events of some lines name none but these. -/
theorem line?_of_mem_events {line n : Nat} {texts : List (List Char)} {e : Event}
    (he : e ∈ events line texts) (hn : e.line? = some n) : n < line + texts.length := by
  induction texts generalizing line with
  | nil => cases he
  | cons text texts ih =>
      rw [events_cons, List.mem_append, Option.mem_toList] at he
      rw [List.length_cons]
      rcases he with hfirst | hrest
      · rw [line?_event? hfirst, Option.some_inj] at hn
        omega
      · have hlater := ih hrest
        omega

end Statement

/-- The events that a report holds. -/
def Report.events (r : Report) : List Event := r.log.toList.map Entry.event

namespace Machine

variable {m : Machine} {text : List Char} {texts : List (List Char)} {n : Nat}

/-! ## The number of lines -/

/-- A run of the lines reads the first `n`: none of them but the last fails, and if there are more
lines the last one does. -/
structure ReadsLines (m : Machine) (texts : List (List Char)) (n : Nat) : Prop where
  le : n ≤ texts.length
  before : ∀ k < n, (m.runLines #[] (texts.take k)).error? = none
  last : n < texts.length → (m.runLines #[] (texts.take n)).error?.isSome = true

theorem ReadsLines.cons_of_error {e : Error} (h : (m.step text).error? = some e)
    (texts : List (List Char)) : m.ReadsLines (text :: texts) 1 where
  le := Nat.le_add_left 1 texts.length
  before k hk := by
    obtain rfl : k = 0 := Nat.lt_one_iff.mp hk
    rfl
  last _ := by
    rw [List.take_succ_cons, runLines_cons_of_error h]
    rfl

theorem ReadsLines.cons_of_none (h : (m.step text).error? = none)
    (hrest : (m.step text).machine.ReadsLines texts n) : m.ReadsLines (text :: texts) (n + 1) where
  le := Nat.succ_le_succ hrest.le
  before k hk := by
    cases k with
    | zero => rfl
    | succ k =>
        rw [List.take_succ_cons, runLines_cons_of_none h]
        exact hrest.before k (Nat.lt_of_succ_lt_succ hk)
  last hn := by
    rw [List.take_succ_cons, runLines_cons_of_none h]
    exact hrest.last (Nat.lt_of_succ_lt_succ hn)

/-- The lines that are read are counted. -/
theorem exists_readsLines (m : Machine) (texts : List (List Char)) :
    ∃ n, (m.runLines #[] texts).machine.line = m.line + n ∧ m.ReadsLines texts n := by
  induction texts generalizing m with
  | nil => exact ⟨0, rfl, Nat.le_refl 0, fun _ hk => absurd hk (Nat.not_lt_zero _), nofun⟩
  | cons text texts ih =>
      have hnext := (step_frame m text).2
      cases hstep : (m.step text).error? with
      | some e =>
          refine ⟨1, ?_, .cons_of_error hstep texts⟩
          rw [runLines_cons_of_error hstep, hnext]
      | none =>
          obtain ⟨n, hline, hrest⟩ := ih (m.step text).machine
          refine ⟨n + 1, ?_, hrest.cons_of_none hstep⟩
          rw [runLines_cons_of_none hstep, hline, hnext]
          omega

/-! ## The log -/

/-- A line reports the event of its statement, also if it is an instruction that fails. -/
theorem events_step (m : Machine) (text : List Char) :
    (m.step text).log.toList.map Entry.event = (Statement.event? text (m.line + 1)).toList := by
  rw [step_eq, Statement.event?]
  cases Statement.parse text with
  | error e => rfl
  | ok st => cases st <;> rfl

/-- The lines that are read report their events. -/
theorem events_runLines (m : Machine) (texts : List (List Char)) :
    (m.runLines #[] texts).events =
      Statement.events (m.line + 1)
        (texts.take ((m.runLines #[] texts).machine.line - m.line)) := by
  induction texts generalizing m with
  | nil => simp [runLines, Report.events, Statement.events]
  | cons text texts ih =>
      have hnext := (step_frame m text).2
      have hfirst := events_step m text
      cases hstep : (m.step text).error? with
      | some e =>
          rw [runLines_cons_of_error hstep, hnext, Nat.add_sub_cancel_left, List.take_succ_cons,
            Statement.events_cons, ← hfirst]
          simp [Report.events, Statement.events]
      | none =>
          have hle := le_line_runLines (m.step text).machine texts
          have hrest := ih (m.step text).machine
          rw [hnext] at hle hrest
          rw [runLines_cons_of_none hstep]
          have hcount : ((m.step text).machine.runLines #[] texts).machine.line - m.line =
              ((m.step text).machine.runLines #[] texts).machine.line - (m.line + 1) + 1 := by
            omega
          rw [hcount, List.take_succ_cons, Statement.events_cons, ← hrest, ← hfirst]
          simp [Report.events]

/-! ## The mode -/

theorem mode_step (m : Machine) (text : List Char) :
    (m.step text).machine.mode =
      Event.lastMode m.mode (Statement.event? text (m.line + 1)).toList := by
  rw [step_eq, Statement.event?]
  cases Statement.parse text with
  | error e => rfl
  | ok st =>
      cases st with
      | blank | comment | mode => rfl
      | instruction i =>
          have hexec := congrArg Machine.mode (exec_frame m.next i)
          exact hexec

/-- The mode of the machine is the last one that was reported. -/
theorem mode_runLines (m : Machine) (texts : List (List Char)) :
    (m.runLines #[] texts).machine.mode =
      Event.lastMode m.mode (m.runLines #[] texts).events := by
  induction texts generalizing m with
  | nil => rfl
  | cons text texts ih =>
      have hfirst := mode_step m text
      rw [← events_step] at hfirst
      cases hstep : (m.step text).error? with
      | some e => rw [runLines_cons_of_error hstep, hfirst, Report.events]
      | none =>
          rw [runLines_cons_of_none hstep, ih, hfirst, ← Event.lastMode_append]
          simp [Report.events]

/-! ## The output -/

/-- A line that asks to print is an instruction that prints. -/
theorem exists_of_request_ne_nil (h : m.request text ≠ []) :
    ∃ i ∈ [Instruction.pall, .pint, .pchar, .pstr], Statement.parse text = .ok (.instruction i) := by
  unfold request at h
  cases hparse : Statement.parse text with
  | error e => simp [hparse] at h
  | ok st =>
      cases st with
      | blank | comment | mode => simp [hparse] at h
      | instruction i =>
          refine ⟨i, ?_, rfl⟩
          cases i with
          | pall | pint | pchar | pstr => simp
          | _ => simp [hparse, Instruction.printed] at h

/-- Only an instruction that prints is followed by output. -/
theorem prints_of_output_ne_nil {entry : Entry} (h : entry ∈ (m.step text).log)
    (hne : entry.output ≠ []) : entry.event.Prints := by
  have hmem := Array.mem_toList_iff.mpr h
  have hrequest : m.request text ≠ [] := fun hnil => by
    have houtput := (step_sink m text).2
    rw [hnil, Sink.kept_eq_self m.sink.refusal?_nil] at houtput
    exact hne (List.flatMap_eq_nil_iff.mp houtput entry hmem)
  obtain ⟨i, hi, hparse⟩ := exists_of_request_ne_nil hrequest
  have hevent := List.mem_map_of_mem (f := Entry.event) hmem
  rw [events_step, Statement.event?, hparse] at hevent
  exact ⟨m.line + 1, i, hi, List.mem_singleton.mp hevent⟩

end Machine

/-! ## Runs -/

/-- A report says what happened: `lines` are those that were read and `before` is what the sink
held. -/
structure Report.Traces (r : Report) (lines : List (List Char)) (before : List UInt8) : Prop where
  /-- An error that names a line names the last one. -/
  line? : ∀ line ∈ r.error?.bind Error.line?, line = lines.length
  /-- There is an event for each line that selects a mode or is an instruction, and one at the
  end. -/
  events : ∃ count, r.events = Statement.events 1 lines ++ [.released count]
  /-- The mode is the last one that was selected. -/
  mode : r.machine.mode = Event.lastMode .stack r.events
  /-- What is written follows the events. -/
  output : r.machine.sink.written.toList = before ++ r.output
  /-- No other event is followed by output. -/
  prints : ∀ entry ∈ r.log, entry.output ≠ [] → entry.event.Prints

/-- The end of a run adds one event. -/
theorem Report.events_finish (r : Report) (stop? : Option ReadError) :
    (r.finish stop?).events = r.events ++ [.released r.machine.deque.size] := by
  rw [events, log_finish, List.map_append]
  rfl

/-- The error of a run is that of a line, else that of a read, else that of the flush. -/
theorem Report.error?_finish (r : Report) (stop? : Option ReadError) :
    (r.finish stop?).error? =
      (r.error?.or (stop?.map Error.read)).or
        (r.machine.sink.flushFault?.map (Error.exec r.machine.line ∘ ExecError.output)) := rfl

namespace Machine

variable {m : Machine} {script : Script}

/-- However a run ends, an error that names a line names the last one that is counted. -/
theorem line?_run {line : Nat} (h : line ∈ (m.run script).error?.bind Error.line?) :
    line = (m.run script).machine.line := by
  let q := m.reset.runLines #[] script.lines
  have hq : ∀ {e}, q.error? = some e → e.line? = some q.machine.line := runLines_line?
  rw [run, Report.error?_finish] at h
  change line = q.machine.line
  cases herror : q.error? with
  | some e => simpa [q, herror, hq herror, eq_comm] using h
  | none =>
      cases hstop : script.stop? with
      | some cause => simp [q, herror, hstop, Error.line?] at h
      | none =>
          cases hflush : q.machine.sink.flushFault? with
          | none => simp [q, herror, hstop, hflush] at h
          | some f => simpa [q, herror, hstop, hflush, Error.line?, eq_comm] using h

/-- A run that ends where nothing more can be read has read all lines. -/
theorem line_run_of_read {cause : ReadError} (h : (m.run script).error? = some (.read cause)) :
    script.stop? = some cause ∧ (m.run script).machine.line = script.lines.length := by
  let q := m.reset.runLines #[] script.lines
  have hq : ∀ {e}, q.error? = some e → e.line? = some q.machine.line := runLines_line?
  rw [run, Report.error?_finish] at h
  cases herror : q.error? with
  | some e =>
      obtain rfl : e = .read cause := by simpa [q, herror] using h
      cases hq herror
  | none =>
      refine ⟨?_, (runLines_line herror).trans (Nat.zero_add _)⟩
      cases hstop : script.stop? with
      | some cause' => simpa [q, herror, hstop] using h
      | none => simp [q, herror, hstop] at h

/-- The events of a run are those of the lines that are read, and one at its end. -/
theorem events_run (m : Machine) (script : Script) :
    ∃ count, (m.run script).events =
      Statement.events 1 (script.lines.take (m.run script).machine.line) ++ [.released count] := by
  let q := m.reset.runLines #[] script.lines
  have hq : q.events = Statement.events 1 (script.lines.take q.machine.line) :=
    events_runLines m.reset script.lines
  refine ⟨q.machine.deque.size, ?_⟩
  rw [run, Report.events_finish]
  exact congrArg (· ++ [.released q.machine.deque.size]) hq

/-- No number of a line in the report of a run exceeds the number of lines. -/
theorem lineNumbers_run_le (m : Machine) (script : Script) :
    let r := m.run script
    r.machine.line ≤ script.lines.length ∧
      (∀ n ∈ r.error?.bind Error.line?, n ≤ script.lines.length) ∧
      ∀ e ∈ r.events, ∀ n ∈ e.line?, n ≤ script.lines.length := by
  intro r
  have hline : r.machine.line ≤ script.lines.length := line_run_le m script
  refine ⟨hline, fun n hn => line?_run hn ▸ hline, fun e he n hn => ?_⟩
  obtain ⟨count, hevents⟩ := events_run m script
  rw [hevents] at he
  rcases List.mem_append.mp he with he | he
  · have hlt := Statement.line?_of_mem_events he hn
    rw [List.length_take] at hlt
    omega
  · obtain rfl := List.mem_singleton.mp he
    cases hn

/-- A program that has fewer lines than `maxLines` makes no number of a line overflow. -/
theorem lineNumbers_run_lt {script : Script} (h : script.lines.length < maxLines) (m : Machine) :
    let r := m.run script
    r.machine.line < maxLines ∧ (∀ n ∈ r.error?.bind Error.line?, n < maxLines) ∧
      ∀ e ∈ r.events, ∀ n ∈ e.line?, n < maxLines := by
  intro r
  obtain ⟨hline, herror, hevents⟩ := lineNumbers_run_le m script
  exact ⟨Nat.lt_of_le_of_lt hline h, fun n hn => Nat.lt_of_le_of_lt (herror n hn) h,
    fun e he n hn => Nat.lt_of_le_of_lt (hevents e he n hn) h⟩

/-- A machine counts the lines that it reads, but not one that cannot be read, and its report tells
of each of them in order: its event, if it has one, and what it prints. -/
theorem run_traces (m : Machine) (script : Script) :
    let r := m.run script
    m.reset.ReadsLines script.lines r.machine.line ∧
      (∀ cause, r.error? = some (.read cause) →
        script.stop? = some cause ∧ r.machine.line = script.lines.length) ∧
      r.Traces (script.lines.take r.machine.line) m.sink.written.toList := by
  intro r
  let q := m.reset.runLines #[] script.lines
  obtain ⟨n, hn, hreads⟩ := m.reset.exists_readsLines script.lines
  obtain rfl : r.machine.line = n := hn.trans (Nat.zero_add n)
  have hlog : r.log.toList = q.log.toList ++ [⟨.released q.machine.deque.size, []⟩] :=
    q.log_finish script.stop?
  have hevents : r.events = q.events ++ [.released q.machine.deque.size] :=
    q.events_finish script.stop?
  refine ⟨hreads, fun cause => line_run_of_read, ?_, events_run m script, ?_, ?_, ?_⟩
  · intro line hline
    rw [List.length_take_of_le hreads.le]
    exact line?_run hline
  · have hmode : r.machine.mode = Event.lastMode .stack q.events := mode_runLines _ _
    rw [hevents, Event.lastMode_append, hmode]
    rfl
  · rw [run_sink, Array.toList_appendList]
  · intro entry hentry hne
    rw [← Array.mem_toList_iff, hlog] at hentry
    rcases List.mem_append.mp hentry with hentry | hentry
    · have hprints := forall_mem_log (p := fun entry => entry.output ≠ [] → entry.event.Prints)
        (fun _ _ _ => prints_of_output_ne_nil) m.reset script.lines
      exact hprints entry (Array.mem_toList_iff.mp hentry) hne
    · obtain rfl := List.mem_singleton.mp hentry
      exact absurd rfl hne

/-- A number that does not fit into the sink, on the fourth of five lines, and a stream of two lines
of which the second is not UTF-8. -/
theorem run_traces_refused :
    let m := new 2 ⟨some ⟨1, Fault.brokenPipe⟩, none, #[], #[]⟩
    let r := m.run (.ofText "queue\n\npush 12\npint\npop")
    let r' := m.run (.ofReads [.bytes [110, 111, 112, 10, 255, 10]])
    r.error? = some (.exec 4 (.output .brokenPipe)) ∧ r.machine.line = 4 ∧
      r.events = [.switch 1 .queue, .exec 3 (.push 12), .exec 4 .pint, .released 1] ∧
      r.machine.mode = .queue ∧ r.machine.sink.written.toList = r.output ∧
      r'.error? = some (.read .notUtf8) ∧ r'.machine.line = 1 := by
  intro m r r'
  have herror : r.error? = some (.exec 4 (.output .brokenPipe)) := by decide
  have hevents : r.events = [.switch 1 .queue, .exec 3 (.push 12), .exec 4 .pint, .released 1] := by
    decide +kernel
  have herror' : r'.error? = some (.read .notUtf8) := by decide
  obtain ⟨hreads, -, htraces⟩ := run_traces m (.ofText "queue\n\npush 12\npint\npop")
  obtain ⟨-, hunread, -⟩ := run_traces m (.ofReads [.bytes [110, 111, 112, 10, 255, 10]])
  have hmode : r.machine.mode = Event.lastMode .stack r.events := htraces.mode
  have hline := htraces.line? 4 (by change 4 ∈ r.error?.bind Error.line?; rw [herror]; rfl)
  rw [List.length_take_of_le hreads.le] at hline
  have houtput : r.machine.sink.written.toList = [] ++ r.output := htraces.output
  have hread : r'.machine.line = 1 := (hunread .notUtf8 herror').2.trans (by decide)
  rw [hevents] at hmode
  rw [List.nil_append] at houtput
  exact ⟨herror, hline.symm, hevents, hmode, houtput, herror', hread⟩

end Machine

end DequeMachine
