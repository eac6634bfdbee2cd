import DequeMachine.Machine.Run

/-!
# DequeMachine.Proofs.Machine.Printing

What a program prints, apart from the sink that it is printed to.

1. A line asks to print a text, which the deque decides: `Machine.request`.
2. With every sink that takes this text the line does the same, with every other it fails:
   `step_withSink` and `step_of_refused`.
3. The output in the log of some lines is what they add to the sink: `runLines_sink`.
4. So with a whole program: `run_sink` and `run_withSink`.
-/

namespace DequeMachine

/-! ## Instructions -/

namespace Machine

variable {m : Machine} {i : Instruction}

theorem exec_of_printed_error {e : ExecError} (h : i.printed m.deque = .error e) :
    m.exec i = (some e, m) := by
  simp [exec, h]

theorem exec_of_refused {bytes : List UInt8} {f : Fault} (h : i.printed m.deque = .ok bytes)
    (hf : m.sink.refusal? bytes = some f) :
    m.exec i = (some (.output f), { m with sink := (m.sink.write bytes).2 }) := by
  simp [exec, h, Sink.write, hf]

theorem exec_of_accepted {bytes : List UInt8} (h : i.printed m.deque = .ok bytes)
    (hf : m.sink.refusal? bytes = none) :
    m.exec i = ((i.effect m.limit m.mode m.deque).1,
      { m with
        deque := (i.effect m.limit m.mode m.deque).2
        sink := (m.sink.write bytes).2 }) := by
  simp [exec, h, Sink.write, hf]

/-- An instruction may as well write its text in pieces: where the sink refuses one of them, it has
taken as much of the text, and the failure is the same. -/
theorem exec_of_pieces {pieces : List (List UInt8)}
    (h : i.printed m.deque = .ok pieces.flatten) :
    m.exec i =
      match m.sink.writeAll pieces with
      | (some f, sink) => (some (.output f), { m with sink })
      | (none, sink) =>
        let (e?, deque) := i.effect m.limit m.mode m.deque
        (e?, { m with deque, sink }) := by
  rw [Sink.writeAll_eq_write, Sink.write]
  cases hf : m.sink.refusal? pieces.flatten with
  | none => exact exec_of_accepted h hf
  | some f => exact exec_of_refused h hf

/-- An instruction may change the deque and the sink. -/
theorem exec_frame (m : Machine) (i : Instruction) :
    (m.exec i).2 = { m with deque := (m.exec i).2.deque, sink := (m.exec i).2.sink } := by
  cases hprinted : i.printed m.deque with
  | error e => rw [exec_of_printed_error hprinted]
  | ok bytes =>
      cases hf : m.sink.refusal? bytes with
      | none => rw [exec_of_accepted hprinted hf]
      | some f => rw [exec_of_refused hprinted hf]

/-! ## Lines -/

/-- A line leaves the limit as it is, and is counted. -/
theorem step_frame (m : Machine) (text : List Char) :
    (m.step text).machine.limit = m.limit ∧ (m.step text).machine.line = m.line + 1 := by
  simp only [step]
  cases Statement.parseLine (m.line + 1) text with
  | error e => exact ⟨rfl, rfl⟩
  | ok st =>
      cases st with
      | blank | comment | mode => exact ⟨rfl, rfl⟩
      | instruction i =>
          have hexec := exec_frame { m with line := m.line + 1 } i
          have hlimit := congrArg Machine.limit hexec
          have hline := congrArg Machine.line hexec
          exact ⟨hlimit, hline⟩

/-- The same machine with another sink. -/
def withSink (m : Machine) (s : Sink) : Machine := { m with sink := s }

/-- The same machine with a sink that is flushed with another result. -/
def withFlushFault (fault? : Option Fault) (m : Machine) : Machine :=
  { m with sink := { m.sink with flushFault? := fault? } }

/-- The same step, but for the sink that it leaves. -/
def Step.withSink (r : Step) (s : Sink) : Step := { r with machine := r.machine.withSink s }

@[simp]
theorem Step.error?_withSink (r : Step) (s : Sink) : (r.withSink s).error? = r.error? := rfl

@[simp]
theorem Step.machine_withSink (r : Step) (s : Sink) :
    (r.withSink s).machine = r.machine.withSink s := rfl

/-- The log of a line. -/
def Step.log : Step → Array Entry
  | ⟨_, entry?, _⟩ => entry?.toArray

@[simp]
theorem Step.log_withSink (r : Step) (s : Sink) : (r.withSink s).log = r.log := rfl

/-- The output in the log of a line. -/
def Step.output (r : Step) : List UInt8 := r.log.toList.flatMap Entry.output

/-- What the next line asks to print. -/
def request (m : Machine) (text : List Char) : List UInt8 :=
  match Statement.parse text with
  | .ok (.instruction i) =>
    match i.printed m.deque with
    | .ok bytes => bytes
    | .error _ => []
  | _ => []

end Machine

/-- The bytes that a write adds to a sink. -/
theorem Sink.since_write (s : Sink) (bytes : List UInt8) :
    (s.write bytes).2.since s.written.size = s.kept bytes := by
  have hsize : (s.write bytes).2.written.size = s.written.size + (s.kept bytes).length := by
    rw [← Array.length_toList, toList_write, List.length_append, Array.length_toList]
  rw [since, Array.toList_extract, toList_write, hsize]
  simp

@[simp]
theorem Sink.since_self (s : Sink) : s.since s.written.size = [] := by
  simp [since]

namespace Machine

variable {m : Machine} {s : Sink} {text : List Char} {i : Instruction}

/-- The next line is an instruction that prints, if only the empty text. -/
structure Prints (m : Machine) (text : List Char) (i : Instruction) : Prop where
  parse : Statement.parse text = .ok (.instruction i)
  printed : i.printed m.deque = .ok (m.request text)

/-- A line that asks to print, on a sink that takes it. -/
theorem Prints.step_of_accepted (h : m.Prints text i)
    (hf : m.sink.refusal? (m.request text) = none) :
    m.step text =
      ⟨(i.effect m.limit m.mode m.deque).1.map (Error.exec (m.line + 1)),
        some ⟨.exec (m.line + 1) i, m.request text⟩,
        { m with
          line := m.line + 1
          deque := (i.effect m.limit m.mode m.deque).2
          sink := (m.sink.write (m.request text)).2 }⟩ := by
  have hsince := m.sink.since_write (m.request text)
  rw [Sink.kept_eq_self hf] at hsince
  have hexec := exec_of_accepted (m := { m with line := m.line + 1 }) h.printed hf
  simp only [step, Statement.parseLine_of_ok h.parse, hexec, hsince]

/-- A line that asks to print, on a sink that does not take all of it. -/
theorem Prints.step_of_refused (h : m.Prints text i) {f : Fault}
    (hf : m.sink.refusal? (m.request text) = some f) :
    m.step text =
      ⟨some (.exec (m.line + 1) (.output f)),
        some ⟨.exec (m.line + 1) i, m.sink.kept (m.request text)⟩,
        { m with line := m.line + 1, sink := (m.sink.write (m.request text)).2 }⟩ := by
  have hsince := m.sink.since_write (m.request text)
  have hexec := exec_of_refused (m := { m with line := m.line + 1 }) h.printed hf
  simp only [step, Statement.parseLine_of_ok h.parse, hexec, hsince, Option.map_some]

/-- Any other line prints nothing, and does not look at the sink. -/
theorem step_of_not_prints (h : ∀ i, ¬m.Prints text i) :
    m.request text = [] ∧ (m.step text).output = [] ∧
      ∀ s, (m.withSink s).step text = (m.step text).withSink s := by
  cases hparse : Statement.parse text with
  | error e =>
      simp [request, step, hparse, Statement.parseLine_of_error hparse, withSink, Step.withSink,
        Step.output, Step.log]
  | ok st =>
      cases st with
      | blank | comment | mode mode =>
          simp [request, step, hparse, Statement.parseLine_of_ok hparse, withSink, Step.withSink,
            Step.output, Step.log]
      | instruction i =>
          cases hprinted : i.printed m.deque with
          | ok bytes =>
              have hrequest : m.request text = bytes := by simp [request, hparse, hprinted]
              exact absurd ⟨hparse, hrequest ▸ hprinted⟩ (h i)
          | error e =>
              simp [request, step, hparse, Statement.parseLine_of_ok hparse, hprinted, withSink,
                Step.withSink, Step.output, Step.log, exec_of_printed_error]

/-- The sink after a line, and the output in its log. -/
theorem step_sink (m : Machine) (text : List Char) :
    (m.step text).machine.sink = (m.sink.write (m.request text)).2 ∧
      (m.step text).output = m.sink.kept (m.request text) := by
  by_cases h : ∃ i, m.Prints text i
  · obtain ⟨i, hi⟩ := h
    cases hf : m.sink.refusal? (m.request text) with
    | none => simp [hi.step_of_accepted hf, Sink.kept_eq_self hf, Step.output, Step.log]
    | some f => simp [hi.step_of_refused hf, Step.output, Step.log]
  · obtain ⟨hrequest, houtput, hstep⟩ := step_of_not_prints (not_exists.mp h)
    have hsink : (m.step text).machine.sink = m.sink := congrArg (·.machine.sink) (hstep m.sink)
    rw [hrequest, houtput, hsink, Sink.write_nil, Sink.kept_eq_self m.sink.refusal?_nil]
    exact ⟨rfl, rfl⟩

/-- A line does the same with every sink that takes what it prints. -/
theorem step_withSink (hm : m.sink.refusal? (m.request text) = none)
    (hs : s.refusal? (m.request text) = none) :
    (m.withSink s).step text = (m.step text).withSink (s.write (m.request text)).2 := by
  by_cases h : ∃ i, m.Prints text i
  · obtain ⟨i, hi⟩ := h
    have his : (m.withSink s).Prints text i := ⟨hi.parse, hi.printed⟩
    rw [his.step_of_accepted hs, hi.step_of_accepted hm]
    rfl
  · obtain ⟨hrequest, -, hstep⟩ := step_of_not_prints (not_exists.mp h)
    rw [hstep, hrequest, Sink.write_nil]

/-! ## Runs of lines -/

/-- What the log says before lines are run has no effect on them. -/
theorem runLines_eq (m : Machine) (log : Array Entry) (texts : List (List Char)) :
    m.runLines log texts =
      { m.runLines #[] texts with log := log ++ (m.runLines #[] texts).log } := by
  induction texts generalizing m log with
  | nil => simp [runLines]
  | cons text texts ih =>
      rw [runLines, runLines]
      obtain ⟨error?, entry?, m'⟩ := m.step text
      cases error? with
      | some e => simp
      | none =>
          simp only [ih m' (log ++ entry?.toArray), ih m' (#[] ++ entry?.toArray)]
          simp

theorem runLines_cons_of_error {e : Error} (h : (m.step text).error? = some e)
    (texts : List (List Char)) :
    m.runLines #[] (text :: texts) = ⟨some e, (m.step text).log, (m.step text).machine⟩ := by
  simp [runLines, h, Step.log]

theorem runLines_cons_of_none (h : (m.step text).error? = none) (texts : List (List Char)) :
    m.runLines #[] (text :: texts) =
      { (m.step text).machine.runLines #[] texts with
        log := (m.step text).log ++ ((m.step text).machine.runLines #[] texts).log } := by
  simp only [runLines, h]
  rw [runLines_eq]
  simp [Step.log]

theorem runLines_limit (m : Machine) (texts : List (List Char)) :
    (m.runLines #[] texts).machine.limit = m.limit := by
  induction texts generalizing m with
  | nil => rfl
  | cons text texts ih =>
      cases hstep : (m.step text).error? with
      | some e => rw [runLines_cons_of_error hstep, (step_frame m text).1]
      | none => rw [runLines_cons_of_none hstep, ih, (step_frame m text).1]

/-- Lines that do not fail are all counted. -/
theorem runLines_line {texts : List (List Char)}
    (h : (m.runLines #[] texts).error? = none) :
    (m.runLines #[] texts).machine.line = m.line + texts.length := by
  induction texts generalizing m with
  | nil => rfl
  | cons text texts ih =>
      cases hstep : (m.step text).error? with
      | some e => simp [runLines_cons_of_error hstep] at h
      | none =>
          rw [runLines_cons_of_none hstep] at h ⊢
          have hrest := ih h
          rw [(step_frame m text).2] at hrest
          rw [hrest, List.length_cons]
          omega

/-- Lines that follow others which all succeed. -/
theorem runLines_append {texts : List (List Char)} (h : (m.runLines #[] texts).error? = none)
    (later : List (List Char)) :
    m.runLines #[] (texts ++ later) =
      { (m.runLines #[] texts).machine.runLines #[] later with
        log := (m.runLines #[] texts).log ++
          ((m.runLines #[] texts).machine.runLines #[] later).log } := by
  induction texts generalizing m with
  | nil => simp [runLines]
  | cons text texts ih =>
      cases hstep : (m.step text).error? with
      | some e => simp [runLines_cons_of_error hstep] at h
      | none =>
          rw [runLines_cons_of_none hstep] at h
          rw [List.cons_append, runLines_cons_of_none hstep, runLines_cons_of_none hstep, ih h]
          simp

end Machine

/-- The output in the log of a report. -/
def Report.output (r : Report) : List UInt8 := r.log.toList.flatMap Entry.output

/-- The same report, but for the sink that it leaves. -/
def Report.withSink (r : Report) (s : Sink) : Report := { r with machine := r.machine.withSink s }

namespace Machine

variable {m : Machine} {s : Sink} {text : List Char}

theorem output_runLines_cons_of_error {e : Error} (h : (m.step text).error? = some e)
    (texts : List (List Char)) :
    (m.runLines #[] (text :: texts)).output = m.sink.kept (m.request text) := by
  rw [runLines_cons_of_error h, ← (step_sink m text).2]
  rfl

theorem output_runLines_cons_of_none (h : (m.step text).error? = none) (texts : List (List Char)) :
    (m.runLines #[] (text :: texts)).output =
      m.sink.kept (m.request text) ++ ((m.step text).machine.runLines #[] texts).output := by
  rw [runLines_cons_of_none h, ← (step_sink m text).2]
  simp [Report.output, Step.output]

/-- Lines add to the sink what their log shows. -/
theorem runLines_sink (m : Machine) (texts : List (List Char)) :
    (m.runLines #[] texts).machine.sink =
      { m.sink with written := m.sink.written ++ (m.runLines #[] texts).output } := by
  induction texts generalizing m with
  | nil => simp [runLines, Report.output]
  | cons text texts ih =>
      have hsink := (step_sink m text).1
      cases hstep : (m.step text).error? with
      | some e =>
          rw [output_runLines_cons_of_error hstep, runLines_cons_of_error hstep]
          exact hsink
      | none =>
          rw [output_runLines_cons_of_none hstep, runLines_cons_of_none hstep]
          simp only [ih, hsink, Sink.write]
          simp [← Array.toList_inj]

/-- Lines do the same with every sink that takes what they print. -/
theorem runLines_withSink (hm : m.sink.capacity? = none) {texts : List (List Char)}
    (hs : s.refusal? (m.runLines #[] texts).output = none) :
    (m.withSink s).runLines #[] texts =
      (m.runLines #[] texts).withSink (s.write (m.runLines #[] texts).output).2 := by
  induction texts generalizing m s with
  | nil => simp [runLines, Report.output, Report.withSink, withSink]
  | cons text texts ih =>
      have hrequest : m.sink.refusal? (m.request text) = none := by simp [Sink.refusal?, hm]
      have hkept := Sink.kept_eq_self hrequest
      have hm' : (m.step text).machine.sink.capacity? = none := by
        rw [(step_sink m text).1]
        exact hm
      cases hstep : (m.step text).error? with
      | some e =>
          rw [output_runLines_cons_of_error hstep, hkept] at hs ⊢
          have hswitch := step_withSink hrequest hs
          rw [runLines_cons_of_error (by simpa [hswitch] using hstep), hswitch,
            runLines_cons_of_error hstep, Step.log_withSink, Step.machine_withSink]
          rfl
      | none =>
          rw [output_runLines_cons_of_none hstep, hkept] at hs ⊢
          rw [Sink.refusal?_append, Option.or_eq_none_iff] at hs
          have hswitch := step_withSink hrequest hs.1
          rw [runLines_cons_of_none (by simpa [hswitch] using hstep), hswitch,
            runLines_cons_of_none hstep, Step.machine_withSink, ih hm' hs.2, Sink.write_write]
          rfl

end Machine

/-! ## Programs -/

/-- The end of a run reports how many nodes were left. -/
theorem Report.log_finish (r : Report) (stop? : Option ReadError) :
    (r.finish stop?).log.toList = r.log.toList ++ [⟨.released r.machine.deque.size, []⟩] :=
  Array.toList_push

/-- The end of a run prints nothing. -/
theorem Report.output_finish (r : Report) (stop? : Option ReadError) :
    (r.finish stop?).output = r.output := by
  rw [output, log_finish]
  simp [output]

/-- The end of a run, with another sink that is flushed with the same result. -/
theorem Report.finish_withSink {r : Report} {s : Sink}
    (h : s.flushFault? = r.machine.sink.flushFault?) (stop? : Option ReadError) :
    (r.withSink s).finish stop? = (r.finish stop?).withSink s.flush.2 := by
  simp [finish, withSink, Machine.withSink, Sink.flush, h]

namespace Machine

variable {m : Machine} {s : Sink} {script : Script}

/-- A run leaves the limit of a machine as it is. -/
theorem run_limit (m : Machine) (script : Script) : (m.run script).machine.limit = m.limit :=
  runLines_limit m.reset script.lines

theorem output_run (m : Machine) (script : Script) :
    (m.run script).output = (m.reset.runLines #[] script.lines).output :=
  Report.output_finish _ _

/-- A program adds to the sink what its log shows, and then one flush. -/
theorem run_sink (m : Machine) (script : Script) :
    (m.run script).machine.sink =
      { m.sink with
        written := m.sink.written ++ (m.run script).output
        flushedAt := m.sink.flushedAt.push (m.sink.written ++ (m.run script).output).size } := by
  change ((m.reset.runLines #[] script.lines).machine.sink.flush).2 = _
  rw [runLines_sink, output_run]
  rfl

/-- On a new sink, the log shows all that is written. -/
theorem written_eq_output (hnew : m.sink.written = #[]) (script : Script) :
    (m.run script).machine.sink.written.toList = (m.run script).output := by
  rw [run_sink, hnew]
  simp

/-- A program does the same with every sink that takes what it prints, if the flush has the same
result on both. -/
theorem run_withSink (hm : m.sink.capacity? = none) (hflush : s.flushFault? = m.sink.flushFault?)
    (hs : s.refusal? (m.run script).output = none) :
    (m.withSink s).run script =
      (m.run script).withSink (s.write (m.run script).output).2.flush.2 := by
  rw [output_run] at hs ⊢
  have hlines : (m.withSink s).reset.runLines #[] script.lines =
      (m.reset.runLines #[] script.lines).withSink
        (s.write (m.reset.runLines #[] script.lines).output).2 :=
    runLines_withSink (m := m.reset) hm hs
  rw [run, hlines, Report.finish_withSink, run]
  rw [runLines_sink]
  exact hflush

end Machine

end DequeMachine
