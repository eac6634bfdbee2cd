import DequeMachine.Proofs.Machine.Printing

/-!
# DequeMachine.Proofs.Machine.LimitedSink

A sink with a capacity cuts the output of a program, and does nothing else to it.

1. An instruction that prints nothing does not look at the sink: `exec_of_silent`.
2. `Cut` is the first line whose output does not fit.  Up to it the capacity does not show, and
   there the lines end: `exists_cut` and `Cut.runLines_eq`.
3. `Report.BreaksOff` is what this means for a whole program; `interpret_limited` has both cases.

Where an instruction writes its text in pieces, the end of the room may also be between two of them;
`exec_of_pieces` says that this is the same.
-/

namespace DequeMachine

/-! ## Instructions that print nothing -/

namespace Instruction

theorem printed_ne_output (i : Instruction) (d : Deque) (f : Fault) :
    i.printed d ≠ .error (.output f) := by
  cases i with
  | pint | pchar => unfold printed; grind
  | _ => simp [printed]

theorem effect_ne_output (limit : Nat) (mode : Mode) (i : Instruction) (d : Deque) (f : Fault) :
    (i.effect limit mode d).1 ≠ some (.output f) := by
  cases i with
  | push | pop | swap | arith => unfold effect; grind
  | _ => nofun

end Instruction

namespace Machine

variable {m : Machine} {s : Sink} {texts : List (List Char)} {f : Fault}

/-- An instruction that adds nothing to a sink that takes everything does the same with every
sink, and no failure of a sink makes it fail. -/
theorem exec_of_silent {i : Instruction}
    (h : ((m.withSink .unlimited).exec i).2.sink = .unlimited) :
    m.exec i =
        (((m.withSink .unlimited).exec i).1, ((m.withSink .unlimited).exec i).2.withSink m.sink) ∧
      ∀ f, (m.exec i).1 ≠ some (.output f) := by
  cases hprinted : i.printed m.deque with
  | error e =>
      have hfree : i.printed (m.withSink .unlimited).deque = .error e := hprinted
      rw [exec_of_printed_error hprinted, exec_of_printed_error hfree]
      refine ⟨rfl, ?_⟩
      rintro f ⟨rfl⟩
      exact i.printed_ne_output m.deque f hprinted
  | ok bytes =>
      have hfree : i.printed (m.withSink .unlimited).deque = .ok bytes := hprinted
      have hsilent : bytes = [] := by
        rw [exec_of_accepted hfree rfl] at h
        have hwritten := congrArg (·.written.toList) h
        simpa [Sink.toList_write, Sink.kept, withSink, Sink.unlimited] using hwritten
      subst hsilent
      rw [exec_of_accepted hprinted m.sink.refusal?_nil, exec_of_accepted hfree rfl]
      simp only [Sink.write_nil]
      exact ⟨rfl, i.effect_ne_output m.limit m.mode m.deque⟩

/-! ## The line that does not fit -/

/-- After the lines `pre`, whose output the sink takes, the instruction `i` prints more than it
takes. -/
structure Cut (m : Machine) (s : Sink) (pre : List (List Char)) (text : List Char)
    (i : Instruction) (f : Fault) : Prop where
  ok : (m.runLines #[] pre).error? = none
  prints : (m.runLines #[] pre).machine.Prints text i
  fits : s.refusal? (m.runLines #[] pre).output = none
  refused : (s.write (m.runLines #[] pre).output).2.refusal?
    ((m.runLines #[] pre).machine.request text) = some f

variable {pre post : List (List Char)} {text : List Char} {i : Instruction}

theorem Cut.nil (h : m.Prints text i) (hf : s.refusal? (m.request text) = some f) :
    m.Cut s [] text i f where
  ok := rfl
  prints := h
  fits := s.refusal?_nil
  refused := by
    have hnil : (m.runLines #[] []).output = [] := rfl
    rw [hnil, Sink.write_nil]
    exact hf

theorem Cut.cons {first : List Char} (hm : m.sink.capacity? = none)
    (hstep : (m.step first).error? = none) (hf : s.refusal? (m.request first) = none)
    (h : (m.step first).machine.Cut (s.write (m.request first)).2 pre text i f) :
    m.Cut s (first :: pre) text i f := by
  have houtput := output_runLines_cons_of_none hstep pre
  rw [Sink.kept_eq_self (by simp [Sink.refusal?, hm])] at houtput
  have hrun := runLines_cons_of_none hstep pre
  constructor
  · rw [hrun]
    exact h.ok
  · rw [hrun]
    exact h.prints
  · rw [houtput, Sink.refusal?_append, hf, Option.none_or]
    exact h.fits
  · rw [houtput, ← Sink.write_write, hrun]
    exact h.refused

/-- A line whose output does not fit is an instruction that prints. -/
theorem exists_prints (hf : s.refusal? (m.request text) = some f) : ∃ i, m.Prints text i := by
  by_cases h : ∃ i, m.Prints text i
  · exact h
  · rw [(step_of_not_prints (not_exists.mp h)).1, Sink.refusal?_nil] at hf
    simp at hf

/-- If a sink does not take the output of some lines, one of them is the first that does not fit. -/
theorem exists_cut (hm : m.sink.capacity? = none)
    (hs : s.refusal? (m.runLines #[] texts).output = some f) :
    ∃ pre text post i, texts = pre ++ text :: post ∧ m.Cut s pre text i f := by
  induction texts generalizing m s with
  | nil => simp [runLines, Report.output] at hs
  | cons text texts ih =>
      have hkept : m.sink.kept (m.request text) = m.request text :=
        Sink.kept_eq_self (by simp [Sink.refusal?, hm])
      cases hstep : (m.step text).error? with
      | some e =>
          rw [output_runLines_cons_of_error hstep, hkept] at hs
          obtain ⟨i, hi⟩ := exists_prints hs
          exact ⟨[], text, texts, i, rfl, .nil hi hs⟩
      | none =>
          rw [output_runLines_cons_of_none hstep, hkept, Sink.refusal?_append] at hs
          cases hf : s.refusal? (m.request text) with
          | some g =>
              rw [hf, Option.some_or, Option.some_inj] at hs
              obtain ⟨i, hi⟩ := exists_prints hf
              exact ⟨[], text, texts, i, rfl, .nil hi (hs ▸ hf)⟩
          | none =>
              rw [hf, Option.none_or] at hs
              have hm' : (m.step text).machine.sink.capacity? = none := by
                rw [(step_sink m text).1]
                exact hm
              obtain ⟨pre, later, post, i, rfl, hcut⟩ := ih hm' hs
              exact ⟨text :: pre, later, post, i, rfl, hcut.cons hm hstep hf⟩

namespace Cut

/-- Where the output does not fit, the lines end. -/
theorem runLines_eq (h : m.Cut s pre text i f) (hm : m.sink.capacity? = none)
    (post : List (List Char)) :
    let q := m.runLines #[] pre
    (m.withSink s).runLines #[] (pre ++ text :: post) =
      { error? := some (.exec (q.machine.line + 1) (.output f))
        log := q.log.push ⟨.exec (q.machine.line + 1) i,
          (s.write q.output).2.kept (q.machine.request text)⟩
        machine := { q.machine with
          line := q.machine.line + 1
          sink := (s.write (q.output ++ q.machine.request text)).2 } } := by
  intro q
  have hq : (m.withSink s).runLines #[] pre = q.withSink (s.write q.output).2 :=
    runLines_withSink hm h.fits
  have hok : ((m.withSink s).runLines #[] pre).error? = none := by
    rw [hq]
    exact h.ok
  have hprints : (q.machine.withSink (s.write q.output).2).Prints text i :=
    ⟨h.prints.parse, h.prints.printed⟩
  have hstep := hprints.step_of_refused h.refused
  rw [runLines_append hok, hq]
  simp only [Report.withSink]
  rw [runLines_cons_of_error (by rw [hstep]), hstep, ← Sink.write_write]
  rfl

/-- Without the limit, the line that would not fit prints everything, and others may follow. -/
theorem exists_log (h : m.Cut s pre text i f) (hm : m.sink.capacity? = none)
    (post : List (List Char)) :
    let q := m.runLines #[] pre
    ∃ after, (m.runLines #[] (pre ++ text :: post)).log.toList =
      q.log.toList ++ ⟨.exec (q.machine.line + 1) i, q.machine.request text⟩ :: after := by
  intro q
  have hroom : q.machine.sink.refusal? (q.machine.request text) = none := by
    have hsink : q.machine.sink.capacity? = none := by
      rw [runLines_sink]
      exact hm
    simp [Sink.refusal?, hsink]
  have hstep := h.prints.step_of_accepted hroom
  have hlog : (q.machine.step text).log =
      #[⟨.exec (q.machine.line + 1) i, q.machine.request text⟩] := by
    rw [hstep]
    rfl
  rw [runLines_append h.ok]
  cases herror : (q.machine.step text).error? with
  | some e => exact ⟨[], by simp [runLines_cons_of_error herror, hlog, q]⟩
  | none => exact ⟨_, by simp [runLines_cons_of_none herror, hlog, q]; rfl⟩

end Cut

end Machine

/-! ## Programs -/

/-- The report `r` of a program breaks off on line `n + 1`, because its sink takes `c.bytes` bytes.
The report on a sink that takes everything is `u`, and that of the first `n` lines alone is `q`. -/
structure Report.BreaksOff (r u q : Report) (c : Capacity) (n : Nat) : Prop where
  /-- The error is that of the sink. -/
  error? : r.error? = some (.exec (n + 1) (.output c.fault))
  /-- The last instruction is the one whose output, after that of the lines before, does not fit. -/
  log : ∃ before i out after count,
    q.log.toList = before ++ [⟨.released count, []⟩] ∧
      u.log.toList = before ++ ⟨.exec (n + 1) i, out⟩ :: after ∧
      (before.flatMap Entry.output).length ≤ c.bytes ∧
      c.bytes - (before.flatMap Entry.output).length < out.length ∧
      r.log.toList = before ++
        [⟨.exec (n + 1) i, out.take (c.bytes - (before.flatMap Entry.output).length)⟩,
          ⟨.released count, []⟩]
  /-- The first bytes are printed. -/
  written : r.machine.sink.written.toList = u.machine.sink.written.toList.take c.bytes
  flushes : r.machine.sink.flushes = u.machine.sink.flushes
  /-- The one flush comes after them. -/
  flushedAt : r.machine.sink.flushedAt = #[r.machine.sink.written.size]
  deque : r.machine.deque = .empty
  mode : r.machine.mode = q.machine.mode
  line : r.machine.line = n + 1
  status : r.machine.status = .failed

namespace Machine

variable {m : Machine} {limit : Nat} {c : Capacity} {flushFault? : Option Fault}
  {pre : List (List Char)} {text : List Char} {i : Instruction}

/-- The part of the output that fits ends in the middle of that of the line that does not fit. -/
theorem Cut.take_output (h : m.Cut ⟨some c, flushFault?, #[], #[]⟩ pre text i c.fault)
    (hm : m.sink.capacity? = none) (post : List (List Char)) :
    let q := m.runLines #[] pre
    let out := q.machine.request text
    q.output.length ≤ c.bytes ∧ c.bytes - q.output.length < out.length ∧
      (m.runLines #[] (pre ++ text :: post)).output.take c.bytes =
        (q.output ++ out).take c.bytes := by
  intro q out
  have hfits : q.output.length ≤ c.bytes := (Sink.refusal?_eq_none_iff rfl _).mp h.fits
  have hroom := Sink.room_lt_of_refused rfl h.refused
  rw [Sink.room_write rfl] at hroom
  obtain ⟨after, hlog⟩ := h.exists_log hm post
  have houtput : (m.runLines #[] (pre ++ text :: post)).output =
      q.output ++ out ++ after.flatMap Entry.output := by
    rw [Report.output, hlog]
    simp [Report.output, q, out]
  have hlong : c.bytes ≤ (q.output ++ out).length := by
    rw [List.length_append, Nat.add_comm]
    exact Nat.le_add_of_sub_le (Nat.le_of_lt hroom)
  refine ⟨hfits, hroom, ?_⟩
  rw [houtput, List.take_append_of_le_length hlong]

/-- Where the output does not fit into a new sink, a program breaks off. -/
theorem Cut.breaksOff
    (h : (new limit ⟨none, flushFault?, #[], #[]⟩).Cut
      ⟨some c, flushFault?, #[], #[]⟩ pre text i c.fault)
    (post : List (List Char)) :
    ((new limit ⟨some c, flushFault?, #[], #[]⟩).run ⟨pre ++ text :: post, none⟩).BreaksOff
      ((new limit ⟨none, flushFault?, #[], #[]⟩).run ⟨pre ++ text :: post, none⟩)
      ((new limit ⟨none, flushFault?, #[], #[]⟩).run ⟨pre, none⟩) c pre.length := by
  let m := new limit ⟨none, flushFault?, #[], #[]⟩
  let full : Sink := ⟨some c, flushFault?, #[], #[]⟩
  let script : Script := ⟨pre ++ text :: post, none⟩
  let q := m.runLines #[] pre
  let out := q.machine.request text
  have hline : q.machine.line = pre.length := (runLines_line h.ok).trans (Nat.zero_add _)
  have hr : (new limit full).run script = _ :=
    congrArg (Report.finish · none) (h.runLines_eq rfl post)
  obtain ⟨hfits, hroom, htake⟩ := h.take_output rfl post
  rw [← hline]
  constructor
  case log =>
    obtain ⟨after, hlog⟩ := h.exists_log rfl post
    let count := (m.runLines #[] script.lines).machine.deque.size
    refine ⟨q.log.toList, i, out, after ++ [⟨.released count, []⟩], q.machine.deque.size,
      q.log_finish none, ?_, hfits, hroom, ?_⟩
    · have hu := (m.runLines #[] script.lines).log_finish none
      rw [hlog, List.append_assoc] at hu
      exact hu
    · have hkept : (full.write q.output).2.kept out = out.take (c.bytes - q.output.length) := by
        rw [Sink.kept_of_capacity rfl, Sink.room_write rfl]
        rfl
      have hlog := congrArg (·.log.toList) hr
      simp only [Report.log_finish, Array.toList_push, List.append_assoc] at hlog
      exact hkept ▸ hlog
  case written =>
    have hu : (m.run script).machine.sink.written.toList =
        (m.runLines #[] (pre ++ text :: post)).output :=
      (written_eq_output rfl script).trans (m.output_run script)
    have hkept : full.kept (q.output ++ out) = (q.output ++ out).take c.bytes :=
      Sink.kept_of_capacity rfl _
    rw [hu, htake, ← hkept, hr]
    exact full.toList_write (q.output ++ out)
  case flushes => rw [hr, m.run_sink]; rfl
  all_goals
    rw [hr]
    rfl

end Machine

/-- A limit on the output does nothing but cut it.  If all that a program prints fits, the report is
the same.  If not, the report breaks off at the instruction that prints the first byte too many.
Instructions that print nothing do not fail because of the sink. -/
theorem interpret_limited (limit : Nat) (c : Capacity) (flushFault? : Option Fault)
    (source : String) :
    let free : Sink := ⟨none, flushFault?, #[], #[]⟩
    let full : Sink := ⟨some c, flushFault?, #[], #[]⟩
    let u := interpret limit free source
    let r := interpret limit full source
    let written := u.machine.sink.written.toList
    u.output = written ∧
      (written.length ≤ c.bytes → r = u.withSink { u.machine.sink with capacity? := some c }) ∧
      (c.bytes < written.length →
        ∃ n, r.BreaksOff u
          ((Machine.new limit free).run ⟨(Script.ofText source).lines.take n, none⟩) c n) ∧
      ∀ (m : Machine) (i : Instruction),
        let x := (m.withSink .unlimited).exec i
        x.2.sink = .unlimited →
          m.exec i = (x.1, x.2.withSink m.sink) ∧ ∀ f, (m.exec i).1 ≠ some (.output f) := by
  intro free full u r written
  let m := Machine.new limit free
  let script := Script.ofText source
  have hwritten : u.output = written := (Machine.written_eq_output rfl script).symm
  refine ⟨hwritten, ?_, ?_, ?_⟩
  · intro hfits
    have hroom : full.refusal? u.output = none := by
      rw [hwritten, Sink.refusal?_eq_none_iff rfl]
      exact hfits
    have hsink : u.machine.sink = { free with written := free.written ++ u.output }.flush.2 :=
      m.run_sink script
    have hr : r = u.withSink (full.write u.output).2.flush.2 :=
      Machine.run_withSink (m := .new limit free) rfl rfl hroom
    rw [hr, hsink, Sink.write, Sink.kept_eq_self hroom]
    rfl
  · intro hexceeds
    have hrefused : full.refusal? (m.runLines #[] script.lines).output = some c.fault := by
      have houtput : (m.runLines #[] script.lines).output = u.output := (m.output_run script).symm
      rw [houtput, hwritten]
      simpa [Sink.refusal?, full] using hexceeds
    obtain ⟨pre, text, post, i, hlines, hcut⟩ := Machine.exists_cut rfl hrefused
    have hscript : script = ⟨pre ++ text :: post, none⟩ := congrArg (Script.mk · none) hlines
    have hpre : script.lines.take pre.length = pre := by rw [hlines, List.take_left]
    have hbreaks := hcut.breaksOff post
    rw [← hscript] at hbreaks
    refine ⟨pre.length, ?_⟩
    rw [hpre]
    exact hbreaks
  · intro m i x h
    exact Machine.exec_of_silent h

/-- The program prints eight bytes, of which the sink takes all or only four; on an empty deque its
second line prints nothing. -/
theorem interpret_limited_pall :
    let source := "push 12\npall\npush 3\npall"
    let u := interpret 2 .unlimited source
    let r (bytes : Nat) := interpret 2 ⟨some ⟨bytes, Fault.brokenPipe⟩, none, #[], #[]⟩ source
    let m := Machine.new 2 ⟨some ⟨0, Fault.brokenPipe⟩, none, #[], #[]⟩
    u.machine.sink.written.toList.length ≤ 8 ∧
      r 8 = u.withSink { u.machine.sink with capacity? := some ⟨8, Fault.brokenPipe⟩ } ∧
      4 < u.machine.sink.written.toList.length ∧
      (∃ n, (r 4).error? = some (.exec (n + 1) (.output .brokenPipe)) ∧
        (r 4).machine.line = n + 1) ∧
      ((m.withSink .unlimited).exec .pall).2.sink = .unlimited ∧
      ∀ f, (m.exec .pall).1 ≠ some (.output f) := by
  intro source u r m
  have hfits : u.machine.sink.written.toList.length ≤ 8 := by decide
  have hexceeds : 4 < u.machine.sink.written.toList.length := by decide
  have hsilent : ((m.withSink .unlimited).exec .pall).2.sink = .unlimited := by decide
  obtain ⟨-, hall, -, hpall⟩ := interpret_limited 2 ⟨8, Fault.brokenPipe⟩ none source
  obtain ⟨-, -, hcut, -⟩ := interpret_limited 2 ⟨4, Fault.brokenPipe⟩ none source
  obtain ⟨n, hbreaks⟩ := hcut hexceeds
  exact ⟨hfits, hall hfits, hexceeds, ⟨n, hbreaks.error?, hbreaks.line⟩, hsilent,
    (hpall m .pall hsilent).2⟩

end DequeMachine
