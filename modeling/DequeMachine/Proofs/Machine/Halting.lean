import Mathlib.Data.List.Infix
import DequeMachine.Proofs.Machine.Printing
import DequeMachine.Proofs.Machine.Reads
import DequeMachine.Proofs.Text.Source

/-!
# DequeMachine.Proofs.Machine.Halting

An error stops a program, and nothing that comes after it matters.

1. The error of a line names it: `step_line?`.
2. Lines after the one that fails are not run: `runLines_append_of_error`.  So the lines up to it
   make up the whole run, which is `runLines_take`.
3. More lines add to the log and to the output: `runLines_isPrefix`.
4. `runSource_of_sharesLines` says both of whole programs, from texts and from streams.
-/

namespace DequeMachine.Machine

variable {m m' : Machine} {text : List Char} {texts texts' : List (List Char)} {e : Error} {n : Nat}

/-! ## The line that fails -/

/-- The error of a line names it. -/
theorem step_line? (h : (m.step text).error? = some e) : e.line? = some (m.line + 1) := by
  simp only [step, Statement.parseLine] at h
  cases hparse : Statement.parse text with
  | error cause =>
      rw [hparse] at h
      obtain rfl := Option.some.inj h
      rfl
  | ok st =>
      rw [hparse] at h
      cases st with
      | blank | comment | mode => simp [Except.mapError] at h
      | instruction i =>
          obtain ⟨cause, -, rfl⟩ := Option.map_eq_some_iff.mp h
          rfl

/-- Lines after an error are not run. -/
theorem runLines_append_of_error (h : (m.runLines #[] texts).error? = some e)
    (later : List (List Char)) : m.runLines #[] (texts ++ later) = m.runLines #[] texts := by
  induction texts generalizing m with
  | nil => simp [runLines] at h
  | cons text texts ih =>
      cases hstep : (m.step text).error? with
      | some e => rw [List.cons_append, runLines_cons_of_error hstep, runLines_cons_of_error hstep]
      | none =>
          rw [runLines_cons_of_none hstep] at h
          rw [List.cons_append, runLines_cons_of_none hstep, runLines_cons_of_none hstep, ih h]

theorem le_line_runLines (m : Machine) (texts : List (List Char)) :
    m.line ≤ (m.runLines #[] texts).machine.line := by
  induction texts generalizing m with
  | nil => exact Nat.le_refl m.line
  | cons text texts ih =>
      have hnext := (step_frame m text).2
      cases hstep : (m.step text).error? with
      | some e => rw [runLines_cons_of_error hstep, hnext]; exact Nat.le_succ m.line
      | none =>
          have hrest := ih (m.step text).machine
          rw [hnext] at hrest
          rw [runLines_cons_of_none hstep]
          exact Nat.le_of_succ_le hrest

/-- No line is counted twice. -/
theorem line_runLines_le (m : Machine) (texts : List (List Char)) :
    (m.runLines #[] texts).machine.line ≤ m.line + texts.length := by
  induction texts generalizing m with
  | nil => exact Nat.le_refl m.line
  | cons text texts ih =>
      have hnext := (step_frame m text).2
      cases hstep : (m.step text).error? with
      | some e =>
          rw [runLines_cons_of_error hstep, hnext, List.length_cons]
          exact Nat.add_le_add_left (Nat.le_add_left 1 texts.length) m.line
      | none =>
          have hrest := ih (m.step text).machine
          rw [hnext, Nat.add_right_comm] at hrest
          rw [runLines_cons_of_none hstep]
          exact hrest

/-- The line that the error names is the last one that is counted. -/
theorem runLines_line? (h : (m.runLines #[] texts).error? = some e) :
    e.line? = some (m.runLines #[] texts).machine.line := by
  induction texts generalizing m with
  | nil => simp [runLines] at h
  | cons text texts ih =>
      cases hstep : (m.step text).error? with
      | some e' =>
          rw [runLines_cons_of_error hstep] at h ⊢
          obtain rfl : e' = e := Option.some.inj h
          rw [step_line? hstep, (step_frame m text).2]
      | none =>
          rw [runLines_cons_of_none hstep] at h ⊢
          exact ih h

/-- The lines that are counted are those that are run. -/
theorem runLines_take (m : Machine) (texts : List (List Char)) :
    m.runLines #[] (texts.take ((m.runLines #[] texts).machine.line - m.line)) =
      m.runLines #[] texts := by
  induction texts generalizing m with
  | nil => rw [List.take_nil]
  | cons text texts ih =>
      have hnext := (step_frame m text).2
      cases hstep : (m.step text).error? with
      | some e =>
          have hrun := runLines_cons_of_error hstep
          rw [hrun, hnext, Nat.add_sub_cancel_left, List.take_succ_cons, hrun]
      | none =>
          have hrun := runLines_cons_of_none hstep
          have hle := le_line_runLines (m.step text).machine texts
          have hrest := ih (m.step text).machine
          rw [hnext] at hle hrest
          have hcount : ((m.step text).machine.runLines #[] texts).machine.line - m.line =
              ((m.step text).machine.runLines #[] texts).machine.line - (m.line + 1) + 1 := by
            omega
          rw [hrun, hcount, List.take_succ_cons, hrun, hrest]

/-- More lines add to the log. -/
theorem runLines_isPrefix (h : texts <+: texts') :
    (m.runLines #[] texts).log.toList <+: (m.runLines #[] texts').log.toList := by
  obtain ⟨later, rfl⟩ := h
  cases herror : (m.runLines #[] texts).error? with
  | some e => rw [runLines_append_of_error herror]
  | none =>
      rw [runLines_append herror]
      simp

/-! ## Programs -/

/-- A run counts lines of its program only. -/
theorem line_run_le (m : Machine) (script : Script) :
    (m.run script).machine.line ≤ script.lines.length := by
  have hlines := m.reset.line_runLines_le script.lines
  rwa [show m.reset.line = 0 from rfl, Nat.zero_add] at hlines

/-- Runs the program that comes from a source. -/
def runSource (m : Machine) : Source → Report
  | .text source => m.runText source
  | .reads answers => m.runReads answers

theorem runSource_eq (m : Machine) (s : Source) : m.runSource s = m.run s.script := by
  cases s <;> rfl

/-- The error of the line that stops a program, if one does: it is neither that of a read nor that
of the flush at the end. -/
def sourceError? (m : Machine) (s : Source) : Option Error :=
  (m.reset.runLines #[] s.script.lines).error?

/-- If a line fails, it does not matter what else there would be to read. -/
theorem finish_of_error {r : Report} (h : r.error? = some e) (stop? : Option ReadError) :
    (r.finish stop?).error? = some e ∧ r.finish stop? = r.finish none := by
  obtain ⟨error?, log, machine⟩ := r
  obtain rfl : error? = some e := h
  exact ⟨rfl, rfl⟩

variable {s s' : Source}

/-- A line that fails is the end of every program that has the same lines up to it. -/
theorem runSource_of_error (h : s.SharesLines n s') (he : m.sourceError? s = some e)
    (hn : e.line? = some n) :
    m.runSource s' = m.runSource s ∧ (m.runSource s).error? = some e ∧
      (m.runSource s).machine.line = n := by
  let q := m.reset.runLines #[] s.script.lines
  have hq : q.error? = some e := he
  obtain rfl : n = q.machine.line := Option.some.inj (hn.symm.trans (runLines_line? hq))
  have htake : m.reset.runLines #[] (s.script.lines.take q.machine.line) = q :=
    runLines_take m.reset s.script.lines
  have hq' : m.reset.runLines #[] s'.script.lines = q := by
    rw [← List.take_append_drop q.machine.line s'.script.lines, h.take_lines,
      runLines_append_of_error (by rw [htake]; exact hq), htake]
  obtain ⟨herror, hstop⟩ := finish_of_error hq s.script.stop?
  rw [runSource_eq, runSource_eq, run, run, hq', hstop]
  exact ⟨(finish_of_error hq s'.script.stop?).2, hstop ▸ herror, rfl⟩

/-- What lines print and report comes first in every program that begins with them. -/
theorem runSource_isPrefix (h : s.SharesLines n s') (hs : s.HasOnly n) :
    (m.runSource s).machine.sink.written.toList <+: (m.runSource s').machine.sink.written.toList ∧
      (m.runSource s).log.toList.dropLast <+: (m.runSource s').log.toList := by
  have hlog := runLines_isPrefix (m := m.reset) (h.lines_isPrefix hs)
  have hfinish := fun s : Source => (m.reset.runLines #[] s.script.lines).log_finish s.script.stop?
  rw [runSource_eq, runSource_eq]
  constructor
  · rw [run_sink, run_sink, output_run, output_run, Array.toList_appendList,
      Array.toList_appendList]
    exact (List.prefix_append_right_inj _).mpr (hlog.flatMap Entry.output)
  · rw [run, run, hfinish, hfinish, List.dropLast_concat]
    exact hlog.trans (List.prefix_append _ _)

/-- Two programs have the same first `n` lines.  If line `n` of one of them fails, both have the
same report, whatever follows in the other: more lines, bytes that are not UTF-8, a stream that
fails.  And what these lines alone would print and report, but for the end of the run, is the
beginning of what each of the programs prints and reports. -/
theorem runSource_of_sharesLines (hlimit : m.limit = m'.limit) (hsink : m.sink = m'.sink)
    (h : s.SharesLines n s') :
    (∀ e, m.sourceError? s = some e → e.line? = some n →
      m'.runSource s' = m.runSource s ∧ (m.runSource s).error? = some e ∧
        (m.runSource s).machine.line = n) ∧
    (s.HasOnly n →
      (m.runSource s).machine.sink.written.toList <+:
          (m'.runSource s').machine.sink.written.toList ∧
        (m.runSource s).log.toList.dropLast <+: (m'.runSource s').log.toList) := by
  have hm : m'.runSource s' = m.runSource s' := by
    rw [runSource_eq, runSource_eq, run_congr hlimit hsink]
  rw [hm]
  exact ⟨fun e he hn => runSource_of_error h he hn, runSource_isPrefix h⟩

/-- The third line fails.  In the stream, the fourth is not UTF-8, and then the stream fails. -/
theorem runSource_of_sharesLines_unknown :
    let m := new 1 .unlimited
    let lines := Source.text "push 7\npint\n"
    let s := Source.text "push 7\npint\nfoo\npint"
    let s' := Source.reads
      [.bytes (s.bytes.take 9), .bytes ((s.bytes.drop 9).take 7), .bytes [255], .fault .brokenPipe]
    s.SharesLines 3 s' ∧ m.sourceError? s = some (.parse 3 (.unknownInstruction "foo")) ∧
      m.runSource s' = m.runSource s ∧
      lines.SharesLines 2 s' ∧ lines.HasOnly 2 ∧
      (m.runSource lines).machine.sink.written.toList <+:
        (m.runSource s').machine.sink.written.toList := by
  intro m lines s s'
  have hs : s.SharesLines 3 s' := ⟨by decide, by decide⟩
  have he : m.sourceError? s = some (.parse 3 (.unknownInstruction "foo")) := by decide
  have hlines : lines.SharesLines 2 s' := ⟨by decide, by decide⟩
  have honly : lines.HasOnly 2 := ⟨by decide, by decide⟩
  have hboth := runSource_of_sharesLines (m := m) rfl rfl hs
  have hfirst := runSource_of_sharesLines (m := m) rfl rfl hlines
  exact ⟨hs, he, (hboth.1 _ he rfl).1, hlines, honly, (hfirst.2 honly).1⟩

end DequeMachine.Machine
