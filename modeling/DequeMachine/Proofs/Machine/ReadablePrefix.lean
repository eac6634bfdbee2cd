import DequeMachine.Machine.Run
import DequeMachine.Proofs.Text.Readable

/-!
# DequeMachine.Proofs.Machine.ReadablePrefix

A stream that fails, or that is not UTF-8 everywhere, runs the text that can be read of it.

* `run_stop`: the reason why a script ends matters for nothing but the error and the status.
* `runReads_eq_runText_readable`: the report of a stream, from that of its readable text.
-/

namespace DequeMachine

/-- A report with another error or none, and the status that goes with it. -/
def Report.withError (r : Report) (error? : Option Error) : Report :=
  { r with
    error?
    machine := { r.machine with status := if error?.isNone then .finished else .failed } }

namespace Machine

/-- The error of the line that stops the program in a text, if one does. -/
def lineError? (m : Machine) (source : String) : Option Error :=
  (m.reset.runLines #[] (Script.ofText source).lines).error?

/-- Why there are no more lines is the error of a run, unless a line was one before. -/
theorem run_stop (m : Machine) (source : String) (stop? : Option ReadError) :
    m.run ⟨(Script.ofText source).lines, stop?⟩ =
      (m.runText source).withError
        (((m.lineError? source).or (stop?.map Error.read)).or (m.runText source).error?) := by
  rw [runText, run, run, lineError?]
  generalize m.reset.runLines #[] (Script.ofText source).lines = q
  obtain ⟨error?, log, q⟩ := q
  cases error? <;> cases stop? <;> rfl

/-- What arrives before a stream fails is run up to the first line that is not UTF-8.  The bytes
after the last line feed are no line if the stream fails, so that they may be anything.  An error of
a line comes first, then that of the first line that is not UTF-8, then the failure of the stream;
nothing that comes later matters. -/
theorem runReads_eq_runText_readable (m : Machine) {reads : List Read} {fault? : Option Fault}
    (hreads : ∀ read ∈ reads, read.Continues) (hfault : fault? ≠ some .interrupted)
    (later : List Read) :
    ∃ p : String,
      p.toUTF8.data.toList =
          ((Script.rawLines (reads.flatMap Read.data) fault?).takeWhile Utf8.isValid).flatten ∧
        m.runReads (reads ++ Read.ending later fault?) =
          (m.runText p).withError
            (((m.lineError? p).or
              (if (Script.rawLines (reads.flatMap Read.data) fault?).all Utf8.isValid then
                fault?.map (Error.read ∘ ReadError.stream)
              else
                some (.read .notUtf8))).or
              (m.runText p).error?) := by
  obtain ⟨p, hp, hscript⟩ := Script.exists_ofLines_eq (reads.flatMap Read.data) fault?
    (fault?.map ReadError.stream)
  refine ⟨p, hp, ?_⟩
  have hreceived : Read.received (reads ++ Read.ending later fault?) =
      (reads.flatMap Read.data, fault?) := by
    rw [Read.received_append hreads, Read.received_ending hfault, List.append_nil]
  have hofReads : Script.ofReads (reads ++ Read.ending later fault?) =
      ⟨(Script.ofText p).lines,
        if (Script.rawLines (reads.flatMap Read.data) fault?).all Utf8.isValid then
          fault?.map ReadError.stream
        else
          some .notUtf8⟩ := by
    rw [Script.ofReads, hreceived, ← hscript]
  rw [runReads, hofReads, run_stop]
  split <;> simp

/-- A line that fails, then one that is not UTF-8, then a failure in the middle of a third. -/
theorem runReads_eq_runText_readable_failing :
    let reads := [Read.bytes [112, 111], .fault .interrupted, .bytes [112, 10, 195, 10, 255]]
    (∀ read ∈ reads, read.Continues) ∧ some Fault.brokenPipe ≠ some .interrupted ∧
      ∃ p : String, p.toUTF8.data.toList = [112, 111, 112, 10] ∧
        (new 2 .unlimited).runReads (reads ++ Read.ending [.bytes [10]] (some .brokenPipe)) =
          ((new 2 .unlimited).runText p).withError
            ((((new 2 .unlimited).lineError? p).or (some (.read .notUtf8))).or
              ((new 2 .unlimited).runText p).error?) := by
  have hreads : ∀ read ∈
      [Read.bytes [112, 111], .fault .interrupted, .bytes [112, 10, 195, 10, 255]],
        read.Continues := by
    decide
  have hfault : some Fault.brokenPipe ≠ some .interrupted := by decide
  obtain ⟨p, hp, hrun⟩ :=
    runReads_eq_runText_readable (new 2 .unlimited) hreads hfault [.bytes [10]]
  refine ⟨hreads, hfault, p, hp.trans (by decide), hrun⟩

end Machine

end DequeMachine
