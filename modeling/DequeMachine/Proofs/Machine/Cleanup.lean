import DequeMachine.Proofs.Machine.Contents
import DequeMachine.Proofs.Machine.Halting

/-!
# DequeMachine.Proofs.Machine.Cleanup

How every run ends, whether it succeeds or not.

1. The lines do not flush the sink, and whether a flush would fail makes no difference to them:
   `runLines_withFlushFault`.
2. They do not report that nodes are released: `runLines_not_released`.
3. The one flush of a run comes after its last byte: `run_flushes`.
4. The end of a run releases all nodes and reports how many these were.  `run_cleans_up` says so,
   and that this number is that of the values inserted less that of the values removed.
-/

namespace DequeMachine.Machine

variable {m : Machine} {text : List Char} {i : Instruction}

/-! ## What a flush would do -/

theorem exec_withFlushFault (m : Machine) (fault? : Option Fault) (i : Instruction) :
    (m.withFlushFault fault?).exec i = ((m.exec i).1, (m.exec i).2.withFlushFault fault?) :=
  exec_change rfl (fun _ => rfl) rfl fun _ _ => rfl

/-- Lines do not notice whether a flush would fail. -/
theorem runLines_withFlushFault (m : Machine) (fault? : Option Fault)
    (texts : List (List Char)) :
    (m.withFlushFault fault?).runLines #[] texts =
      (m.runLines #[] texts).map (withFlushFault fault?) := by
  have haside : Aside (withFlushFault fault?) :=
    ⟨fun _ => rfl, fun _ => rfl, fun _ _ => rfl, fun _ => rfl⟩
  exact runLines_change fun n text _ _ =>
    ignores_of_exec haside fun i _ => exec_withFlushFault _ fault? i

/-! ## What lines report -/

/-- A line does not report that nodes are released. -/
theorem step_not_released {entry : Entry} (h : entry ∈ (m.step text).log) (count : Nat) :
    entry.event ≠ .released count := by
  rw [step_eq] at h
  split at h
  · simp [Step.log] at h
  · simp [Step.log] at h
  · simp [Step.log] at h
  · obtain rfl : entry = _ := by simpa [Step.log] using h
    simp
  · obtain rfl : entry = _ := by simpa [Step.log] using h
    simp

theorem runLines_not_released {texts : List (List Char)} {entry : Entry}
    (h : entry ∈ (m.runLines #[] texts).log) (count : Nat) : entry.event ≠ .released count :=
  forall_mem_log (fun _ _ _ hentry => step_not_released hentry count) m texts entry h

/-! ## Programs -/

/-- A run adds its output to the sink and then flushes it: after the flushes before the run there is
one more, and it comes after the last byte. -/
theorem run_flushes (m : Machine) (script : Script) :
    let q := m.reset.runLines #[] script.lines
    let r := m.run script
    (q.machine.sink.flushedAt = m.sink.flushedAt ∧ r.machine.sink = q.machine.sink.flush.2) ∧
      r.machine.sink.written.toList = m.sink.written.toList ++ r.output ∧
      r.machine.sink.flushedAt = m.sink.flushedAt.push r.machine.sink.written.size ∧
      r.machine.sink.flushes = m.sink.flushes + 1 := by
  intro q r
  have hsink : r.machine.sink = { m.sink with
      written := m.sink.written ++ r.output
      flushedAt := m.sink.flushedAt.push (m.sink.written ++ r.output).size } :=
    m.run_sink script
  have hlines : q.machine.sink.flushedAt = m.sink.flushedAt := by
    rw [runLines_sink]
    rfl
  refine ⟨⟨hlines, rfl⟩, ?_, ?_, ?_⟩
  · rw [hsink, Array.toList_appendList]
  · rw [hsink]
  · rw [hsink]
    exact Array.size_push _

/-- Two bytes are written, and then the sink is flushed. -/
example : ((new 1 .unlimited).runText "push 7\npint").machine.sink.flushedAt = #[2] := by decide

/-- A flush that fails is the error of a run that has no other, and changes nothing else. -/
theorem run_withFlushFault (m : Machine) (f : Fault) (script : Script) :
    let good := (m.withFlushFault none).run script
    (m.withFlushFault (some f)).run script =
      { error? := good.error?.or (some (.exec good.machine.line (.output f)))
        log := good.log
        machine := { good.machine.withFlushFault (some f) with status := .failed } } := by
  intro good
  let q := (m.withFlushFault none).reset.runLines #[] script.lines
  have hq : (m.withFlushFault (some f)).reset.runLines #[] script.lines =
      q.map (withFlushFault (some f)) :=
    runLines_withFlushFault (m.withFlushFault none).reset (some f) script.lines
  have hgood : q.machine.sink.flushFault? = none := by
    rw [runLines_sink]
    rfl
  have hrun : good = q.finish script.stop? := rfl
  clear_value good q
  rw [run, hq, hrun]
  obtain ⟨error?, log, machine⟩ := q
  simp only [Report.finish, Report.map, withFlushFault, Sink.flush] at hgood ⊢
  rw [hgood]
  cases error? <;> cases script.stop? <;> rfl

/-- However a run ends, it flushes the sink once, after the last byte of its output, and releases
all nodes.  It has succeeded if it has no error.  A flush that fails is an error only if there is no
other, and names the last line that was read.  The last report, and no other, says how many nodes
are released: as many as values were inserted, less those that were removed. -/
theorem run_cleans_up (m : Machine) (script : Script) :
    let q := m.reset.runLines #[] script.lines
    let r := m.run script
    let done := m.reset.succeeded script.lines
    let good := (m.withFlushFault none).run script
    ((q.machine.sink.flushedAt = m.sink.flushedAt ∧ r.machine.sink = q.machine.sink.flush.2) ∧
        r.machine.sink.written.toList = m.sink.written.toList ++ r.output ∧
        r.machine.sink.flushedAt = m.sink.flushedAt.push r.machine.sink.written.size ∧
        r.machine.sink.flushes = m.sink.flushes + 1) ∧
      r.machine.line ≤ script.lines.length ∧
      r.machine.deque = ∅ ∧
      r.machine.status = (if r.error?.isNone then .finished else .failed) ∧
      (∀ f, (m.withFlushFault (some f)).run script =
        { error? := good.error?.or (some (.exec good.machine.line (.output f)))
          log := good.log
          machine := { good.machine.withFlushFault (some f) with status := .failed } }) ∧
      ∃ before count,
        r.log.toList = before ++ [⟨.released count, []⟩] ∧
          (∀ entry ∈ before, ∀ count, entry.event ≠ .released count) ∧
          count + done.countP Instruction.removes = done.countP Instruction.inserts := by
  intro q r done good
  refine ⟨m.run_flushes script, m.line_run_le script, rfl, rfl,
    fun f => m.run_withFlushFault f script, ?_⟩
  have hempty : m.reset.deque.Holds m.reset.limit [] := .empty m.limit
  obtain ⟨vs, hvs, hcount⟩ := runLines_holds hempty script.lines
  refine ⟨q.log.toList, q.machine.deque.size, q.log_finish script.stop?, ?_, ?_⟩
  · exact fun entry hentry => runLines_not_released (Array.mem_toList_iff.mp hentry)
  · rw [List.length_nil, Nat.zero_add] at hcount
    rw [hvs.shows.size, hcount]

end DequeMachine.Machine
