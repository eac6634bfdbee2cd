import DequeMachine.Proofs.Machine.LineEnds
import DequeMachine.Proofs.Machine.Simulation

/-!
# DequeMachine.Proofs.Machine.Padding

Lines that do nothing, between the lines of a program.

1. `Statement.Idle` says that a line is blank, a comment or the instruction that does nothing.  It is
   counted, and nothing else happens: `step_of_idle`.
2. On a machine that has counted another number of lines, a line does the same; an error names
   another line: `step_withLine`.
3. A `Padding` is a program with idle lines before each of its lines and after the last.
   `runLines_spread` follows both programs line by line.
4. `runSource_of_padding` says what becomes of a run.
-/

namespace DequeMachine

/-! ## Moved errors -/

/-- The error where the line `n` is now the line `f n`. -/
def Error.move (f : Nat → Nat) : Error → Error
  | parse line cause => parse (f line) cause
  | exec line cause => exec (f line) cause
  | read cause => read cause

namespace Machine

variable {m : Machine} {line : Nat} {f : Nat → Nat}

/-- The same machine after another number of lines. -/
def withLine (line : Nat) (m : Machine) : Machine := { m with line }

theorem exec_withLine (m : Machine) (line : Nat) (i : Instruction) :
    (m.withLine line).exec i = ((m.exec i).1, (m.exec i).2.withLine line) :=
  exec_change rfl (fun _ => rfl) rfl fun _ _ => rfl

/-- A line does the same wherever it stands, and its error names the place. -/
theorem step_withLine (hf : f (m.line + 1) = line + 1) (text : List Char) :
    ((m.withLine line).step text).error? = (m.step text).error?.map (Error.move f) ∧
      ((m.withLine line).step text).machine = (m.step text).machine.withLine (line + 1) := by
  have hnext : (m.withLine line).next = m.next.withLine (line + 1) := rfl
  have hline : f m.next.line = (m.next.withLine (line + 1)).line := hf
  rw [step_eq, step_eq, hnext]
  cases Statement.parse text with
  | error e => exact ⟨congrArg (fun n => some (Error.parse n e)) hline.symm, rfl⟩
  | ok st =>
      cases st with
      | blank | comment | mode => exact ⟨rfl, rfl⟩
      | instruction i =>
          simp only [execAt, exec_withLine, ← hline, Option.map_map]
          exact ⟨rfl, trivial⟩

end Machine

/-! ## Idle lines -/

/-- The line does nothing: it is blank, a comment, or the instruction for that. -/
def Statement.Idle (text : List Char) : Prop :=
  parse text = .ok .blank ∨ parse text = .ok .comment ∨ parse text = .ok (.instruction .nop)

instance : DecidablePred Statement.Idle := fun text =>
  inferInstanceAs (Decidable (Statement.parse text = _ ∨ Statement.parse text = _ ∨
    Statement.parse text = _))

namespace Machine

variable {text : List Char} {gap : List (List Char)}

theorem exec_nop (m : Machine) : m.exec .nop = (none, m) := by
  have hprinted : Instruction.nop.printed m.deque = .ok [] := rfl
  rw [exec_of_accepted hprinted m.sink.refusal?_nil, Sink.write_nil]
  rfl

/-- An idle line is counted, and that is all. -/
theorem step_of_idle (h : Statement.Idle text) (m : Machine) :
    (m.step text).error? = none ∧ (m.step text).machine = m.withLine (m.line + 1) := by
  rw [step_eq]
  rcases h with hparse | hparse | hparse
  · rw [hparse]
    exact ⟨rfl, rfl⟩
  · rw [hparse]
    exact ⟨rfl, rfl⟩
  · rw [hparse]
    simp only [execAt, exec_nop]
    exact ⟨rfl, rfl⟩

theorem runLines_of_idle (h : ∀ text ∈ gap, Statement.Idle text) (m : Machine) :
    (m.runLines #[] gap).error? = none ∧
      (m.runLines #[] gap).machine = m.withLine (m.line + gap.length) := by
  induction gap generalizing m with
  | nil => exact ⟨rfl, rfl⟩
  | cons text gap ih =>
      obtain ⟨hstep, hmachine⟩ := step_of_idle (h text List.mem_cons_self) m
      obtain ⟨herror, hrest⟩ :=
        ih (fun text hmem => h text (List.mem_cons_of_mem _ hmem)) (m.step text).machine
      rw [runLines_cons_of_none hstep]
      refine ⟨herror, ?_⟩
      rw [hrest, hmachine, List.length_cons, Nat.add_comm gap.length, ← Nat.add_assoc]
      rfl

/-- After idle lines, the others do what they do without them on a machine that has counted more. -/
theorem runLines_idle_append (h : ∀ text ∈ gap, Statement.Idle text) (m : Machine)
    (texts : List (List Char)) :
    let q := (m.withLine (m.line + gap.length)).runLines #[] texts
    (m.runLines #[] (gap ++ texts)).error? = q.error? ∧
      (m.runLines #[] (gap ++ texts)).machine = q.machine := by
  obtain ⟨herror, hmachine⟩ := runLines_of_idle h m
  rw [runLines_append herror, hmachine]
  exact ⟨rfl, rfl⟩

end Machine

/-! ## Programs with idle lines -/

/-- Lines, each after the lines that are put before it. -/
def spread (lines : List (List (List Char) × List Char)) : List (List Char) :=
  lines.flatMap fun line => line.1 ++ [line.2]

theorem spread_cons (gap : List (List Char)) (text : List Char)
    (lines : List (List (List Char) × List Char)) :
    spread ((gap, text) :: lines) = gap ++ text :: spread lines := by
  simp [spread]

/-- A program with other lines between its own. -/
structure Padding where
  /-- The lines of the program, each with those that are put before it. -/
  lines : List (List (List Char) × List Char)
  /-- The lines that are put after the last. -/
  last : List (List Char)

namespace Padding

/-- The lines of the program. -/
def original (p : Padding) : List (List Char) := p.lines.map Prod.snd

/-- The lines that are put between them. -/
def added (p : Padding) : List (List Char) := p.lines.flatMap Prod.fst ++ p.last

/-- All lines. -/
def padded (p : Padding) : List (List Char) := spread p.lines ++ p.last

/-- The number among all lines of line `n` of the program. -/
def position (p : Padding) (n : Nat) : Nat := (spread (p.lines.take n)).length

end Padding

namespace Machine

variable {m : Machine} {line : Nat} {f : Nat → Nat} {last : List (List Char)}
  {lines : List (List (List Char) × List Char)}

/-- Idle lines between others change nothing but the number of lines, where `f n` is the place of
line `n`. -/
theorem runLines_spread (hidle : ∀ text ∈ lines.flatMap Prod.fst ++ last, Statement.Idle text)
    (hf : ∀ n ≤ lines.length, f (m.line + n) = line + (spread (lines.take n)).length) :
    let q := m.runLines #[] (lines.map Prod.snd)
    let q' := (m.withLine line).runLines #[] (spread lines ++ last)
    q'.error? = q.error?.map (Error.move f) ∧ ∃ n, q'.machine = q.machine.withLine n := by
  induction lines generalizing m line with
  | nil =>
      have hlast : ∀ text ∈ last, Statement.Idle text := hidle
      obtain ⟨herror, hmachine⟩ := runLines_of_idle hlast (m.withLine line)
      exact ⟨herror, _, hmachine⟩
  | cons first lines ih =>
      obtain ⟨gap, text⟩ := first
      simp only [List.flatMap_cons, List.append_assoc, List.forall_mem_append] at hidle
      obtain ⟨hgap, hlater⟩ := hidle
      have hmoved : (m.withLine line).withLine ((m.withLine line).line + gap.length) =
          m.withLine (line + gap.length) := rfl
      have hidleLines :=
        runLines_idle_append hgap (m.withLine line) (text :: (spread lines ++ last))
      have hplace : f (m.line + 1) = (line + gap.length) + 1 := by
        rw [hf 1 (by simp), List.take_succ_cons, List.take_zero, spread_cons]
        simp [spread, Nat.add_assoc]
      obtain ⟨herror, hafter⟩ := step_withLine hplace text
      rw [hmoved] at hidleLines
      rw [spread_cons, List.append_assoc, List.cons_append, List.map_cons]
      simp only [hidleLines]
      cases hstep : (m.step text).error? with
      | some e =>
          rw [hstep, Option.map_some] at herror
          rw [runLines_cons_of_error hstep, runLines_cons_of_error herror, hafter]
          exact ⟨rfl, _, rfl⟩
      | none =>
          rw [hstep, Option.map_none] at herror
          have hnext := (step_frame m text).2
          rw [runLines_cons_of_none hstep, runLines_cons_of_none herror, hafter]
          refine ih (List.forall_mem_append.mpr hlater) fun n hn => ?_
          rw [hnext, Nat.add_assoc, Nat.add_comm 1, hf (n + 1) (Nat.succ_le_succ hn),
            List.take_succ_cons, spread_cons]
          simp only [List.length_append, List.length_cons]
          omega

end Machine

/-- A line stands at its new place. -/
theorem Padding.getElem?_position (p : Padding) {n : Nat} (h : n < p.original.length) :
    p.padded[p.position (n + 1) - 1]? = p.original[n]? := by
  rw [original, List.length_map] at h
  have hcut : spread p.lines =
      spread (p.lines.take (n + 1)) ++ spread (p.lines.drop (n + 1)) := by
    rw [spread, spread, spread, ← List.flatMap_append, List.take_append_drop]
  have hlast : spread (p.lines.take (n + 1)) =
      (spread (p.lines.take n) ++ p.lines[n].1) ++ [p.lines[n].2] := by
    rw [spread, List.take_succ_eq_append_getElem h, List.flatMap_append, List.flatMap_singleton,
      spread, List.append_assoc]
  rw [padded, position, original, hcut, hlast]
  simp [h]

/-! ## Programs -/

/-- The text of some lines with a line feed after each. -/
def lineText (lines : List (List Char)) : String := String.ofList (lines.flatMap (· ++ ['\n']))

namespace Machine

variable {m m' : Machine} {s s' : Source}

theorem runSource_of_lineText {lines : List (List Char)} (hlines : ∀ line ∈ lines, '\n' ∉ line)
    (hs : s.Carries (lineText lines)) (m : Machine) :
    m.runSource s = (m.reset.runLines #[] lines).finish none := by
  have hparse : (lines.map (Lines.dropEnd '\r')).map Statement.parse =
      lines.map Statement.parse := by
    rw [List.map_map]
    exact List.map_congr_left fun line _ => Lines.apply_dropEnd Statement.parse_concat_return line
  rw [runSource_of_carries hs, lineText, String.toList_ofList, Lines.all_flatMap_feed '\r' hlines,
    runLines_congr hparse]

/-- Blank lines, comments and instructions that do nothing may be put anywhere between the lines of a
program: but for the number of lines, the machine is the same after it, the number of released nodes
is the same, and an error names the new place of its line. -/
theorem runSource_of_padding (hlimit : m.limit = m'.limit) (hsink : m.sink = m'.sink)
    (hflush : m.sink.flushFault? = none) {p : Padding}
    (hidle : ∀ text ∈ p.added, Statement.Idle text) (hfeed : ∀ text ∈ p.padded, '\n' ∉ text)
    (hs : s.Carries (lineText p.original)) (hs' : s'.Carries (lineText p.padded)) :
    let r := m.runSource s
    let r' := m'.runSource s'
    (∀ n < p.original.length, p.padded[p.position (n + 1) - 1]? = p.original[n]?) ∧
      r'.error? = r.error?.map (Error.move p.position) ∧
      r'.machine = r.machine.withLine r'.machine.line ∧
      ∃ count, r.log.toList.getLast? = some ⟨.released count, []⟩ ∧
        r'.log.toList.getLast? = some ⟨.released count, []⟩ := by
  intro r r'
  let q := m.reset.runLines #[] p.original
  let q' := m.reset.runLines #[] p.padded
  have hplace : ∀ n ≤ p.lines.length,
      p.position (m.reset.line + n) = 0 + (spread (p.lines.take n)).length := fun n _ => by
    rw [Nat.zero_add]
    exact congrArg p.position (Nat.zero_add n)
  obtain ⟨herror, line, hmachine⟩ :
      q'.error? = q.error?.map (Error.move p.position) ∧ ∃ n, q'.machine = q.machine.withLine n :=
    runLines_spread hidle hplace
  have hsub : ∀ text ∈ p.original, text ∈ p.padded := fun text hmem => by
    obtain ⟨first, hfirst, rfl⟩ := List.mem_map.mp hmem
    exact List.mem_append_left _ (List.mem_flatMap.mpr ⟨first, hfirst, by simp⟩)
  have hq : q.machine.sink.flushFault? = none := by
    rw [runLines_sink]
    exact hflush
  have hq' : q'.machine.sink.flushFault? = none := by
    rw [hmachine]
    exact hq
  have hr : r = q.finish none :=
    runSource_of_lineText (fun text hmem => hfeed text (hsub text hmem)) hs m
  have hr' : r' = q'.finish none :=
    (runSource_congr hlimit hsink s').trans (runSource_of_lineText hfeed hs' m)
  rw [hr, hr', Report.finish_of_flush hq, Report.finish_of_flush hq', herror, hmachine]
  refine ⟨fun n => p.getElem?_position, rfl, ?_, q.machine.deque.size, ?_, ?_⟩
  · simp [withLine]
  · rw [Array.toList_push, List.getLast?_concat]
  · rw [Array.toList_push, List.getLast?_concat]
    rfl

/-- The third line fails, and is the seventh with four idle lines before it.  One more comes after. -/
theorem runSource_of_padding_foo :
    let m := new 1 .unlimited
    let p : Padding :=
      { lines := [([], "push 7".toList), (["".toList, " # seven".toList], "pint".toList),
          (["nop 3".toList, "\t\r".toList], "foo".toList)]
        last := ["nop".toList] }
    let s := Source.text (lineText p.original)
    let s' := Source.text (lineText p.padded)
    (∀ text ∈ p.added, Statement.Idle text) ∧ (∀ text ∈ p.padded, '\n' ∉ text) ∧
      (m.runSource s).error? = some (.parse 3 (.unknownInstruction "foo")) ∧
      (m.runSource s').error? = some (.parse 7 (.unknownInstruction "foo")) ∧
      (m.runSource s').machine.sink = (m.runSource s).machine.sink := by
  intro m p s s'
  have hidle : ∀ text ∈ p.added, Statement.Idle text := by decide
  have hfeed : ∀ text ∈ p.padded, '\n' ∉ text := by decide
  have hfails : (m.runSource s).error? = some (.parse 3 (.unknownInstruction "foo")) := by decide
  obtain ⟨-, herror, hmachine, -⟩ :=
    runSource_of_padding (m := m) rfl rfl rfl hidle hfeed (.text _) (.text _)
  refine ⟨hidle, hfeed, hfails, ?_, ?_⟩
  · rw [herror, hfails]
    rfl
  · rw [hmachine]
    rfl

end Machine

end DequeMachine
