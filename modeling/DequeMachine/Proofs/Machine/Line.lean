import DequeMachine.Proofs.Machine.Printing

/-!
# DequeMachine.Proofs.Machine.Line

What a line of a program does, by the statement that it holds, and what it does not notice.

* `execAt` is an instruction of a numbered line, and `step_eq` says what a line does by its
  statement.
* `Ignores` says that a line does the same on a machine and on a changed one, but for the change.
  `ignores_of_exec` reduces it to instructions, and `runLines_change` leads from single lines to a
  run.
-/

namespace DequeMachine

namespace Machine

variable {m : Machine} {i : Instruction} {text : List Char}

/-! ## Statements -/

/-- Executes an instruction of the line `line`, which its error names. -/
def execAt (m : Machine) (line : Nat) (i : Instruction) : Option Error × Machine :=
  ((m.exec i).1.map (Error.exec line), (m.exec i).2)

/-- The machine after it counts a line and before it does what the line says. -/
def next (m : Machine) : Machine := { m with line := m.line + 1 }

/-- A line does what its statement says. -/
theorem step_eq (m : Machine) (text : List Char) :
    m.step text =
      match Statement.parse text with
      | .error e => ⟨some (.parse m.next.line e), none, m.next⟩
      | .ok .blank => ⟨none, none, m.next⟩
      | .ok .comment => ⟨none, none, m.next⟩
      | .ok (.mode mode) =>
        ⟨none, some ⟨.switch m.next.line mode, []⟩, { m.next with mode }⟩
      | .ok (.instruction i) =>
        let r := m.next.execAt m.next.line i
        ⟨r.1, some ⟨.exec m.next.line i, r.2.sink.since m.sink.written.size⟩, r.2⟩ := by
  simp only [step, Statement.parseLine]
  cases Statement.parse text with
  | error e => rfl
  | ok st => cases st <;> rfl

theorem step_of_instruction (h : Statement.parse text = .ok (.instruction i)) :
    m.step text =
      ⟨(m.next.execAt m.next.line i).1,
        some ⟨.exec m.next.line i,
          (m.next.execAt m.next.line i).2.sink.since m.sink.written.size⟩,
        (m.next.execAt m.next.line i).2⟩ := by
  rw [step_eq, h]

/-- A run depends on nothing but what its lines say. -/
theorem runLines_congr {texts texts' : List (List Char)}
    (h : texts'.map Statement.parse = texts.map Statement.parse) (m : Machine) :
    m.runLines #[] texts' = m.runLines #[] texts := by
  induction texts generalizing texts' m with
  | nil =>
      obtain rfl : texts' = [] := List.map_eq_nil_iff.mp h
      rfl
  | cons text texts ih =>
      obtain ⟨text', texts', rfl, hparse, hrest⟩ := List.map_eq_cons_iff.mp h
      have hstep : m.step text' = m.step text := by rw [step_eq, step_eq, hparse]
      cases herror : (m.step text).error? with
      | some e =>
          rw [runLines_cons_of_error herror, runLines_cons_of_error (hstep ▸ herror), hstep]
      | none =>
          rw [runLines_cons_of_none herror, runLines_cons_of_none (hstep ▸ herror), hstep,
            ih hrest]

end Machine

/-! ## Changes -/

/-- The same step, with a change to the machine that it leaves. -/
def Machine.Step.map (change : Machine → Machine) (r : Machine.Step) : Machine.Step :=
  { r with machine := change r.machine }

@[simp]
theorem Machine.Step.error?_map (change : Machine → Machine) (r : Machine.Step) :
    (r.map change).error? = r.error? := rfl

@[simp]
theorem Machine.Step.machine_map (change : Machine → Machine) (r : Machine.Step) :
    (r.map change).machine = change r.machine := rfl

@[simp]
theorem Machine.Step.log_map (change : Machine → Machine) (r : Machine.Step) :
    (r.map change).log = r.log := rfl

/-- The same report, with a change to the machine that it leaves. -/
def Report.map (change : Machine → Machine) (r : Report) : Report :=
  { r with machine := change r.machine }

namespace Machine

variable {change : Machine → Machine} {m : Machine} {i : Instruction} {text : List Char}
  {texts : List (List Char)}

/-- The next line does not notice a change. -/
def Ignores (m : Machine) (change : Machine → Machine) (text : List Char) : Prop :=
  (change m).step text = (m.step text).map change

/-- A change that has to do neither with the line nor with the mode nor with what is printed. -/
structure Aside (change : Machine → Machine) : Prop where
  line : ∀ m, (change m).line = m.line
  next : ∀ m, change m.next = (change m).next
  mode : ∀ m mode, change { m with mode } = { change m with mode }
  written : ∀ m, (change m).sink.written = m.sink.written

/-- An instruction does not notice a change that leaves what it prints, whether the sink takes that
and what it does to the deque. -/
theorem exec_change (hdeque : (change m).deque = m.deque)
    (hrefusal : ∀ bytes, (change m).sink.refusal? bytes = m.sink.refusal? bytes)
    (heffect : i.effect (change m).limit (change m).mode m.deque = i.effect m.limit m.mode m.deque)
    (hafter : ∀ deque bytes,
      { change m with deque, sink := ((change m).sink.write bytes).2 } =
        change { m with deque, sink := (m.sink.write bytes).2 }) :
    (change m).exec i = ((m.exec i).1, change (m.exec i).2) := by
  cases hprinted : i.printed m.deque with
  | error e =>
      have hprinted' : i.printed (change m).deque = .error e := hdeque ▸ hprinted
      rw [exec_of_printed_error hprinted, exec_of_printed_error hprinted']
  | ok bytes =>
      have hprinted' : i.printed (change m).deque = .ok bytes := hdeque ▸ hprinted
      cases hf : m.sink.refusal? bytes with
      | some f =>
          have hsame := hafter m.deque bytes
          rw [← hdeque] at hsame
          rw [exec_of_refused hprinted hf, exec_of_refused hprinted' (hrefusal bytes ▸ hf), hsame,
            hdeque]
      | none =>
          rw [exec_of_accepted hprinted hf, exec_of_accepted hprinted' (hrefusal bytes ▸ hf),
            hdeque, heffect, hafter]

/-- A line does not notice such a change if its instruction, if it has one, does not. -/
theorem ignores_of_exec (h : Aside change)
    (hexec : ∀ i, Statement.parse text = .ok (.instruction i) →
      (change m.next).exec i = ((m.next.exec i).1, change (m.next.exec i).2)) :
    m.Ignores change text := by
  have hline : (change m).next.line = m.next.line := by rw [← h.next, h.line]
  unfold Ignores
  rw [step_eq, step_eq, hline, ← h.next]
  cases hparse : Statement.parse text with
  | error e => rfl
  | ok st =>
      cases st with
      | blank | comment => rfl
      | mode mode =>
          exact congrArg (Step.mk none (some ⟨.switch m.next.line mode, []⟩))
            (h.mode m.next mode).symm
      | instruction i =>
          simp only [Step.map, execAt, hexec i hparse, Sink.since, h.written]

/-- Lines do not notice a change that none of them notices where it is run. -/
theorem runLines_change
    (h : ∀ n text, texts[n]? = some text → (m.runLines #[] (texts.take n)).error? = none →
      (m.runLines #[] (texts.take n)).machine.Ignores change text) :
    (change m).runLines #[] texts = (m.runLines #[] texts).map change := by
  induction texts generalizing m with
  | nil => rfl
  | cons text texts ih =>
      have hfirst : (change m).step text = (m.step text).map change := h 0 text rfl rfl
      cases hstep : (m.step text).error? with
      | some e =>
          have hstep' : ((change m).step text).error? = some e := by
            rw [hfirst, Step.error?_map, hstep]
          rw [runLines_cons_of_error hstep, runLines_cons_of_error hstep', hfirst, Step.log_map,
            Step.machine_map]
          rfl
      | none =>
          have hstep' : ((change m).step text).error? = none := by
            rw [hfirst, Step.error?_map, hstep]
          have hrest := ih (m := (m.step text).machine) fun n later hlater hok => by
            have hn := h (n + 1) later (by simpa using hlater)
            rw [List.take_succ_cons, runLines_cons_of_none hstep] at hn
            exact hn hok
          rw [runLines_cons_of_none hstep, runLines_cons_of_none hstep', hfirst, Step.log_map,
            Step.machine_map, hrest]
          rfl

/-- The step of the next line, if the lines before it do not fail. -/
theorem runLines_take_succ {n : Nat} (h : (m.runLines #[] (texts.take n)).error? = none)
    (htext : texts[n]? = some text) :
    let q := m.runLines #[] (texts.take n)
    let r := q.machine.step text
    m.runLines #[] (texts.take (n + 1)) = ⟨r.error?, q.log ++ r.log, r.machine⟩ := by
  intro q r
  have hone : q.machine.runLines #[] [text] = ⟨r.error?, r.log, r.machine⟩ := by
    cases hstep : r.error? with
    | some e => exact runLines_cons_of_error hstep []
    | none =>
        rw [runLines_cons_of_none hstep]
        simp [runLines, r]
  rw [List.take_add_one, htext, Option.toList_some, runLines_append h, hone]

/-- What holds of all that single lines report holds of all that a run of lines reports.  Here `K`
holds of the machines that the lines are run on. -/
theorem forall_mem_log_of {K : Machine → Prop} {p : Entry → Prop}
    (hkind : ∀ m text, K m → K (m.step text).machine)
    (h : ∀ m text, K m → ∀ entry ∈ (m.step text).log, p entry)
    {m : Machine} (hm : K m) (texts : List (List Char)) :
    ∀ entry ∈ (m.runLines #[] texts).log, p entry := by
  induction texts generalizing m with
  | nil => exact fun entry hentry => absurd hentry (Array.not_mem_empty entry)
  | cons text texts ih =>
      intro entry hentry
      cases hstep : (m.step text).error? with
      | some e =>
          rw [runLines_cons_of_error hstep] at hentry
          exact h m text hm entry hentry
      | none =>
          rw [runLines_cons_of_none hstep] at hentry
          rcases Array.mem_append.mp hentry with hfirst | hrest
          · exact h m text hm entry hfirst
          · exact ih (hkind m text hm) entry hrest

theorem forall_mem_log {p : Entry → Prop}
    (h : ∀ (m : Machine) (text : List Char), ∀ entry ∈ (m.step text).log, p entry)
    (m : Machine) (texts : List (List Char)) : ∀ entry ∈ (m.runLines #[] texts).log, p entry :=
  forall_mem_log_of (K := fun _ => True) (fun _ _ _ => trivial) (fun m text _ => h m text)
    trivial texts

/-- What holds of all that lines report and of the end of a run holds of all that a run reports. -/
theorem forall_mem_log_run {p : Entry → Prop} {m : Machine} {script : Script}
    (h : ∀ entry ∈ (m.reset.runLines #[] script.lines).log, p entry)
    (hend : ∀ count, p ⟨.released count, []⟩) : ∀ entry ∈ (m.run script).log, p entry := by
  intro entry hentry
  rw [← Array.mem_toList_iff, run, Report.log_finish, List.mem_append] at hentry
  rcases hentry with hlines | hlast
  · exact h entry (Array.mem_toList_iff.mp hlines)
  · rw [List.mem_singleton.mp hlast]
    exact hend _

end Machine

end DequeMachine
