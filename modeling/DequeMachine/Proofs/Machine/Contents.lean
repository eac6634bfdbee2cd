import DequeMachine.Proofs.Machine.Line
import DequeMachine.Proofs.Machine.Simulation

/-!
# DequeMachine.Proofs.Machine.Contents

The values that a machine holds, whatever its sink takes.

* `exec_holds`: an instruction leaves a list of values behind, whose length it changes by one if at
  all.
* `Machine.succeeded` lists the instructions that succeed when lines are run.  A machine always
  holds some list of values, and its length follows from these instructions: `step_holds` for one
  line and `runLines_holds` for any number of them.
-/

namespace DequeMachine

/-! ## Counting values -/

namespace Instruction

/-- Whether an instruction makes a value more. -/
def inserts : Instruction → Bool
  | push _ => true
  | _ => false

/-- Whether an instruction leaves a value less. -/
def removes : Instruction → Bool
  | pop | arith _ => true
  | _ => false

end Instruction

/-- The instruction that a line holds, if it does. -/
def Statement.instruction? (text : List Char) : Option Instruction :=
  match parse text with
  | .ok (.instruction i) => some i
  | _ => none

theorem Statement.instruction?_eq_some_iff {text : List Char} {i : Instruction} :
    instruction? text = some i ↔ parse text = .ok (.instruction i) := by
  unfold instruction?
  split
  · next j hparse => simp [hparse]
  · next hparse => simpa using hparse i

/-- The number of values changes by one, if at all. -/
theorem ListMachine.length_of_exec {limit : Nat} {mode : Mode} {vs vs' : List Value}
    {i : Instruction} {output : List UInt8} (h : exec limit mode vs i = .ok (output, vs')) :
    vs'.length + [i].countP Instruction.removes = vs.length + [i].countP Instruction.inserts := by
  cases i with
  | pall | pstr | nop =>
      obtain ⟨-, rfl⟩ := by simpa [exec] using h
      rfl
  | rotl =>
      obtain ⟨-, rfl⟩ := by simpa [exec] using h
      exact (BoundedList.rotateLeft_perm vs).length_eq
  | rotr =>
      obtain ⟨-, rfl⟩ := by simpa [exec] using h
      exact (BoundedList.rotateRight_perm vs).length_eq
  | push v =>
      by_cases hfull : vs.length = limit
      · simp [exec, hfull] at h
      · cases mode <;>
        · obtain ⟨-, rfl⟩ := by simpa [exec, hfull] using h
          simp [Instruction.inserts, Instruction.removes]
  | pint =>
      cases vs with
      | nil => simp [exec] at h
      | cons first rest =>
          obtain ⟨-, rfl⟩ := by simpa [exec] using h
          rfl
  | pchar =>
      cases vs with
      | nil => simp [exec] at h
      | cons first rest =>
          by_cases hcode : 0 ≤ first.toInt ∧ first.toInt ≤ 127
          · obtain ⟨-, rfl⟩ := by simpa [exec, hcode] using h
            rfl
          · simp [exec, hcode] at h
  | pop =>
      cases vs with
      | nil => simp [exec] at h
      | cons first rest =>
          obtain ⟨-, rfl⟩ := by simpa [exec] using h
          rfl
  | swap =>
      match vs with
      | [] | [_] => simp [exec] at h
      | first :: second :: rest =>
          obtain ⟨-, rfl⟩ := by simpa [exec] using h
          rfl
  | arith op =>
      match vs with
      | [] | [_] => simp [exec] at h
      | first :: second :: rest =>
          by_cases hzero : op.divides ∧ first.toInt = 0
          · simp [exec, hzero] at h
          · obtain ⟨-, rfl⟩ := by simpa [exec, hzero] using h
            rfl

variable {m : Machine} {vs : List Value} {i : Instruction} {text : List Char}

/-! ## Instructions -/

namespace Machine

/-- An instruction leaves a list of values behind, also if it fails. -/
theorem exec_holds (h : m.deque.Holds m.limit vs) (i : Instruction) :
    ∃ vs', (m.exec i).2.deque.Holds m.limit vs' ∧
      if (m.exec i).1.isSome then vs' = vs
      else vs'.length + [i].countP Instruction.removes =
        vs.length + [i].countP Instruction.inserts := by
  cases h.executes i with
  | fails _ eq => exact ⟨vs, by rw [eq]; exact h, by rw [eq]; exact rfl⟩
  | refused _ _ eq => exact ⟨vs, by rw [eq]; exact h, by rw [eq]; exact rfl⟩
  | succeeds onList _ holds eq =>
      exact ⟨_, by rw [eq]; exact holds, by rw [eq]; exact ListMachine.length_of_exec onList⟩

/-! ## Lines -/

/-- Any line but an instruction leaves the deque as it is. -/
theorem deque_step (h : ∀ i, Statement.parse text ≠ .ok (.instruction i)) :
    (m.step text).machine.deque = m.deque := by
  rw [step_eq]
  split
  · rfl
  · rfl
  · rfl
  · rfl
  · next i hparse => exact absurd hparse (h i)

/-- The instructions that succeed when lines are run. -/
def succeeded (m : Machine) : List (List Char) → List Instruction
  | [] => []
  | text :: texts =>
    if (m.step text).error?.isSome then []
    else (Statement.instruction? text).toList ++ (m.step text).machine.succeeded texts

theorem succeeded_cons_of_error {e : Error} (h : (m.step text).error? = some e)
    (texts : List (List Char)) : m.succeeded (text :: texts) = [] := by
  simp [succeeded, h]

theorem succeeded_cons_of_none (h : (m.step text).error? = none) (texts : List (List Char)) :
    m.succeeded (text :: texts) =
      m.succeeded [text] ++ (m.step text).machine.succeeded texts := by
  simp [succeeded, h]

/-- A line leaves a list of values behind, whose length tells what the line has done. -/
theorem step_holds (h : m.deque.Holds m.limit vs) (text : List Char) :
    ∃ vs', (m.step text).machine.deque.Holds m.limit vs' ∧
      vs'.length + (m.succeeded [text]).countP Instruction.removes =
        vs.length + (m.succeeded [text]).countP Instruction.inserts := by
  cases hi : Statement.instruction? text with
  | none =>
      have hparse : ∀ i, Statement.parse text ≠ .ok (.instruction i) := fun i hparse => by
        simp [Statement.instruction?_eq_some_iff.mpr hparse] at hi
      refine ⟨vs, by rw [deque_step hparse]; exact h, ?_⟩
      simp [succeeded, hi]
  | some i =>
      have hstep := step_of_instruction (m := m) (Statement.instruction?_eq_some_iff.mp hi)
      obtain ⟨vs', hvs', hlength⟩ := exec_holds (m := m.next) h i
      refine ⟨vs', by rw [hstep]; exact hvs', ?_⟩
      cases hexec : (m.next.exec i).1 with
      | some cause =>
          rw [hexec] at hlength
          obtain rfl : vs' = vs := hlength
          simp [succeeded, hstep, execAt, hexec]
      | none =>
          have hdone : m.succeeded [text] = [i] := by simp [succeeded, hstep, execAt, hexec, hi]
          rw [hexec] at hlength
          rw [hdone]
          exact hlength

/-- Lines leave a list of values behind, as long as the instructions that succeed make it. -/
theorem runLines_holds (h : m.deque.Holds m.limit vs) (texts : List (List Char)) :
    ∃ vs', (m.runLines #[] texts).machine.deque.Holds m.limit vs' ∧
      vs'.length + (m.succeeded texts).countP Instruction.removes =
        vs.length + (m.succeeded texts).countP Instruction.inserts := by
  induction texts generalizing m vs with
  | nil => exact ⟨vs, h, rfl⟩
  | cons text texts ih =>
      obtain ⟨vs', hvs', hfirst⟩ := step_holds h text
      cases hstep : (m.step text).error? with
      | some e =>
          rw [runLines_cons_of_error hstep, succeeded_cons_of_error hstep]
          rw [succeeded_cons_of_error hstep] at hfirst
          exact ⟨vs', hvs', hfirst⟩
      | none =>
          have hlimit := (step_frame m text).1
          obtain ⟨vs'', hvs'', hrest⟩ := ih (m := (m.step text).machine) (by rwa [hlimit])
          rw [runLines_cons_of_none hstep, succeeded_cons_of_none hstep]
          refine ⟨vs'', by rwa [hlimit] at hvs'', ?_⟩
          rw [List.countP_append, List.countP_append]
          omega

theorem exists_holds (h : m.deque.Holds m.limit vs) (texts : List (List Char)) :
    let q := m.runLines #[] texts
    ∃ vs', q.machine.deque.Holds q.machine.limit vs' := by
  obtain ⟨vs', hvs', -⟩ := runLines_holds h texts
  exact ⟨vs', by rwa [runLines_limit]⟩

end Machine

end DequeMachine
