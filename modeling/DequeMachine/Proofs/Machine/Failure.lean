import DequeMachine.Proofs.Deque.History
import DequeMachine.Proofs.Machine.Contents

/-!
# DequeMachine.Proofs.Machine.Failure

When an instruction fails, and what it leaves then.

* `Instruction.Fails` lists the reasons, from the values of the deque alone.
* `ListMachine.exec_eq_error_iff`: on a list, these are the failures.
* `Machine.exec_eq_some_iff`: so they are on a machine whose sink takes everything.
* `Machine.exec_of_some`: whatever the sink takes, an instruction that fails changes nothing but the
  sink, and that only if the sink refuses its output.
-/

namespace DequeMachine

/-- Why an instruction fails where the values are `vs` and there may be `limit` of them. -/
inductive Instruction.Fails (limit : Nat) (vs : List Value) : Instruction → ExecError → Prop where
  /-- There is no room for another value. -/
  | full (v : Value) : vs.length = limit → Fails limit vs (.push v) .outOfMemory
  /-- There is no value to print as a number. -/
  | noNumber : vs = [] → Fails limit vs .pint .pintEmpty
  /-- There is no value to remove. -/
  | noHead : vs = [] → Fails limit vs .pop .popEmpty
  /-- There is no value to print as a character. -/
  | noCharacter : vs = [] → Fails limit vs .pchar .pcharEmpty
  /-- The first value is not the code of a character. -/
  | noCode {first : Value} : vs.head? = some first → ¬(0 ≤ first.toInt ∧ first.toInt ≤ 127) →
      Fails limit vs .pchar .pcharRange
  /-- There are not two values to exchange. -/
  | noPair : vs.length < 2 → Fails limit vs .swap (.tooShort .swap)
  /-- There are not two values to compute with, also if the only one is zero. -/
  | noOperands (op : Arith) : vs.length < 2 → Fails limit vs (.arith op) (.tooShort (.arith op))
  /-- The divisor is zero. -/
  | noQuotient {op : Arith} : op = .div ∨ op = .mod → 2 ≤ vs.length →
      vs.head? = some 0 → Fails limit vs (.arith op) .divisionByZero

/-! ## On lists -/

theorem Arith.divides_iff {op : Arith} : op.divides = true ↔ op = .div ∨ op = .mod := by
  cases op <;> decide

namespace ListMachine

variable {limit : Nat} {mode : Mode} {vs : List Value} {i : Instruction} {e : ExecError}

theorem exec_of_fails (h : i.Fails limit vs e) : exec limit mode vs i = .error e := by
  cases h with
  | full v hfull => simp [exec, hfull]
  | noNumber hvs | noHead hvs | noCharacter hvs => simp [exec, hvs]
  | noCode hfirst hcode =>
      obtain ⟨rest, rfl⟩ := List.head?_eq_some_iff.mp hfirst
      simp [exec, hcode]
  | noPair hshort | noOperands op hshort =>
      rcases vs with _ | ⟨first, _ | ⟨second, rest⟩⟩
      · rfl
      · rfl
      · rw [List.length_cons, List.length_cons] at hshort
        omega
  | noQuotient hop hlong hfirst =>
      obtain ⟨rest, rfl⟩ := List.head?_eq_some_iff.mp hfirst
      cases rest with
      | nil => simp at hlong
      | cons second rest => simp [exec, Arith.divides_iff.mpr hop]

theorem fails_of_exec (h : exec limit mode vs i = .error e) : i.Fails limit vs e := by
  cases i with
  | pall | pstr | nop | rotl | rotr => simp [exec] at h
  | push v =>
      by_cases hfull : vs.length = limit
      · obtain rfl : ExecError.outOfMemory = e := by simpa [exec, hfull] using h
        exact .full v hfull
      · cases mode <;> simp [exec, hfull] at h
  | pint =>
      cases vs with
      | nil =>
          obtain rfl : ExecError.pintEmpty = e := by simpa [exec] using h
          exact .noNumber rfl
      | cons first rest => simp [exec] at h
  | pop =>
      cases vs with
      | nil =>
          obtain rfl : ExecError.popEmpty = e := by simpa [exec] using h
          exact .noHead rfl
      | cons first rest => simp [exec] at h
  | pchar =>
      cases vs with
      | nil =>
          obtain rfl : ExecError.pcharEmpty = e := by simpa [exec] using h
          exact .noCharacter rfl
      | cons first rest =>
          by_cases hcode : 0 ≤ first.toInt ∧ first.toInt ≤ 127
          · simp [exec, hcode] at h
          · obtain rfl : ExecError.pcharRange = e := by simpa [exec, hcode] using h
            exact .noCode rfl hcode
  | swap =>
      rcases vs with _ | ⟨first, _ | ⟨second, rest⟩⟩
      iterate 2
        obtain rfl : ExecError.tooShort .swap = e := by simpa [exec] using h
        exact .noPair (by simp)
      simp [exec] at h
  | arith op =>
      rcases vs with _ | ⟨first, _ | ⟨second, rest⟩⟩
      iterate 2
        obtain rfl : ExecError.tooShort (.arith op) = e := by simpa [exec] using h
        exact .noOperands op (by simp)
      by_cases hzero : op.divides ∧ first.toInt = 0
      · obtain rfl : ExecError.divisionByZero = e := by simpa [exec, hzero] using h
        have hfirst : first = 0 := Int32.toInt_inj.mp hzero.2
        exact .noQuotient (Arith.divides_iff.mp hzero.1) (by simp) (by simp [hfirst])
      · simp [exec, hzero] at h

theorem exec_eq_error_iff : exec limit mode vs i = .error e ↔ i.Fails limit vs e :=
  ⟨fails_of_exec, exec_of_fails⟩

end ListMachine

/-! ## On machines -/

/-- The instructions that only print, and the one that does nothing, leave the deque as it is. -/
theorem Instruction.effect_of_mem {i : Instruction} (h : i ∈ [pall, pint, pchar, pstr, nop])
    (limit : Nat) (mode : Mode) (d : Deque) : i.effect limit mode d = (none, d) := by
  simp only [List.mem_cons, List.not_mem_nil, or_false] at h
  rcases h with rfl | rfl | rfl | rfl | rfl <;> rfl

namespace Machine

variable {m : Machine} {vs : List Value} {i : Instruction} {e : ExecError}

/-- With a sink that takes everything, an instruction fails as on the list of the values. -/
theorem exec_eq_some_iff (h : m.deque.Holds m.limit vs) (hsink : m.sink.capacity? = none) :
    (m.exec i).1 = some e ↔ i.Fails m.limit vs e := by
  have hlist : ListMachine.exec m.limit m.mode vs i = .error e ↔ i.Fails m.limit vs e :=
    ListMachine.exec_eq_error_iff
  rw [← hlist]
  cases h.executes i with
  | fails onList eq => simp [onList, eq]
  | refused _ refusal _ => simp [Sink.refusal?, hsink] at refusal
  | succeeds onList _ _ eq => simp [onList, eq]

/-- An instruction that fails changes nothing but the sink, and that only if the sink is why. -/
theorem exec_of_some (h : m.deque.Holds m.limit vs) (he : (m.exec i).1 = some e) :
    (m.exec i).2 = m.withSink (m.exec i).2.sink ∧
      ((∀ f, e ≠ .output f) → (m.exec i).2.sink = m.sink) := by
  cases h.executes i with
  | fails _ eq =>
      rw [eq]
      exact ⟨rfl, fun _ => rfl⟩
  | @refused _ _ f _ _ eq =>
      rw [eq] at he ⊢
      exact ⟨rfl, fun hf => absurd (Option.some.inj he).symm (hf f)⟩
  | succeeds _ _ _ eq =>
      rw [eq] at he
      simp at he

/-- Printing changes nothing but the sink. -/
theorem exec_of_mem (m : Machine) (h : i ∈ [.pall, .pint, .pchar, .pstr, .nop]) :
    (m.exec i).2 = m.withSink (m.exec i).2.sink := by
  cases hprinted : i.printed m.deque with
  | error e => rw [exec_of_printed_error hprinted]; rfl
  | ok bytes =>
      cases hf : m.sink.refusal? bytes with
      | some f => rw [exec_of_refused hprinted hf]; rfl
      | none => rw [exec_of_accepted hprinted hf, i.effect_of_mem h]; rfl

/-- On a deque that any operations have made, an instruction fails exactly where its precondition
does not hold, and the error names its line, if the sink takes everything.  With any sink, an
instruction that fails leaves everything but the sink as it was, and the sink too unless the error
is that of the sink; so does an instruction that only prints when it succeeds. -/
theorem execAt_eq_some_iff {ops : List Deque.Op} (hops : m.deque = Deque.applyAll m.limit ∅ ops)
    (line : Nat) (i : Instruction) :
    let r := m.execAt line i
    (m.sink.capacity? = none → ∀ error,
      r.1 = some error ↔ ∃ e, i.Fails m.limit m.deque.values e ∧ error = .exec line e) ∧
    (∀ error, r.1 = some error →
      r.2 = m.withSink r.2.sink ∧ ((∀ f, error ≠ .exec line (.output f)) → r.2.sink = m.sink)) ∧
    (i ∈ [.pall, .pint, .pchar, .pstr, .nop] → r.2 = m.withSink r.2.sink) := by
  intro r
  have hm : m.deque.Holds m.limit m.deque.values := by
    have hholds := (Deque.Holds.empty m.limit).applyAll ops
    rw [hops, hholds.values]
    exact hholds
  have hr : ∀ {error}, r.1 = some error ↔ ∃ e, (m.exec i).1 = some e ∧ .exec line e = error :=
    Option.map_eq_some_iff
  refine ⟨fun hsink error => ?_, fun error herror => ?_, exec_of_mem m⟩
  · simp only [hr, exec_eq_some_iff hm hsink, eq_comm]
  · obtain ⟨e, he, rfl⟩ := hr.mp herror
    obtain ⟨hframe, hsink⟩ := exec_of_some hm he
    exact ⟨hframe, fun hf => hsink fun f hef => hf f (by rw [hef])⟩

/-- A division of 8 by 0 on line 3, and a number that does not fit into the sink. -/
theorem execAt_eq_some_iff_division :
    let m : Machine :=
      ⟨2, Deque.applyAll 2 ∅ [.pushBack 0, .pushBack 8], .queue, 2, .ready, .unlimited⟩
    let full := m.withSink ⟨some ⟨1, Fault.brokenPipe⟩, none, #[], #[]⟩
    (m.execAt 3 (.arith .div)).1 = some (.exec 3 .divisionByZero) ∧
      (m.execAt 3 (.arith .div)).2 = m ∧
      (full.execAt 3 .pint).1 = some (.exec 3 (.output .brokenPipe)) ∧
      (full.execAt 3 .pint).2 = full.withSink (full.execAt 3 .pint).2.sink ∧
      (m.execAt 3 .pint).2 = m.withSink (m.execAt 3 .pint).2.sink := by
  intro m full
  have hm : m.deque = Deque.applyAll m.limit ∅ [.pushBack 0, .pushBack 8] := rfl
  have hfull : full.deque = Deque.applyAll full.limit ∅ [.pushBack 0, .pushBack 8] := rfl
  obtain ⟨hiff, hkeeps, -⟩ := execAt_eq_some_iff hm 3 (.arith .div)
  have hzero : (m.execAt 3 (.arith .div)).1 = some (.exec 3 .divisionByZero) :=
    (hiff rfl _).mpr ⟨_, .noQuotient (.inl rfl) (by decide) (by decide), rfl⟩
  have hrefused : (full.execAt 3 .pint).1 = some (.exec 3 (.output .brokenPipe)) := by decide
  obtain ⟨hsame, hsink⟩ := hkeeps _ hzero
  refine ⟨hzero, ?_, hrefused, ?_, ?_⟩
  · rw [hsame, hsink (by simp)]
    rfl
  · exact ((execAt_eq_some_iff hfull 3 .pint).2.1 _ hrefused).1
  · exact (execAt_eq_some_iff hm 3 .pint).2.2 (by simp)

end Machine

end DequeMachine
