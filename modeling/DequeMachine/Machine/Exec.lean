import DequeMachine.Deque.View
import DequeMachine.Error
import DequeMachine.Instruction
import DequeMachine.Machine.Basic

/-!
# DequeMachine.Machine.Exec

What one instruction does.

1. `Instruction.printed` is what it prints, which the values of the deque decide.
2. `Instruction.effect` is what it does to the deque.

No instruction does both.  `Machine.exec` prints first; an instruction that fails, or whose output
is refused, leaves the deque as it was.
-/

namespace DequeMachine

namespace Instruction

/-- The output of an instruction on a deque, or why it cannot print. -/
def printed (i : Instruction) (d : Deque) : Except ExecError (List UInt8) :=
  match i with
  | pall => .ok (d.values.flatMap Value.line)
  | pint =>
    match d.front? with
    | some v => .ok (Value.line v)
    | none => .error .pintEmpty
  | pchar =>
    match d.front? with
    | some v => if Value.isAscii v then .ok [Value.byte v, newline] else .error .pcharRange
    | none => .error .pcharEmpty
  | pstr => .ok ((d.values.takeWhile Value.isText).map Value.byte ++ [newline])
  | _ => .ok []

/-- The deque after an instruction, and why the instruction fails if it does. -/
def effect (limit : Nat) (mode : Mode) (i : Instruction) (d : Deque) : Option ExecError × Deque :=
  match i with
  | push v =>
    let (done, d) := match mode with
      | .stack => d.pushFront limit v
      | .queue => d.pushBack limit v
    (if done then none else some .outOfMemory, d)
  | pop =>
    let (v?, d) := d.popFront
    (if v?.isSome then none else some .popEmpty, d)
  | swap =>
    let (done, d) := d.swapFront
    (if done then none else some (.tooShort .swap), d)
  | arith op =>
    if op.divides && 2 ≤ d.size && d.front? == some 0 then
      (some .divisionByZero, d)
    else
      let (done, d) := d.combineFront op.eval
      (if done then none else some (.tooShort (.arith op)), d)
  | rotl => (none, d.rotateLeft)
  | rotr => (none, d.rotateRight)
  | _ => (none, d)

end Instruction

namespace Machine

/-- Executes an instruction; why it fails if it does, and the machine after it. -/
def exec (m : Machine) (i : Instruction) : Option ExecError × Machine :=
  -- The machine is taken apart first, so that its deque and its sink can change in place.
  match m with
  | ⟨limit, deque, mode, line, status, sink⟩ =>
    match i.printed deque with
    | .error e => (some e, ⟨limit, deque, mode, line, status, sink⟩)
    | .ok bytes =>
      match sink.write bytes with
      | (some f, sink) => (some (.output f), ⟨limit, deque, mode, line, status, sink⟩)
      | (none, sink) =>
        match i.effect limit mode deque with
        | (e?, deque) => (e?, ⟨limit, deque, mode, line, status, sink⟩)

end Machine

end DequeMachine
