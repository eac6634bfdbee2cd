import DequeMachine.Lines
import DequeMachine.Machine.Basic
import DequeMachine.Proofs.Deque.BoundedList
import DequeMachine.Proofs.Value
import DequeMachine.Statement

/-!
# DequeMachine.Proofs.Machine.ListMachine

The meaning of a program without slots and links: a machine that keeps its values in a plain list.

1. It starts with the empty list as a stack and handles the lines in their order.
2. Values are computed as integers and wrapped, and printed as the decimal text of an integer.
3. An instruction either fails or yields its output and the list after it.
4. The first error stops the run on its line.
-/

namespace DequeMachine.ListMachine

/-- The list and the mode between two lines. -/
structure State where
  values : List Value
  mode : Mode
deriving DecidableEq, Repr

/-- The output of an instruction on a list, and the list after it, or why it fails. -/
def exec (limit : Nat) (mode : Mode) (vs : List Value) :
    Instruction → Except ExecError (List UInt8 × List Value)
  | .push v =>
    if vs.length = limit then .error .outOfMemory
    else match mode with
      | .stack => .ok ([], v :: vs)
      | .queue => .ok ([], vs ++ [v])
  | .pall => .ok (vs.flatMap Value.numeral, vs)
  | .pint =>
    match vs with
    | v :: _ => .ok (Value.numeral v, vs)
    | [] => .error .pintEmpty
  | .pop =>
    match vs with
    | _ :: rest => .ok ([], rest)
    | [] => .error .popEmpty
  | .nop => .ok ([], vs)
  | .swap =>
    match vs with
    | first :: second :: rest => .ok ([], second :: first :: rest)
    | _ => .error (.tooShort .swap)
  | .arith op =>
    match vs with
    | first :: second :: rest =>
      if op.divides ∧ first.toInt = 0 then .error .divisionByZero
      else .ok ([], Int32.ofInt (op.onInt second.toInt first.toInt) :: rest)
    | _ => .error (.tooShort (.arith op))
  | .pchar =>
    match vs with
    | v :: _ =>
      if 0 ≤ v.toInt ∧ v.toInt ≤ 127 then .ok ([v.toInt.toNat.toUInt8, newline], vs)
      else .error .pcharRange
    | [] => .error .pcharEmpty
  | .pstr =>
    let text := vs.takeWhile fun v => 0 < v.toInt ∧ v.toInt ≤ 127
    .ok (text.map (·.toInt.toNat.toUInt8) ++ [newline], vs)
  | .rotl => .ok ([], BoundedList.rotateLeft vs)
  | .rotr => .ok ([], BoundedList.rotateRight vs)

/-- The output of a statement, and the state after it, or why it fails. -/
def statement (limit : Nat) (s : State) : Statement → Except ExecError (List UInt8 × State)
  | .blank => .ok ([], s)
  | .comment => .ok ([], s)
  | .mode mode => .ok ([], { s with mode })
  | .instruction i =>
    (exec limit s.mode s.values i).map fun (output, values) => (output, { s with values })

/-- The output of a numbered line, and the state after it, or why it is an error. -/
def step (limit line : Nat) (s : State) (text : List Char) : Except Error (List UInt8 × State) :=
  match Statement.parse text with
  | .error e => .error (.parse line e)
  | .ok st => (statement limit s st).mapError (.exec line)

/-- What is seen of a run. -/
structure Outcome where
  error? : Option Error
  output : List UInt8
  mode : Mode
  /-- The number of lines read. -/
  line : Nat
deriving DecidableEq, Repr

namespace Outcome

/-- A run that has succeeded unless it has an error. -/
def status (o : Outcome) : Status := if o.error?.isNone then .finished else .failed

/-- A run that prints something before it goes on as `o`. -/
def after (output : List UInt8) (o : Outcome) : Outcome := { o with output := output ++ o.output }

end Outcome

/-- Handles lines up to the first error, where `line` lines have been read before. -/
def runLines (limit line : Nat) (s : State) : List (List Char) → Outcome
  | [] => ⟨none, [], s.mode, line⟩
  | text :: texts =>
    match step limit (line + 1) s text with
    | .error e => ⟨some e, [], s.mode, line + 1⟩
    | .ok (output, s) => (runLines limit (line + 1) s texts).after output

/-- Runs the program that a text holds. -/
def runText (limit : Nat) (source : String) : Outcome :=
  runLines limit 0 ⟨[], .stack⟩ (Lines.all '\n' '\r' source.toList)

-- The first five lines leave room for one more value, the sixth does not.
example : runText 2 "push 7\npush 5\nsub\npint\npush 1\npush 2" =
    ⟨some (.exec 6 .outOfMemory), [50, 10], .stack, 6⟩ := by
  cbv

end DequeMachine.ListMachine
