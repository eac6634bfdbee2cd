import DequeMachine.Opcode

/-!
# DequeMachine.Instruction

Instructions as a program executes them: an opcode with its operand.  Only a push has one.
-/

namespace DequeMachine

/-- An instruction with its operand. -/
inductive Instruction where
  /-- Inserts a value: at the head of a stack, at the tail of a queue. -/
  | push (value : Value)
  /-- Prints all values from head to tail, one a line. -/
  | pall
  /-- Prints the head value on a line. -/
  | pint
  /-- Removes the head. -/
  | pop
  /-- Does nothing. -/
  | nop
  /-- Exchanges the first two nodes. -/
  | swap
  /-- Replaces the first two values by one. -/
  | arith (op : Arith)
  /-- Prints the character whose code the head is, on a line. -/
  | pchar
  /-- Prints the characters whose codes start the deque, on a line. -/
  | pstr
  /-- Moves the head to the tail. -/
  | rotl
  /-- Moves the tail to the head. -/
  | rotr
deriving DecidableEq, Repr

namespace Instruction

/-- The opcode of an instruction. -/
def opcode : Instruction → Opcode
  | push _ => .push
  | pall => .pall
  | pint => .pint
  | pop => .pop
  | nop => .nop
  | swap => .swap
  | arith op => .arith op
  | pchar => .pchar
  | pstr => .pstr
  | rotl => .rotl
  | rotr => .rotr

/-- The operand of an instruction. -/
def operand? : Instruction → Option Value
  | push v => some v
  | _ => none

/-- The instruction of an opcode and an operand, `none` if the opcode takes an operand and there is
none.  An opcode that takes none ignores it. -/
def ofOpcode? : Opcode → Option Value → Option Instruction
  | .push, operand => operand.map push
  | .pall, _ => some pall
  | .pint, _ => some pint
  | .pop, _ => some pop
  | .nop, _ => some nop
  | .swap, _ => some swap
  | .arith op, _ => some (arith op)
  | .pchar, _ => some pchar
  | .pstr, _ => some pstr
  | .rotl, _ => some rotl
  | .rotr, _ => some rotr

/-- An instruction is that of its opcode and its operand. -/
@[simp]
theorem ofOpcode?_opcode (i : Instruction) : ofOpcode? i.opcode i.operand? = some i := by
  cases i <;> rfl

/-- The text of an instruction in a log: the name of its opcode, the operand in parentheses. -/
def label (i : Instruction) : String :=
  match i.operand? with
  | some v => i.opcode.label ++ "(" ++ Value.text v ++ ")"
  | none => i.opcode.label

end Instruction

end DequeMachine
