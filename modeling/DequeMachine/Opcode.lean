import DequeMachine.Value

/-!
# DequeMachine.Opcode

The instruction table: which words name an instruction, and the five that compute.

* `Opcode.all` lists the table in its order.
* `Opcode.ofName?` looks a word up; `Opcode.ofName?_name` says that it finds every opcode, and
  `Opcode.name_of_ofName?` that it finds nothing else.
-/

namespace DequeMachine

/-! ## Arithmetic -/

/-- The instructions that replace the first two values by one. -/
inductive Arith where
  | add
  | sub
  | div
  | mul
  | mod
deriving DecidableEq, Repr

namespace Arith

/-- The result for the second value and the first one, the right operand. -/
def eval : Arith → (second first : Value) → Value
  | add, s, f => s + f
  | sub, s, f => s - f
  | div, s, f => s / f
  | mul, s, f => s * f
  | mod, s, f => s % f

/-- Whether the right operand must not be zero. -/
def divides : Arith → Bool
  | div | mod => true
  | add | sub | mul => false

end Arith

/-! ## The table -/

/-- The instructions without their operands. -/
inductive Opcode where
  | push
  | pall
  | pint
  | pop
  | nop
  | swap
  | arith (op : Arith)
  | pchar
  | pstr
  | rotl
  | rotr
deriving DecidableEq, Repr

namespace Opcode

/-- Every opcode, in the order of the table. -/
def all : List Opcode :=
  [push, pall, pint, pop, nop, swap, arith .add, arith .sub, arith .div, arith .mul, arith .mod,
    pchar, pstr, rotl, rotr]

theorem mem_all (o : Opcode) : o ∈ all := by
  cases o with
  | arith op => cases op <;> decide
  | _ => decide

/-- The word that names an opcode in a program. -/
def name : Opcode → String
  | push => "push"
  | pall => "pall"
  | pint => "pint"
  | pop => "pop"
  | nop => "nop"
  | swap => "swap"
  | arith .add => "add"
  | arith .sub => "sub"
  | arith .div => "div"
  | arith .mul => "mul"
  | arith .mod => "mod"
  | pchar => "pchar"
  | pstr => "pstr"
  | rotl => "rotl"
  | rotr => "rotr"

/-- The opcode that a word names; case matters. -/
def ofName? (word : String) : Option Opcode := all.find? (·.name == word)

@[simp]
theorem ofName?_name (o : Opcode) : ofName? o.name = some o := by
  cases o with
  | arith op => cases op <;> decide
  | _ => decide

theorem name_of_ofName? {word : String} {o : Opcode} (h : ofName? word = some o) :
    o.name = word := by
  simpa using List.find?_some h

/-- The name of an opcode in a log. -/
def label : Opcode → String
  | push => "Push"
  | pall => "Pall"
  | pint => "Pint"
  | pop => "Pop"
  | nop => "Nop"
  | swap => "Swap"
  | arith .add => "Add"
  | arith .sub => "Sub"
  | arith .div => "Div"
  | arith .mul => "Mul"
  | arith .mod => "Modulo"
  | pchar => "Pchar"
  | pstr => "Pstr"
  | rotl => "Rotl"
  | rotr => "Rotr"

end Opcode

end DequeMachine
