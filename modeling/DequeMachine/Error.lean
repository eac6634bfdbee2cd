import DequeMachine.Decimal
import DequeMachine.Fault
import DequeMachine.Opcode

/-!
# DequeMachine.Error

The errors that end a run, as causes, and their messages.

* `ParseError`: a line is no statement.
* `ExecError`: an instruction fails, or printing does.
* `ReadError`: the next line cannot be read.
* `Error`: one of the three, with the number of the line it belongs to; a line that cannot be read
  has no number.
-/

namespace DequeMachine

/-! ## Causes -/

/-- Why a line is no statement. -/
inductive ParseError where
  /-- The first word names no instruction. -/
  | unknownInstruction (word : String)
  /-- The operand that an instruction takes is missing or has another form. -/
  | invalidOperand (opcode : Opcode)
deriving DecidableEq, Repr

/-- Why an instruction fails. -/
inductive ExecError where
  /-- There is no room for another node. -/
  | outOfMemory
  /-- There is no value to print as a number. -/
  | pintEmpty
  /-- There is no value to remove. -/
  | popEmpty
  /-- An instruction on two values finds fewer. -/
  | tooShort (opcode : Opcode)
  /-- The right operand of a division is zero. -/
  | divisionByZero
  /-- The value to print as a character is not the code of one. -/
  | pcharRange
  /-- There is no value to print as a character. -/
  | pcharEmpty
  /-- The output was refused. -/
  | output (fault : Fault)
deriving DecidableEq, Repr

/-- Why a line cannot be read. -/
inductive ReadError where
  /-- The stream failed. -/
  | stream (fault : Fault)
  /-- The bytes of the line are not UTF-8. -/
  | notUtf8
deriving DecidableEq, Repr

/-- An error that ends a run. -/
inductive Error where
  | parse (line : Nat) (cause : ParseError)
  | exec (line : Nat) (cause : ExecError)
  | read (cause : ReadError)
deriving DecidableEq, Repr

/-! ## Texts -/

/-- The description of a parse error. -/
def ParseError.text : ParseError → String
  | unknownInstruction word => "unknown instruction " ++ word
  | invalidOperand opcode => "usage: " ++ opcode.name ++ " integer"

/-- The description of an execution error. -/
def ExecError.text : ExecError → String
  | outOfMemory => "malloc failed"
  | pintEmpty => "can't pint, stack empty"
  | popEmpty => "can't pop an empty stack"
  | tooShort opcode => "can't " ++ opcode.name ++ ", stack too short"
  | divisionByZero => "division by zero"
  | pcharRange => "can't pchar, value out of range"
  | pcharEmpty => "can't pchar, stack empty"
  | output fault => "output error: " ++ fault.text

/-- The description of a read error. -/
def ReadError.text : ReadError → String
  | stream fault => fault.text
  | notUtf8 => "stream did not contain valid UTF-8"

namespace Error

/-- The line an error belongs to. -/
def line? : Error → Option Nat
  | parse line _ => some line
  | exec line _ => some line
  | read _ => none

/-- The description of the cause alone. -/
def reason : Error → String
  | parse _ cause => cause.text
  | exec _ cause => cause.text
  | read cause => cause.text

/-- The message to show: the description of the cause after the number of the line.  Where a read
fails or memory runs out, the word `Error` stands for the line. -/
def message : Error → String
  | exec _ .outOfMemory => "Error: " ++ ExecError.outOfMemory.text
  | exec line cause => "L" ++ Decimal.text line ++ ": " ++ cause.text
  | parse line cause => "L" ++ Decimal.text line ++ ": " ++ cause.text
  | read cause => "Error: " ++ cause.text

end Error

end DequeMachine
