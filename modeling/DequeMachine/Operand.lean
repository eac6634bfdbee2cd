import DequeMachine.Value

/-!
# DequeMachine.Operand

The operand of a push: an optional minus sign and one or more decimal digits.  A number beyond the
range of `Value` wraps around.
-/

namespace DequeMachine.Operand

/-- Whether a text is one or more decimal digits. -/
def isNumeral (cs : List Char) : Bool := !cs.isEmpty && cs.all Char.isDigit

/-- The value of a decimal digit. -/
def digit (c : Char) : Value := Int32.ofNat (c.toNat - '0'.toNat)

/-- The value that a numeral stands for, modulo `2 ^ 32`. -/
def magnitude (cs : List Char) : Value := cs.foldl (fun v c => v * 10 + digit c) 0

/-- The value of an operand, `none` unless its text has the form of one. -/
def value? : List Char → Option Value
  | '-' :: cs => if isNumeral cs then some (-magnitude cs) else none
  | cs => if isNumeral cs then some (magnitude cs) else none

end DequeMachine.Operand
