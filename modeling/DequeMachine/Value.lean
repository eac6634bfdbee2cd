import DequeMachine.Decimal

/-!
# DequeMachine.Value

The numbers a program computes with, and how they are printed.

* `Value` is a signed 32-bit word.  Sums, differences and products wrap modulo `2 ^ 32`; quotients
  are truncated toward zero and remainders take the sign of the dividend.
* `Value.line` prints a value as a line of output.
* `Value.byte` is the output byte of a value that is the code of an ASCII character.
-/

namespace DequeMachine

/-- A signed 32-bit word with wrapping arithmetic. -/
abbrev Value := Int32

/-- The byte that ends a line. -/
def newline : UInt8 := 10

namespace Value

/-! ## Decimal text -/

/-- The decimal numeral of a value. -/
def decimal (v : Value) : List Char := Decimal.ofInt v.toInt

/-- The decimal numeral of a value as a string. -/
def text (v : Value) : String := String.ofList (decimal v)

/-- The output bytes of a value on a line of its own. -/
def line (v : Value) : List UInt8 := (decimal v).map (fun c => c.toNat.toUInt8) ++ [newline]

theorem line_ne_nil (v : Value) : line v ≠ [] := by simp [line]

/-! ## Character codes -/

/-- The codes of the ASCII characters are 0 to 127. -/
def isAscii (v : Value) : Bool := 0 ≤ v && v ≤ 127

/-- The codes that a printed string holds: those of ASCII but 0, which ends a string. -/
def isText (v : Value) : Bool := 0 < v && v ≤ 127

/-- The byte of a character code. -/
def byte (v : Value) : UInt8 := v.toNatClampNeg.toUInt8

end Value

end DequeMachine
