/-!
# DequeMachine.Decimal

Decimal numerals: the digits of a natural number without leading zeros, and a minus sign before
those of a negative integer.
-/

namespace DequeMachine.Decimal

/-- The numeral of a natural number. -/
def ofNat (n : Nat) : List Char := Nat.toDigits 10 n

/-- The numeral of an integer. -/
def ofInt : Int → List Char
  | .ofNat n => ofNat n
  | .negSucc n => '-' :: ofNat (n + 1)

/-- The numeral of a natural number as a string. -/
def text (n : Nat) : String := String.ofList (ofNat n)

/-- Every numeral has a digit. -/
theorem ofNat_ne_nil (n : Nat) : ofNat n ≠ [] := Nat.toDigits_ne_nil

end DequeMachine.Decimal
