import DequeMachine.Operand

/-!
# DequeMachine.Proofs.Statement.Operand

Operands as the integers that they write.

* `Writes`: the texts of integers, with a sign and in decimal.
* `value?_eq_some_iff`: exactly these texts are operands, and the value is the integer wrapped.
-/

namespace DequeMachine.Operand

/-- The text `cs` is one or more decimal digits. -/
structure Digits (cs : List Char) : Prop where
  ne_nil : cs ≠ []
  isDigit : ∀ c ∈ cs, c.isDigit = true

/-- The text writes the integer: decimal digits, after a minus sign if there is one. -/
inductive Writes : List Char → Int → Prop
  | unsigned {ds : List Char} : Digits ds → Writes ds (Nat.ofDigitChars 10 ds 0)
  | negative {ds : List Char} : Digits ds → Writes ('-' :: ds) (-Nat.ofDigitChars 10 ds 0)

/-- The numeral of an integer writes it. -/
theorem writes_ofInt (n : Int) : Writes (Decimal.ofInt n) n := by
  have hdigits : ∀ n, Digits (Decimal.ofNat n) := fun n =>
    ⟨Decimal.ofNat_ne_nil n, fun _ => Nat.isDigit_of_mem_toDigits (by decide) (by decide)⟩
  cases n with
  | ofNat n =>
      have hn : Nat.ofDigitChars 10 (Decimal.ofNat n) 0 = n := Nat.ofDigitChars_ten_toDigits
      have hwrites := Writes.unsigned (hdigits n)
      rwa [hn] at hwrites
  | negSucc n =>
      have hn : Nat.ofDigitChars 10 (Decimal.ofNat (n + 1)) 0 = n + 1 :=
        Nat.ofDigitChars_ten_toDigits
      have hwrites := Writes.negative (hdigits (n + 1))
      rwa [hn] at hwrites

theorem isNumeral_iff {cs : List Char} : isNumeral cs = true ↔ Digits cs := by
  rw [isNumeral, Bool.and_eq_true, Bool.not_eq_true', List.isEmpty_eq_false_iff, List.all_eq_true]
  exact ⟨fun h => ⟨h.1, h.2⟩, fun h => ⟨h.ne_nil, h.isDigit⟩⟩

/-- Digits are added up modulo `2 ^ 32`, whatever was read before. -/
theorem foldl_digit_eq_ofNat (cs : List Char) (n : Nat) :
    cs.foldl (fun v c => v * 10 + digit c) (Int32.ofNat n) =
      Int32.ofNat (Nat.ofDigitChars 10 cs n) := by
  induction cs generalizing n with
  | nil => rfl
  | cons c cs ih =>
      have hstep : Int32.ofNat n * 10 + digit c =
          Int32.ofNat (10 * n + (c.toNat - '0'.toNat)) := by
        rw [Int32.ofNat_add, Int32.ofNat_mul, Int32.mul_comm]
        rfl
      rw [List.foldl_cons, hstep, ih, Nat.ofDigitChars_cons]

theorem magnitude_eq_ofInt (cs : List Char) :
    magnitude cs = Int32.ofInt (Nat.ofDigitChars 10 cs 0) := by
  rw [Int32.ofInt_eq_ofNat]
  exact foldl_digit_eq_ofNat cs 0

theorem value?_of_digits {ds : List Char} (h : Digits ds) :
    value? ds = some (.ofInt (Nat.ofDigitChars 10 ds 0)) := by
  have hnum := isNumeral_iff.mpr h
  unfold value?
  split
  · -- A sign is no digit.
    exact absurd (h.isDigit '-' List.mem_cons_self) (by decide)
  · rw [if_pos hnum, magnitude_eq_ofInt]

theorem value?_of_writes {cs : List Char} {n : Int} (h : Writes cs n) :
    value? cs = some (.ofInt n) := by
  cases h with
  | unsigned h => exact value?_of_digits h
  | negative h =>
      rw [Int32.ofInt_neg, ← magnitude_eq_ofInt]
      exact if_pos (isNumeral_iff.mpr h)

theorem writes_of_value? {cs : List Char} {v : Value} (h : value? cs = some v) :
    ∃ n, Writes cs n := by
  unfold value? at h
  split at h
  · have hnum := (Option.ite_none_right_eq_some.mp h).1
    exact ⟨_, .negative (isNumeral_iff.mp hnum)⟩
  · have hnum := (Option.ite_none_right_eq_some.mp h).1
    exact ⟨_, .unsigned (isNumeral_iff.mp hnum)⟩

/-- A text is an operand exactly if it writes an integer, and its value is that integer. -/
theorem value?_eq_some_iff {cs : List Char} {v : Value} :
    value? cs = some v ↔ ∃ n, Writes cs n ∧ v = .ofInt n := by
  constructor
  · intro h
    obtain ⟨n, hn⟩ := writes_of_value? h
    exact ⟨n, hn, Option.some.inj (h.symm.trans (value?_of_writes hn))⟩
  · rintro ⟨n, hn, rfl⟩
    exact value?_of_writes hn

theorem value?_eq_none_iff {cs : List Char} : value? cs = none ↔ ∀ n, ¬Writes cs n := by
  rw [Option.eq_none_iff_forall_ne_some]
  constructor
  · intro h n hn
    exact h _ (value?_of_writes hn)
  · intro h v hv
    obtain ⟨n, hn⟩ := writes_of_value? hv
    exact h n hn

end DequeMachine.Operand
