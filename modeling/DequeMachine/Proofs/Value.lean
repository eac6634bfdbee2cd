import Mathlib.Data.Int.ModEq
import DequeMachine.Instruction
import DequeMachine.Proofs.Text.Utf8

/-!
# DequeMachine.Proofs.Value

Values as the integers that they stand for: every integer is congruent to exactly one value modulo
`2 ^ 32`, arithmetic wraps the result on integers, a value is printed as the decimal text of its
integer, and a character code is the integer itself.
-/

namespace DequeMachine

namespace Arith

/-- The result for two integers: quotients are truncated toward zero, and a remainder has the sign
of the dividend. -/
def onInt : Arith → (second first : Int) → Int
  | add, s, f => s + f
  | sub, s, f => s - f
  | div, s, f => s.tdiv f
  | mul, s, f => s * f
  | mod, s, f => s.tmod f

theorem eval_eq_ofInt (op : Arith) (s f : Value) :
    op.eval s f = Int32.ofInt (op.onInt s.toInt f.toInt) := by
  cases op with
  | add | sub | mul => simp [eval, onInt]
  | div => rw [eval, onInt, ← Int32.toInt_inj, Int32.toInt_div, Int32.toInt_ofInt]
  | mod => rw [eval, onInt, ← Int32.toInt_mod, Int32.ofInt_toInt]

end Arith

namespace Value

/-! ## Residues -/

/-- The value of an integer is the one that is congruent to it. -/
theorem eq_ofInt_iff {v : Value} {n : Int} : v = .ofInt n ↔ v.toInt ≡ n [ZMOD 2 ^ 32] := by
  rw [eq_comm, Int32.ofInt_eq_iff_bmod_eq_toInt]
  constructor
  · intro h
    rw [← h]
    exact Int.bmod_emod
  · intro h
    have hmod : v.toInt % ((2 ^ 32 : Nat) : Int) = n % ((2 ^ 32 : Nat) : Int) := h
    rw [← Int.emod_bmod, ← hmod, Int.emod_bmod]
    exact v.toInt_bmod

theorem ofInt_eq_ofInt_iff {m n : Int} :
    Int32.ofInt m = Int32.ofInt n ↔ m ≡ n [ZMOD 2 ^ 32] := by
  have hm : (Int32.ofInt m).toInt ≡ m [ZMOD 2 ^ 32] := eq_ofInt_iff.mp rfl
  rw [eq_ofInt_iff]
  exact ⟨hm.symm.trans, hm.trans⟩

/-! ## Decimal text -/

/-- The decimal text of an integer as bytes, on a line of its own. -/
def numeral (v : Value) : List UInt8 := Utf8.encode (toString v.toInt).toList ++ [newline]

/-- The digits and the sign are those of the decimal text of the integer. -/
theorem decimal_eq_toString (v : Value) : decimal v = (toString v.toInt).toList := by
  rw [decimal, Int.toString_eq_repr, Int.repr_eq_if]
  cases v.toInt with
  | ofNat n => simp [Decimal.ofInt, Decimal.ofNat]
  | negSucc n =>
      have hn : (-Int.negSucc n).toNat = n + 1 := rfl
      rw [if_neg (by simp), String.toList_append, hn, Nat.toList_repr]
      rfl

theorem toNat_le_of_mem_decimal {v : Value} {c : Char} (hc : c ∈ decimal v) : c.toNat ≤ 127 := by
  have hdigit : ∀ {n : Nat}, c ∈ Decimal.ofNat n → c.toNat ≤ 127 := fun {n} h => by
    have hd := Char.isDigit_iff_toNat.mp (Nat.isDigit_of_mem_toDigits (by decide) (by decide) h)
    exact Nat.le_trans hd.2 (by decide)
  unfold decimal at hc
  cases hv : v.toInt with
  | ofNat n => exact hdigit (hv ▸ hc)
  | negSucc n =>
      rw [hv] at hc
      rcases List.mem_cons.mp hc with rfl | hc
      · decide
      · exact hdigit hc

/-- A value is printed as its integer. -/
theorem line_eq_numeral (v : Value) : line v = numeral v := by
  rw [line, numeral, ← decimal_eq_toString, Utf8.encode_of_ascii fun c => toNat_le_of_mem_decimal]

/-! ## Character codes -/

theorem isAscii_eq (v : Value) : isAscii v = decide (0 ≤ v.toInt ∧ v.toInt ≤ 127) := by
  rw [isAscii, Bool.decide_and]
  congr 1 <;> exact decide_eq_decide.mpr Int32.le_iff_toInt_le

theorem isText_eq (v : Value) : isText v = decide (0 < v.toInt ∧ v.toInt ≤ 127) := by
  rw [isText, Bool.decide_and]
  congr 1
  · exact decide_eq_decide.mpr Int32.lt_iff_toInt_lt
  · exact decide_eq_decide.mpr Int32.le_iff_toInt_le

theorem isText_iff {v : Value} : isText v = true ↔ 1 ≤ v.toInt ∧ v.toInt ≤ 127 := by
  rw [isText_eq, decide_eq_true_iff]
  exact Iff.rfl

/-- The codes that a printed string holds are codes of characters. -/
theorem code_of_isText {v : Value} (h : isText v = true) : 0 ≤ v.toInt ∧ v.toInt ≤ 127 := by
  obtain ⟨hfirst, hlast⟩ := isText_iff.mp h
  exact ⟨Int.le_trans (by decide) hfirst, hlast⟩

theorem byte_eq (v : Value) : byte v = v.toInt.toNat.toUInt8 := rfl

/-- The byte of a character code is the code itself. -/
theorem toNat_byte {v : Value} (h : 0 ≤ v.toInt ∧ v.toInt ≤ 127) :
    ((byte v).toNat : Int) = v.toInt := by
  rw [byte_eq, Utf8.toNat_toUInt8 (by omega), Int.toNat_of_nonneg h.1]

theorem byte_le {v : Value} (h : 0 ≤ v.toInt ∧ v.toInt ≤ 127) : byte v ≤ 127 := by
  have hbyte := toNat_byte h
  rw [UInt8.le_iff_toNat_le]
  change (byte v).toNat ≤ 127
  omega

theorem le_of_mem_line {v : Value} {b : UInt8} (hb : b ∈ line v) : b ≤ 127 := by
  rcases List.mem_append.mp hb with hb | hb
  · obtain ⟨c, hc, rfl⟩ := List.mem_map.mp hb
    have hle := toNat_le_of_mem_decimal hc
    rw [UInt8.le_iff_toNat_le, Utf8.toNat_toUInt8 hle]
    exact hle
  · rw [List.mem_singleton.mp hb]
    decide

end Value

end DequeMachine
