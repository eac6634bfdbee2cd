import DequeMachine.Proofs.Statement.Grammar
import DequeMachine.Proofs.Value

/-!
# DequeMachine.Proofs.Statement.Residue

Operands as residues modulo `2 ^ 32`.

The value of an operand is the one that is congruent to the written integer, however long the numeral
is, and two lines push the same value exactly if they write congruent integers:
`Operand.value?_iff_modEq`.
-/

namespace DequeMachine

/-! ## Operands -/

namespace Operand

variable {w w' : List Char} {n n' : Int}

/-- A text that writes an integer is digits, after one minus sign or none. -/
theorem exists_writes_iff : (∃ n, Writes w n) ↔ ∃ ds, Digits ds ∧ (w = ds ∨ w = '-' :: ds) := by
  constructor
  · rintro ⟨n, hn⟩
    cases hn with
    | unsigned h => exact ⟨w, h, .inl rfl⟩
    | @negative ds h => exact ⟨ds, h, .inr rfl⟩
  · rintro ⟨ds, h, rfl | rfl⟩
    · exact ⟨_, .unsigned h⟩
    · exact ⟨_, .negative h⟩

theorem isSome_value?_iff : (value? w).isSome = true ↔ ∃ n, Writes w n := by
  rw [Option.isSome_iff_exists]
  constructor
  · rintro ⟨v, hv⟩
    exact writes_of_value? hv
  · rintro ⟨n, hn⟩
    exact ⟨_, value?_of_writes hn⟩

end Operand

/-- A line whose first two words are `push` and a text that writes an integer. -/
theorem Statement.parse_push {text w : List Char} {n : Int}
    (h : (words text).take 2 = ["push".toList, w]) (hn : Operand.Writes w n) :
    parse text = .ok (.instruction (.push (.ofInt n))) :=
  parse_of_says ((Says.push [] hn).congr h)

/-- A word is an operand exactly if it is digits, after one minus sign or none.  Its value is then
the one that is congruent modulo `2 ^ 32` to the integer that it writes.  So two lines push the same
value exactly if their integers are congruent. -/
theorem Operand.value?_iff_modEq (w : List Char) :
    ((value? w).isSome = true ↔ ∃ ds, Digits ds ∧ (w = ds ∨ w = '-' :: ds)) ∧
      ∀ n, Writes w n →
        (∀ v : Value, value? w = some v ↔ v.toInt ≡ n [ZMOD 2 ^ 32]) ∧
        ∀ w' n', Writes w' n' → ∀ text text',
          (words text).take 2 = ["push".toList, w] → (words text').take 2 = ["push".toList, w'] →
          (Statement.parse text = Statement.parse text' ↔ n ≡ n' [ZMOD 2 ^ 32]) := by
  refine ⟨isSome_value?_iff.trans exists_writes_iff, fun n hn => ⟨fun v => ?_, ?_⟩⟩
  · rw [value?_of_writes hn, Option.some_inj, eq_comm, Value.eq_ofInt_iff]
  · intro w' n' hn' text text' htext htext'
    rw [Statement.parse_push htext hn, Statement.parse_push htext' hn', ← Value.ofInt_eq_ofInt_iff]
    simp

/-- A numeral that wraps twice, the least value without its sign, and a zero with one. -/
theorem Operand.value?_iff_modEq_wrapped :
    let text := "push 010737418240".toList
    let text' := "\tpush -2147483648 x".toList
    Writes "010737418240".toList 10737418240 ∧ Writes "-2147483648".toList (-2147483648) ∧
      value? "010737418240".toList = some (-2147483648) ∧
      Statement.parse text = Statement.parse text' ∧
      value? "-0".toList = some 0 ∧ value? "--1".toList = none := by
  intro text text'
  have hwrites : Writes "010737418240".toList 10737418240 :=
    .unsigned (isNumeral_iff.mp (by decide))
  have hleast : Writes "-2147483648".toList (-2147483648) :=
    .negative (isNumeral_iff.mp (by decide))
  have hzero : Writes "-0".toList 0 := .negative (isNumeral_iff.mp (by decide))
  obtain ⟨hvalue, hlines⟩ := (value?_iff_modEq "010737418240".toList).2 _ hwrites
  refine ⟨hwrites, hleast, (hvalue _).mpr (by decide), ?_, ?_, ?_⟩
  · exact (hlines _ _ hleast text text' (by decide) (by decide)).mpr (by decide)
  · exact (((value?_iff_modEq "-0".toList).2 _ hzero).1 0).mpr (by decide)
  · decide

end DequeMachine
