import DequeMachine.Proofs.Deque.Refinement
import DequeMachine.Proofs.Machine.Printing
import DequeMachine.Proofs.Value

/-!
# DequeMachine.Proofs.Machine.Arithmetic

What the instructions that compute leave behind, in exact integers.

1. The result is the value that is congruent modulo `2 ^ 32` to the result on integers:
   `Value.eq_ofInt_iff` and `Arith.eval_eq_ofInt`.
2. `Division` relates the quotient and the remainder of the same operands.  The remainder is always
   exact, and the quotient is unless it is `2 ^ 31`: `Value.division`.
3. `Machine.Leaves` says that an instruction succeeds and changes nothing but the values.
   `Machine.exec_arith_exact` says what the instructions that compute leave, for all operands.
-/

namespace DequeMachine

/-! ## Division -/

/-- The quotient `q` and the remainder `r` of a division of `s` by `h` in words of 32 bits. -/
structure Division (s h q r : Int) : Prop where
  /-- The quotient is truncated toward zero.  Only `2 ^ 31` is no word. -/
  quotient : q = if s = -2 ^ 31 ∧ h = -1 then -2 ^ 31 else s.tdiv h
  remainder : r = s - h * s.tdiv h
  abs_lt : |r| < |h|
  /-- The remainder has the sign of the dividend. -/
  sign : r = 0 ∨ r.sign = s.sign
  restores : q * h + r ≡ s [ZMOD 2 ^ 32]

namespace Value

theorem toInt_div_modEq (s h : Value) : (s / h).toInt ≡ s.toInt.tdiv h.toInt [ZMOD 2 ^ 32] :=
  eq_ofInt_iff.mp (Arith.eval_eq_ofInt .div s h)

/-- Only the least value divided by -1 has a quotient that is no value. -/
theorem toInt_div (s h : Value) :
    (s / h).toInt =
      if s.toInt = -2 ^ 31 ∧ h.toInt = -1 then -2 ^ 31 else s.toInt.tdiv h.toInt := by
  have hs : s.toInt = -2 ^ 31 ↔ s = Int32.minValue := by
    rw [← Int32.toInt_inj, Int32.toInt_minValue]
  have hh : h.toInt = -1 ↔ h = -1 := by
    rw [← Int32.toInt_inj]
    rfl
  by_cases hmin : s = Int32.minValue
  · by_cases hone : h = -1
    · rw [if_pos ⟨hs.mpr hmin, hh.mpr hone⟩, hmin, hone, Int32.minValue_div_neg_one,
        Int32.toInt_minValue]
    · rw [if_neg fun hall => hone (hh.mp hall.2), Int32.toInt_div_of_ne_right s h hone]
  · rw [if_neg fun hall => hmin (hs.mp hall.1), Int32.toInt_div_of_ne_left s h hmin]

theorem division (s h : Value) (hh : h.toInt ≠ 0) :
    Division s.toInt h.toInt (s / h).toInt (s % h).toInt where
  quotient := toInt_div s h
  remainder := (Int32.toInt_mod s h).trans (Int.tmod_def s.toInt h.toInt)
  abs_lt := by
    rw [Int32.toInt_mod, Int.abs_eq_natAbs, Int.abs_eq_natAbs, Int.natAbs_tmod]
    exact Int.ofNat_lt.mpr (Nat.mod_lt _ (Int.natAbs_pos.mpr hh))
  sign := by
    rw [Int32.toInt_mod, Int.sign_tmod]
    by_cases hdvd : h.toInt ∣ s.toInt
    · exact .inl (Int.tmod_eq_zero_of_dvd hdvd)
    · exact .inr (if_neg hdvd)
  restores := by
    have hexact : s.toInt.tdiv h.toInt * h.toInt + s.toInt.tmod h.toInt = s.toInt := by
      rw [Int.mul_comm]
      exact Int.mul_tdiv_add_tmod s.toInt h.toInt
    calc (s / h).toInt * h.toInt + (s % h).toInt
        ≡ s.toInt.tdiv h.toInt * h.toInt + (s % h).toInt [ZMOD 2 ^ 32] :=
          ((toInt_div_modEq s h).mul_right _).add_right _
      _ = s.toInt := by rw [Int32.toInt_mod, hexact]

end Value

/-! ## Instructions -/

namespace Machine

variable {m : Machine} {limit : Nat} {first second : Value} {rest : List Value}

/-- An instruction succeeds, leaves a deque that shows the values `vs`, and changes nothing but the
deque. -/
def Leaves (m : Machine) (i : Instruction) (vs : List Value) : Prop :=
  ∃ d : Deque, m.exec i = (none, { m with deque := d }) ∧ d.Shows vs

/-- An instruction that computes does nothing but its effect on the deque. -/
theorem exec_arith (m : Machine) (op : Arith) :
    m.exec (.arith op) =
      (((Instruction.arith op).effect m.limit m.mode m.deque).1,
        { m with deque := ((Instruction.arith op).effect m.limit m.mode m.deque).2 }) := by
  have hprinted : (Instruction.arith op).printed m.deque = .ok [] := rfl
  have hexec := exec_of_accepted hprinted m.sink.refusal?_nil
  rwa [Sink.write_nil] at hexec

/-- Whether an instruction that computes has the divisor 0. -/
theorem arith_guard_iff (h : m.deque.Shows (first :: second :: rest)) (op : Arith) :
    (op.divides && 2 ≤ m.deque.size && m.deque.front? == some 0) = true ↔
      op.divides = true ∧ first.toInt = 0 := by
  simp [h.size, h.front?, ← Int32.toInt_inj]

theorem exec_arith_of_zero (h : m.deque.Holds limit (first :: second :: rest)) {op : Arith}
    (hop : op.divides = true) (hzero : first.toInt = 0) :
    m.exec (.arith op) = (some .divisionByZero, m) := by
  have heffect : (Instruction.arith op).effect m.limit m.mode m.deque =
      (some .divisionByZero, m.deque) :=
    if_pos ((arith_guard_iff h.shows op).mpr ⟨hop, hzero⟩)
  rw [exec_arith, heffect]

theorem exec_arith_leaves (h : m.deque.Holds limit (first :: second :: rest)) {op : Arith}
    (hop : op.divides = true → first.toInt ≠ 0) :
    m.Leaves (.arith op) (op.eval second first :: rest) := by
  obtain ⟨d, hcombine, hd⟩ := h.combineFront? op.eval
  have hguard := mt (arith_guard_iff h.shows op).mp fun hall => hop hall.1 hall.2
  have heffect : (Instruction.arith op).effect m.limit m.mode m.deque = (none, d) := by
    refine (if_neg hguard).trans ?_
    simp [hcombine]
  exact ⟨d, by rw [exec_arith, heffect], hd.shows⟩

/-- On a deque that any operations have made, with the values `first`, `second` and `rest`, an
instruction that computes fails exactly if it divides by zero.  Otherwise it replaces `first` and
`second` by the one value that is congruent to the exact result, and changes nothing else. -/
theorem exec_arith_exact {ops : List Deque.Op} (hops : m.deque = Deque.applyAll limit ∅ ops)
    (hvalues : m.deque.values? = some (first :: second :: rest)) :
    let s := second.toInt
    let h := first.toInt
    (∀ op : Arith, op.divides = true → h = 0 → m.exec (.arith op) = (some .divisionByZero, m)) ∧
    (∀ op : Arith, (op.divides = true → h ≠ 0) →
      ∃ r, m.Leaves (.arith op) (r :: rest) ∧
        ∀ v : Value, v.toInt ≡ op.onInt s h [ZMOD 2 ^ 32] ↔ v = r) ∧
    (h ≠ 0 → ∃ q r, m.Leaves (.arith .div) (q :: rest) ∧ m.Leaves (.arith .mod) (r :: rest) ∧
      Division s h q.toInt r.toInt) := by
  intro s h
  have hm : m.deque.Holds limit (first :: second :: rest) := by
    have hholds := (Deque.Holds.empty limit).applyAll ops
    rw [← hops] at hholds
    rwa [Option.some.inj (hholds.shows.values?.symm.trans hvalues)] at hholds
  refine ⟨fun op => exec_arith_of_zero hm, fun op hop => ?_, fun hh => ?_⟩
  · refine ⟨op.eval second first, exec_arith_leaves hm hop, fun v => ?_⟩
    rw [Arith.eval_eq_ofInt, Value.eq_ofInt_iff]
  · have hdiv : m.Leaves (.arith .div) (second / first :: rest) :=
      exec_arith_leaves hm fun _ => hh
    have hmod : m.Leaves (.arith .mod) (second % first :: rest) :=
      exec_arith_leaves hm fun _ => hh
    exact ⟨second / first, second % first, hdiv, hmod, Value.division second first hh⟩

/-- The least value and -1, of which the quotient, the product and the sum wrap, and the least value
and the divisor 0. -/
theorem exec_arith_exact_least :
    let d := Deque.applyAll 3 ∅ [.pushBack (-1), .pushBack (-2147483648), .pushBack 7]
    let m : Machine := ⟨3, d, .stack, 0, .ready, .unlimited⟩
    let d₀ := Deque.applyAll 2 ∅ [.pushBack 0, .pushBack (-2147483648)]
    let m₀ : Machine := ⟨2, d₀, .stack, 0, .ready, .unlimited⟩
    m.deque.values? = some [-1, -2147483648, 7] ∧
      m.Leaves (.arith .div) [-2147483648, 7] ∧ m.Leaves (.arith .mod) [0, 7] ∧
      m.Leaves (.arith .mul) [-2147483648, 7] ∧ m.Leaves (.arith .add) [2147483647, 7] ∧
      m₀.exec (.arith .div) = (some .divisionByZero, m₀) := by
  intro d m d₀ m₀
  have hvalues : m.deque.values? = some [-1, -2147483648, 7] := by decide
  have hvalues₀ : m₀.deque.values? = some [0, -2147483648] := by decide
  obtain ⟨-, hunique, hdivide⟩ := exec_arith_exact (m := m) rfl hvalues
  have hleaves : ∀ op : Arith, ∀ v : Value,
      v.toInt ≡ op.onInt (-2147483648) (-1) [ZMOD 2 ^ 32] → m.Leaves (.arith op) [v, 7] :=
    fun op v hv => by
      obtain ⟨r, hr, hiff⟩ := hunique op (fun _ => by decide)
      rwa [(hiff v).mp hv]
  obtain ⟨q, r, -, hmod, hdivision⟩ := hdivide (by decide)
  obtain rfl : r = 0 := Int32.toInt_inj.mp (hdivision.remainder.trans (by decide))
  obtain ⟨hzero, -, -⟩ := exec_arith_exact (m := m₀) rfl hvalues₀
  exact ⟨hvalues, hleaves .div _ (by decide), hmod, hleaves .mul _ (by decide),
    hleaves .add _ (by decide), hzero .div rfl rfl⟩

end Machine

end DequeMachine
