import Mathlib.Data.List.Nodup

/-!
# DequeMachine.Proofs.Deque.Neighbours

The neighbours of a number in a list without repetitions.

* `after i xs` is the number that follows `i`, and `before i xs` the one that precedes it.
* Where a list is put together from two parts, only the numbers at the seam get a new neighbour:
  `after_append_left`, `after_append_right` and their mirror images.
-/

namespace DequeMachine.Neighbours

/-- The number that follows `i` in a list. -/
def after (i : Nat) : List Nat → Option Nat
  | [] => none
  | j :: rest => if j = i then rest.head? else after i rest

/-- The number that precedes `i` in a list without repetitions. -/
def before (i : Nat) (xs : List Nat) : Option Nat := after i xs.reverse

variable {i : Nat} {xs ys : List Nat}

/-! ## Successors -/

@[simp]
theorem after_nil (i : Nat) : after i [] = none := rfl

@[simp]
theorem after_cons_self (i : Nat) (xs : List Nat) : after i (i :: xs) = xs.head? := by
  simp [after]

theorem after_cons_of_ne {j : Nat} (h : j ≠ i) : after i (j :: xs) = after i xs := if_neg h

theorem after_of_notMem (h : i ∉ xs) : after i xs = none := by
  induction xs with
  | nil => rfl
  | cons j rest ih =>
      simp only [List.mem_cons, not_or] at h
      rw [after_cons_of_ne (Ne.symm h.1), ih h.2]

/-- What is put in front does not follow. -/
theorem after_append_right (h : i ∉ xs) : after i (xs ++ ys) = after i ys := by
  induction xs with
  | nil => rfl
  | cons j rest ih =>
      simp only [List.mem_cons, not_or] at h
      rw [List.cons_append, after_cons_of_ne (Ne.symm h.1), ih h.2]

/-- What is put behind follows the last number, and no other. -/
theorem after_append_left (hn : xs.Nodup) (h : i ∈ xs) :
    after i (xs ++ ys) = if xs.getLast? = some i then ys.head? else after i xs := by
  induction xs with
  | nil => contradiction
  | cons j rest ih =>
      obtain ⟨hj, hrest⟩ := List.nodup_cons.mp hn
      cases rest with
      | nil =>
          have hij : i = j := by simpa using h
          subst hij
          simp
      | cons k rest =>
          by_cases hij : j = i
          · subst hij
            have hlast : (j :: k :: rest).getLast? ≠ some j := by
              intro hl
              rw [List.getLast?_cons_cons] at hl
              exact hj (List.mem_of_getLast? hl)
            rw [if_neg hlast]
            simp
          · have hi : i ∈ k :: rest := (List.mem_cons.mp h).resolve_left (Ne.symm hij)
            rw [List.cons_append, after_cons_of_ne hij, ih hrest hi, List.getLast?_cons_cons,
              after_cons_of_ne hij]

/-! ## Predecessors -/

@[simp]
theorem before_concat_self (i : Nat) (xs : List Nat) : before i (xs ++ [i]) = xs.getLast? := by
  simp [before]

/-- What is put behind does not precede. -/
theorem before_append_left (h : i ∉ ys) : before i (xs ++ ys) = before i xs := by
  rw [before, List.reverse_append, after_append_right (by simpa using h), before]

/-- What is put in front precedes the first number, and no other. -/
theorem before_append_right (hn : ys.Nodup) (h : i ∈ ys) :
    before i (xs ++ ys) = if ys.head? = some i then xs.getLast? else before i ys := by
  rw [before, List.reverse_append,
    after_append_left (List.nodup_reverse.mpr hn) (by simpa using h)]
  simp [before]

/-! ## The neighbours of a number between two parts -/

theorem after_middle (h : i ∉ xs) : after i (xs ++ i :: ys) = ys.head? := by
  rw [after_append_right h, after_cons_self]

theorem before_middle (h : i ∉ ys) : before i (xs ++ i :: ys) = xs.getLast? := by
  rw [List.append_cons, before_append_left h, before_concat_self]

/-- The last number precedes no other. -/
theorem before_ne_getLast? (hn : xs.Nodup) (h : i ∈ xs) : before i xs ≠ xs.getLast? := by
  obtain ⟨front, back, rfl⟩ := List.append_of_mem h
  obtain ⟨-, hback, hdis⟩ := List.nodup_append.mp hn
  rw [before_middle (List.nodup_cons.mp hback).1, List.getLast?_append_cons]
  intro hlast
  cases hp : front.getLast? with
  | none => simp [hp, List.getLast?_cons] at hlast
  | some p =>
      have hmem : p ∈ i :: back := List.mem_of_getLast? (hlast.symm.trans hp)
      exact hdis p (List.mem_of_getLast? hp) p hmem rfl

end DequeMachine.Neighbours
