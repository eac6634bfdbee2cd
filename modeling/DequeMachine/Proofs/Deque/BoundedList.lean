import Mathlib.Data.List.Rotate
import DequeMachine.Deque.Operation

/-!
# DequeMachine.Proofs.Deque.BoundedList

The operations of a deque on a plain list that holds at most `limit` values.
-/

namespace DequeMachine

/-- Whether an operation inserts a value. -/
def Deque.Op.isPush : Deque.Op → Bool
  | .pushFront _ | .pushBack _ => true
  | _ => false

namespace BoundedList

variable {α β : Type}

/-- The first element moves to the end. -/
def rotateLeft : List α → List α
  | [] => []
  | x :: xs => xs ++ [x]

/-- The last element moves to the front. -/
def rotateRight (xs : List α) : List α :=
  match xs.getLast? with
  | some x => x :: xs.dropLast
  | none => []

/-- The answer of an operation, and the list after it. -/
def apply (limit : Nat) (vs : List Value) : Deque.Op → Deque.Reply × List Value
  | .pushFront v => if vs.length = limit then (.stored false, vs) else (.stored true, v :: vs)
  | .pushBack v => if vs.length = limit then (.stored false, vs) else (.stored true, vs ++ [v])
  | .popFront => (.removed vs.head?, vs.tail)
  | .combineFront f =>
    match vs with
    | first :: second :: rest => (.changed true, f second first :: rest)
    | _ => (.changed false, vs)
  | .swapFront =>
    match vs with
    | first :: second :: rest => (.changed true, second :: first :: rest)
    | _ => (.changed false, vs)
  | .rotateLeft => (.moved, rotateLeft vs)
  | .rotateRight => (.moved, rotateRight vs)
  | .clear => (.cleared vs.length, [])

/-- The list after a series of operations. -/
def applyAll (limit : Nat) (vs : List Value) (ops : List Deque.Op) : List Value :=
  ops.foldl (fun vs op => (apply limit vs op).2) vs

/-- The answers of a series of operations. -/
def replies (limit : Nat) (vs : List Value) : List Deque.Op → List Deque.Reply
  | [] => []
  | op :: ops => (apply limit vs op).1 :: replies limit (apply limit vs op).2 ops

/-! ## Capacity -/

/-- Pushes are answered that they are done as long as there is room for all of them. -/
theorem replies_pushes {limit : Nat} {vs : List Value} {pushes : List Deque.Op}
    (hpush : ∀ op ∈ pushes, op.isPush = true) (hroom : vs.length + pushes.length ≤ limit) :
    replies limit vs pushes = List.replicate pushes.length (.stored true) := by
  induction pushes generalizing vs with
  | nil => rfl
  | cons op pushes ih =>
      rw [List.length_cons] at hroom
      have hfull : vs.length ≠ limit := by omega
      have hrest := fun op' h => hpush op' (List.mem_cons_of_mem op h)
      have hop := hpush op List.mem_cons_self
      cases op with
      | pushFront v =>
          simp only [replies, apply, if_neg hfull]
          rw [ih hrest (by rw [List.length_cons]; omega)]
          rfl
      | pushBack v =>
          simp only [replies, apply, if_neg hfull]
          rw [ih hrest (by rw [List.length_append, List.length_singleton]; omega)]
          rfl
      | popFront | combineFront _ | swapFront | rotateLeft | rotateRight | clear =>
          simp [Deque.Op.isPush] at hop

/-! ## Moving elements -/

/-- The first two elements change places. -/
def swapFront : List α → List α
  | x :: y :: rest => y :: x :: rest
  | xs => xs

theorem swapFront_perm (xs : List α) : (swapFront xs).Perm xs := by
  match xs with
  | [] | [_] => exact .refl _
  | x :: y :: rest => exact .swap x y rest

theorem swapFront_of_short {xs : List α} (h : xs.length < 2) : swapFront xs = xs := by
  match xs, h with
  | [], _ | [_], _ => rfl

theorem swapFront_swapFront (xs : List α) : swapFront (swapFront xs) = xs := by
  match xs with
  | [] | [_] | _ :: _ :: _ => rfl

theorem rotateLeft_map (f : α → β) (xs : List α) :
    rotateLeft (xs.map f) = (rotateLeft xs).map f := by
  cases xs <;> simp [rotateLeft]

theorem rotateLeft_perm (xs : List α) : (rotateLeft xs).Perm xs := by
  cases xs with
  | nil => exact .nil
  | cons x xs => exact List.perm_append_singleton x xs

@[simp]
theorem rotateRight_concat (xs : List α) (x : α) : rotateRight (xs ++ [x]) = x :: xs := by
  simp [rotateRight]

theorem rotateRight_map (f : α → β) (xs : List α) :
    rotateRight (xs.map f) = (rotateRight xs).map f := by
  rcases List.eq_nil_or_concat' xs with rfl | ⟨ys, x, rfl⟩
  · rfl
  · simp

theorem rotateRight_perm (xs : List α) : (rotateRight xs).Perm xs := by
  rcases List.eq_nil_or_concat' xs with rfl | ⟨ys, x, rfl⟩
  · exact .nil
  · rw [rotateRight_concat]
    exact (List.perm_append_singleton x ys).symm

theorem rotateRight_rotateLeft (xs : List α) : rotateRight (rotateLeft xs) = xs := by
  cases xs with
  | nil => rfl
  | cons x xs => exact rotateRight_concat xs x

theorem rotateLeft_rotateRight (xs : List α) : rotateLeft (rotateRight xs) = xs := by
  rcases List.eq_nil_or_concat' xs with rfl | ⟨ys, x, rfl⟩
  · rfl
  · rw [rotateRight_concat, rotateLeft]

theorem rotateLeft_eq_rotate (xs : List α) : rotateLeft xs = xs.rotate 1 := by
  cases xs with
  | nil => rfl
  | cons x xs => rw [List.rotate_cons_succ, List.rotate_zero, rotateLeft]

end BoundedList

end DequeMachine
