/-!
# DequeMachine.Lines

Lines of a text, for texts of any kind of symbol.

1. A line ends at a line feed, which does not belong to it.
2. One carriage return directly before that line feed does not belong to it either.
3. What follows the last line feed is a line too, unless it is empty.  It keeps a carriage return at
   its end.

`split` cuts a text into the pieces that a mark ends and the rest; `split_append` says that a text
can be cut in two parts at a mark, one after the other.
-/

namespace DequeMachine.Lines

variable {α : Type} [BEq α]

/-- Puts a symbol in front of the pieces of a text and the rest after the last mark. -/
def extend (mark x : α) : List (List α) × List α → List (List α) × List α
  | (pieces, rest) =>
    if x == mark then ([] :: pieces, rest)
    else match pieces with
      | [] => ([], x :: rest)
      | piece :: pieces => ((x :: piece) :: pieces, rest)

/-- The pieces of a text that a mark ends, without it, and the rest after the last mark. -/
def split (mark : α) (xs : List α) : List (List α) × List α :=
  xs.foldr (extend mark) ([], [])

/-- A symbol list without one given symbol at its end. -/
def dropEnd (x : α) (xs : List α) : List α :=
  if xs.getLast? == some x then xs.dropLast else xs

/-- The lines of a text that `feed` ends, where `ret` may stand before it, and the rest. -/
def ended (feed ret : α) (xs : List α) : List (List α) × List α :=
  let (pieces, rest) := split feed xs
  (pieces.map (dropEnd ret), rest)

/-- The lines of a text, the last of which may have no end. -/
def all (feed ret : α) (xs : List α) : List (List α) :=
  let (lines, rest) := ended feed ret xs
  if rest.isEmpty then lines else lines ++ [rest]

/-! ## Cutting at a mark -/

@[simp]
theorem split_nil (mark : α) : split mark [] = ([], []) := rfl

theorem split_cons (mark x : α) (xs : List α) :
    split mark (x :: xs) = extend mark x (split mark xs) := rfl

/-- A text that ends in a mark, followed by another: the pieces follow each other. -/
theorem split_append [LawfulBEq α] (mark : α) (xs ys : List α) :
    split mark (xs ++ mark :: ys) =
      ((split mark xs).1 ++ (split mark xs).2 :: (split mark ys).1, (split mark ys).2) := by
  induction xs with
  | nil => simp [split_cons, extend]
  | cons x xs ih =>
    rw [List.cons_append, split_cons, split_cons, ih]
    by_cases h : (x == mark) = true
    · simp [extend, h]
    · cases hs : split mark xs with
      | mk pieces rest => cases pieces <;> simp [extend, h]

end DequeMachine.Lines
