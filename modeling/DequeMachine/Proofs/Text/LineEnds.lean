import DequeMachine.Proofs.Text.Lines

/-!
# DequeMachine.Proofs.Text.LineEnds

The ways in which the lines of a text may end.

1. `pieces` are the lines of a text before a `ret` is taken off them.  They can be read off symbol
   by symbol, from the end of the text to its beginning.
2. `Respells` puts a `ret` before any of the feeds, and a feed after the last line.
3. Whoever does not see a `ret` at the end of a line sees the same lines in both texts:
   `Respells.map_all`.
-/

namespace DequeMachine.Lines

variable {α γ : Type} [BEq α] [LawfulBEq α] {feed ret : α} {xs ys : List α} {f : List α → γ}

/-! ## Pieces -/

/-- The pieces of a text that feeds end, and what follows the last feed unless it is empty. -/
def pieces (feed : α) (xs : List α) : List (List α) :=
  (split feed xs).1 ++ if (split feed xs).2.isEmpty then [] else [(split feed xs).2]

theorem pieces_cons_feed (feed : α) (xs : List α) :
    pieces feed (feed :: xs) = [] :: pieces feed xs := by
  simp [pieces, split_cons, extend]

/-- Any other symbol belongs to the first piece. -/
theorem pieces_cons {x : α} (h : x ≠ feed) (xs : List α) :
    pieces feed (x :: xs) =
      match pieces feed xs with
      | [] => [[x]]
      | piece :: pieces => (x :: piece) :: pieces := by
  rw [pieces, pieces, split_cons]
  cases split feed xs with
  | mk pieces rest => cases pieces <;> cases rest <;> simp [extend, h]

/-- Where a `ret` at the end does not show, nor does it whether it is taken off. -/
theorem apply_dropEnd (hf : ∀ line, f (line ++ [ret]) = f line) (piece : List α) :
    f (dropEnd ret piece) = f piece := by
  rcases dropEnd_or_concat ret piece with h | h
  · rw [h]
  · rw [← hf (dropEnd ret piece), ← h]

/-- The lines of a text are its pieces, but for a `ret` at the end of some of them. -/
theorem map_all (hf : ∀ line, f (line ++ [ret]) = f line) (xs : List α) :
    (all feed ret xs).map f = (pieces feed xs).map f := by
  have hend := apply_dropEnd hf
  cases hs : split feed xs with
  | mk fed rest => cases hrest : rest.isEmpty <;> simp [all, ended, pieces, hs, hrest, hend]

/-! ## Respelling -/

/-- Both texts are the same, but that in the second a `ret` stands before some of the feeds, and
that a feed may follow the last line if that has none. -/
inductive Respells (feed ret : α) : List α → List α → Prop
  | nil : Respells feed ret [] []
  | keep {xs ys : List α} (x : α) : Respells feed ret xs ys → Respells feed ret (x :: xs) (x :: ys)
  | returned {xs ys : List α} : Respells feed ret xs ys →
      Respells feed ret (feed :: xs) (ret :: feed :: ys)
  | ended {x : α} : x ≠ feed → Respells feed ret [x] [x, feed]

omit [BEq α] [LawfulBEq α] in
/-- A part that stays as it is. -/
theorem Respells.append_left (same : List α) (h : Respells feed ret xs ys) :
    Respells feed ret (same ++ xs) (same ++ ys) := by
  induction same with
  | nil => exact h
  | cons x same ih => exact .keep x ih

/-- Where a `ret` at the end does not show, nor does it whether it is there. -/
theorem Respells.map_pieces (h : Respells feed ret xs ys) (hne : feed ≠ ret)
    (hf : ∀ line, f (line ++ [ret]) = f line) :
    (pieces feed ys).map f = (pieces feed xs).map f := by
  induction h generalizing f with
  | nil => rfl
  | @keep xs ys x _ ih =>
      by_cases hx : x = feed
      · subst hx
        rw [pieces_cons_feed, pieces_cons_feed, List.map_cons, List.map_cons, ih hf]
      · -- The first piece of each text begins with `x`, the others are the same as before.
        have hfirst := ih (f := fun line => f (x :: line)) fun line => hf (x :: line)
        have hothers := ih hf
        rw [pieces_cons hx, pieces_cons hx]
        cases hxs : pieces feed xs with
        | nil =>
            rw [hxs, List.map_nil, List.map_eq_nil_iff] at hothers
            rw [hothers]
        | cons piece rest =>
            cases hys : pieces feed ys with
            | nil => simp [hxs, hys] at hothers
            | cons piece' rest' =>
                rw [hxs, hys] at hfirst hothers
                simp only [List.map_cons, List.cons.injEq] at hfirst hothers ⊢
                exact ⟨hfirst.1, hothers.2⟩
  | @returned xs ys _ ih =>
      have hret : pieces feed (ret :: feed :: ys) = [ret] :: pieces feed ys := by
        rw [pieces_cons hne.symm, pieces_cons_feed]
      rw [hret, pieces_cons_feed, List.map_cons, List.map_cons, ih hf]
      exact congrArg (· :: _) (hf [])
  | ended hx =>
      rw [pieces_cons hx, pieces_cons hx, pieces_cons_feed]
      rfl

theorem Respells.map_all (h : Respells feed ret xs ys) (hne : feed ≠ ret)
    (hf : ∀ line, f (line ++ [ret]) = f line) :
    (all feed ret ys).map f = (all feed ret xs).map f := by
  rw [Lines.map_all hf, Lines.map_all hf, h.map_pieces hne hf]

end DequeMachine.Lines
