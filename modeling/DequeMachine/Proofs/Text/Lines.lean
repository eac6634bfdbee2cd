import Mathlib.Data.List.Basic
import DequeMachine.Lines

/-!
# DequeMachine.Proofs.Text.Lines

Lines of a text that is made of parts, and of a text whose symbols are translated.

* `split_append_eq_join`: a text can be cut anywhere; the rest of the first part and the first piece
  of the second part are one piece.
* `Spells` is the other direction, from lines to their texts.
* `all_flatMap`: a translation that keeps the two marks apart from all other symbols, as UTF-8 does,
  translates line by line.
-/

namespace DequeMachine.Lines

variable {α β : Type} [BEq α] [LawfulBEq α] [BEq β] [LawfulBEq β]

/-! ## Parts of a text -/

/-- The pieces and the rest of two parts, one after the other. -/
def join : List (List α) × List α → List (List α) × List α → List (List α) × List α
  | (pieces, rest), ([], rest') => (pieces, rest ++ rest')
  | (pieces, rest), (piece :: pieces', rest') => (pieces ++ (rest ++ piece) :: pieces', rest')

omit [BEq α] [LawfulBEq α] in
@[simp]
theorem nil_join (s : List (List α) × List α) : join ([], []) s = s := by
  obtain ⟨_ | ⟨piece, pieces⟩, rest⟩ := s <;> rfl

omit [BEq α] [LawfulBEq α] in
theorem join_assoc (r s t : List (List α) × List α) : join (join r s) t = join r (join s t) := by
  obtain ⟨_ | ⟨p, ps⟩, r⟩ := r <;> obtain ⟨_ | ⟨q, qs⟩, s⟩ := s <;>
    obtain ⟨_ | ⟨u, us⟩, t⟩ := t <;> simp [join]

omit [LawfulBEq α] in
theorem extend_eq_join (mark x : α) (s : List (List α) × List α) :
    extend mark x s = join (split mark [x]) s := by
  obtain ⟨_ | ⟨piece, pieces⟩, rest⟩ := s <;> by_cases h : (x == mark) = true <;>
    simp [split, extend, join, h]

omit [LawfulBEq α] in
/-- A text can be split part by part. -/
theorem split_append_eq_join (mark : α) (xs ys : List α) :
    split mark (xs ++ ys) = join (split mark xs) (split mark ys) := by
  induction xs with
  | nil => simp
  | cons x xs ih =>
      rw [List.cons_append, split_cons, ih, split_cons, extend_eq_join, extend_eq_join, join_assoc]

theorem split_mark (mark : α) : split mark [mark] = ([[]], []) := by
  simp [split, extend]

theorem split_of_notMem {mark : α} {xs : List α} (h : mark ∉ xs) : split mark xs = ([], xs) := by
  induction xs with
  | nil => rfl
  | cons x xs ih =>
      rw [List.mem_cons, not_or] at h
      simp [split_cons, ih h.2, extend, Ne.symm h.1]

/-- Nothing is lost: the pieces, a mark after each, and the rest make up the text. -/
theorem flatMap_split (mark : α) (xs : List α) :
    (split mark xs).1.flatMap (· ++ [mark]) ++ (split mark xs).2 = xs := by
  induction xs with
  | nil => rfl
  | cons x xs ih =>
      rw [split_cons]
      revert ih
      cases split mark xs with
      | mk pieces rest => by_cases h : x = mark <;> cases pieces <;> simp [extend, h]

theorem notMem_split (mark : α) (xs : List α) : mark ∉ (split mark xs).2 := by
  induction xs with
  | nil => exact List.not_mem_nil
  | cons x xs ih =>
      rw [split_cons]
      revert ih
      cases split mark xs with
      | mk pieces rest =>
          by_cases h : x = mark
          · simp [extend, h]
          · cases pieces <;> simp [extend, h, Ne.symm h]

theorem notMem_of_mem_split {mark : α} {xs piece : List α} (h : piece ∈ (split mark xs).1) :
    mark ∉ piece := by
  induction xs generalizing piece with
  | nil => exact absurd h List.not_mem_nil
  | cons x xs ih =>
      rw [split_cons] at h
      revert h ih
      cases split mark xs with
      | mk pieces rest =>
          intro ih h
          by_cases hx : x = mark
          · rcases List.mem_cons.mp (by simpa [extend, hx] using h) with rfl | hpiece
            · exact List.not_mem_nil
            · exact ih hpiece
          · cases pieces with
            | nil => simp [extend, hx] at h
            | cons first pieces =>
                rcases List.mem_cons.mp (by simpa [extend, hx] using h) with rfl | hpiece
                · simpa [Ne.symm hx] using ih List.mem_cons_self
                · exact ih (List.mem_cons_of_mem first hpiece)

/-! ## Lines of a text -/

/-- Nothing but the one symbol is taken away. -/
theorem dropEnd_or_concat (x : α) (xs : List α) :
    dropEnd x xs = xs ∨ xs = dropEnd x xs ++ [x] := by
  by_cases h : xs.getLast? = some x
  · obtain ⟨ys, rfl⟩ := List.getLast?_eq_some_iff.mp h
    exact .inr (by simp [dropEnd])
  · exact .inl (by simp [dropEnd, h])

theorem all_of_notMem {feed ret : α} {xs : List α} (h : feed ∉ xs) :
    all feed ret xs = if xs.isEmpty then [] else [xs] := by
  simp [all, ended, split_of_notMem h]

/-- A text that begins with a line and its end. -/
theorem all_append_feed {feed ret : α} {piece : List α} (h : feed ∉ piece) (xs : List α) :
    all feed ret (piece ++ feed :: xs) = dropEnd ret piece :: all feed ret xs := by
  cases hs : split feed xs with
  | mk pieces rest =>
      cases hrest : rest.isEmpty <;>
        simp [all, ended, split_append, split_of_notMem h, hs, hrest]

/-- The lines of a text that is made of lines with a feed after each. -/
theorem all_flatMap_feed {feed : α} (ret : α) {lines : List (List α)}
    (h : ∀ line ∈ lines, feed ∉ line) :
    all feed ret (lines.flatMap (· ++ [feed])) = lines.map (dropEnd ret) := by
  induction lines with
  | nil => rfl
  | cons line lines ih =>
      have hrest := ih fun rest hrest => h rest (List.mem_cons_of_mem line hrest)
      rw [List.flatMap_cons, List.append_assoc, List.map_cons, ← hrest]
      exact all_append_feed (h line List.mem_cons_self) _

/-- The text has the lines, in their order: after each there is a feed, and a `ret` before the feed
or not.  The last line may be without its end, unless it is empty. -/
inductive Spells (feed ret : α) : List (List α) → List α → Prop
  | nil : Spells feed ret [] []
  | unended {line : List α} : line ≠ [] → Spells feed ret [line] line
  | fed {lines : List (List α)} {text : List α} (line : List α) : Spells feed ret lines text →
      Spells feed ret (line :: lines) (line ++ feed :: text)
  | returned {lines : List (List α)} {text : List α} (line : List α) : Spells feed ret lines text →
      Spells feed ret (line :: lines) (line ++ ret :: feed :: text)

omit [BEq α] [LawfulBEq α] in
/-- Lines with a feed after each. -/
theorem spells_flatMap (feed ret : α) (lines : List (List α)) :
    Spells feed ret lines (lines.flatMap (· ++ [feed])) := by
  induction lines with
  | nil => exact .nil
  | cons line lines ih =>
      rw [List.flatMap_cons, List.append_assoc]
      exact .fed line ih

/-- A text is read as the lines that it spells, whichever way they end. -/
theorem Spells.all_eq {feed ret : α} {lines : List (List α)} {text : List α} (hne : feed ≠ ret)
    (h : Spells feed ret lines text) (hlines : ∀ line ∈ lines, feed ∉ line ∧ ret ∉ line) :
    all feed ret text = lines := by
  have hend : ∀ {line : List α}, ret ∉ line → dropEnd ret line = line := fun {line} hline => by
    have hlast : line.getLast? ≠ some ret := fun hlast => hline (List.mem_of_getLast? hlast)
    simp [dropEnd, hlast]
  induction h with
  | nil => rfl
  | @unended line hempty =>
      obtain ⟨hfeed, -⟩ := hlines line List.mem_cons_self
      rw [all_of_notMem hfeed, if_neg (by simpa using hempty)]
  | fed line _ ih =>
      obtain ⟨hfeed, hret⟩ := hlines line List.mem_cons_self
      rw [all_append_feed hfeed, hend hret,
        ih fun rest hrest => hlines rest (List.mem_cons_of_mem line hrest)]
  | @returned _ text line _ ih =>
      obtain ⟨hfeed, hret⟩ := hlines line List.mem_cons_self
      have hfeed' : feed ∉ line ++ [ret] := by simp [hfeed, hne]
      have hcut : line ++ ret :: feed :: text = (line ++ [ret]) ++ feed :: text := by simp
      rw [hcut, all_append_feed hfeed',
        ih fun rest hrest => hlines rest (List.mem_cons_of_mem line hrest)]
      simp [dropEnd]

/-! ## Translated texts -/

/-- A translation that takes `x` to `y` alone, and no other symbol to a text with `y`. -/
structure Isolates (f : α → List β) (x : α) (y : β) : Prop where
  eq : f x = [y]
  notMem : ∀ z, z ≠ x → y ∉ f z

variable {f : α → List β} {mark ret : α} {mark' ret' : β}

theorem split_flatMap (h : Isolates f mark mark') (xs : List α) :
    split mark' (xs.flatMap f) =
      ((split mark xs).1.map (·.flatMap f), (split mark xs).2.flatMap f) := by
  induction xs with
  | nil => rfl
  | cons x xs ih =>
      rw [List.flatMap_cons, split_append_eq_join, ih, split_cons, extend_eq_join]
      by_cases hx : x = mark
      · rw [hx, h.eq, split_mark, split_mark]
        cases split mark xs with
        | mk pieces rest => cases pieces <;> simp [join]
      · have hone : mark ∉ [x] := by simpa using Ne.symm hx
        rw [split_of_notMem (h.notMem x hx), split_of_notMem hone]
        cases split mark xs with
        | mk pieces rest => cases pieces <;> simp [join]

theorem dropEnd_flatMap (h : Isolates f ret ret') (hne : ∀ x, f x ≠ []) (xs : List α) :
    dropEnd ret' (xs.flatMap f) = (dropEnd ret xs).flatMap f := by
  rcases List.eq_nil_or_concat' xs with rfl | ⟨ys, y, rfl⟩
  · simp [dropEnd]
  · by_cases hy : y = ret
    · simp [dropEnd, hy, h.eq]
    · have hlast : (f y).getLast? ≠ some ret' := fun hlast =>
        h.notMem y hy (List.mem_of_getLast? hlast)
      simp [dropEnd, hy, hlast, hne]

/-- The lines of a translated text are the translated lines. -/
theorem all_flatMap (hmark : Isolates f mark mark') (hret : Isolates f ret ret')
    (hne : ∀ x, f x ≠ []) (xs : List α) :
    all mark' ret' (xs.flatMap f) = (all mark ret xs).map (·.flatMap f) := by
  have hsplit := split_flatMap hmark xs
  cases hs : split mark xs with
  | mk pieces rest =>
      rw [hs] at hsplit
      have hrest : (rest.flatMap f).isEmpty = rest.isEmpty := by
        cases rest with
        | nil => rfl
        | cons x rest => simp [hne]
      simp only [all, ended, hsplit, hs, hrest, List.map_map, Function.comp_def,
        dropEnd_flatMap hret hne]
      cases rest.isEmpty <;> simp

end DequeMachine.Lines
