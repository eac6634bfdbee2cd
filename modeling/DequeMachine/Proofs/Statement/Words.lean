import Mathlib.Data.List.TakeDrop
import Mathlib.Data.List.TakeWhile
import DequeMachine.Statement

/-!
# DequeMachine.Proofs.Statement.Words

All words of a line at once.  A line is cut at every blank; the words are the pieces that are not
empty, which are the longest runs of other characters.

* `words_append_blank`: a blank separates the words before it from those after it.
* `words_eq_splitWord`: reading one word after the other finds all of them.
-/

namespace DequeMachine

/-- The words of a line. -/
def words (cs : List Char) : List (List Char) := (cs.splitOnP isBlank).filter (!·.isEmpty)

@[simp]
theorem words_nil : words [] = [] := rfl

theorem words_append_blank {c : Char} (h : isBlank c = true) (xs ys : List Char) :
    words (xs ++ c :: ys) = words xs ++ words ys := by
  rw [words, List.splitOnP_append_cons xs ys h, List.filter_append, words, words]

theorem words_cons_blank {c : Char} (h : isBlank c = true) (cs : List Char) :
    words (c :: cs) = words cs :=
  words_append_blank h [] cs

theorem words_concat_blank {c : Char} (h : isBlank c = true) (cs : List Char) :
    words (cs ++ [c]) = words cs := by
  rw [words_append_blank h, words_nil, List.append_nil]

theorem words_of_notBlank {w : List Char} (hne : w ≠ []) (h : ∀ c ∈ w, isBlank c = false) :
    words w = [w] := by
  rw [words, List.splitOnP_eq_singleton h]
  simp [hne]

theorem words_dropWhile (cs : List Char) : words (cs.dropWhile isBlank) = words cs := by
  induction cs with
  | nil => rfl
  | cons c cs ih =>
      by_cases h : isBlank c = true
      · rw [List.dropWhile_cons_of_pos h, ih, words_cons_blank h]
      · rw [List.dropWhile_cons_of_neg h]

/-- A run of other characters that starts a line, up to its end or to a blank, is the first word. -/
theorem words_append {w rest : List Char} (hne : w ≠ []) (h : ∀ c ∈ w, isBlank c = false)
    (hrest : ∀ c ∈ rest.head?, isBlank c = true) : words (w ++ rest) = w :: words rest := by
  cases rest with
  | nil => rw [List.append_nil, words_of_notBlank hne h, words_nil]
  | cons c rest =>
      have hc : isBlank c = true := hrest c rfl
      rw [words_append_blank hc, words_of_notBlank hne h, words_cons_blank hc,
        List.singleton_append]

/-- The first word of a line, and the words of what follows it. -/
theorem words_eq_splitWord (cs : List Char) :
    words cs =
      if (splitWord cs).1 = [] then [] else (splitWord cs).1 :: words (splitWord cs).2 := by
  rw [splitWord, List.span_eq_takeWhile_dropWhile]
  cases htext : cs.dropWhile isBlank with
  | nil => rw [← words_dropWhile, htext]; rfl
  | cons c text =>
      have hc : isBlank c = false := by
        have hhead := List.head?_dropWhile_not isBlank cs
        simpa [htext] using hhead
      have htake : (c :: text).takeWhile (!isBlank ·) ≠ [] := by simp [hc]
      have hword : ∀ d ∈ (c :: text).takeWhile (!isBlank ·), isBlank d = false := fun d hd => by
        simpa using List.mem_takeWhile_imp hd
      have hrest : ∀ d ∈ ((c :: text).dropWhile (!isBlank ·)).head?, isBlank d = true :=
        fun d hd => by
          have hhead := List.head?_dropWhile_not (!isBlank ·) (c :: text)
          rw [Option.mem_def] at hd
          simpa [hd] using hhead
      rw [if_neg htake, ← words_append htake hword hrest, List.takeWhile_append_dropWhile, ← htext,
        words_dropWhile]

/-- A line without a word. -/
theorem splitWord_of_words_nil {cs : List Char} (h : words cs = []) : (splitWord cs).1 = [] := by
  rw [words_eq_splitWord] at h
  by_contra hne
  simp [hne] at h

/-- A line with a word. -/
theorem splitWord_of_words_cons {cs w : List Char} {ws : List (List Char)}
    (h : words cs = w :: ws) :
    w ≠ [] ∧ (splitWord cs).1 = w ∧ words (splitWord cs).2 = ws := by
  rw [words_eq_splitWord] at h
  by_cases hne : (splitWord cs).1 = []
  · simp [hne] at h
  · rw [if_neg hne] at h
    obtain ⟨hw, hws⟩ := List.cons.inj h
    exact ⟨hw ▸ hne, hw, hws⟩

end DequeMachine
