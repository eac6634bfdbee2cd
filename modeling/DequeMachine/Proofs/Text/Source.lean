import DequeMachine.Proofs.Text.Readable

/-!
# DequeMachine.Proofs.Text.Source

Texts and streams as sources of the same kind: bytes, which line feeds cut into lines.

* `Source.SharesLines n` says that two sources have the same first `n` lines, whatever follows them.
* `Source.SharesLines.take_lines`: then their scripts have the same first `n` lines, or as many of
  them as can be read.
* `Source.lines_isPrefix`: the lines of a source that has no more than `n` lines come first in both.
* `Source.Carries` says that a source is a text or the stream of its bytes; then its script is that
  of the text.
-/

namespace DequeMachine

/-- Where a program comes from. -/
inductive Source where
  | text (source : String)
  | reads (reads : List Read)
deriving DecidableEq, Repr

namespace Source

/-- The script of a source. -/
def script : Source → Script
  | text source => .ofText source
  | reads answers => .ofReads answers

/-- The bytes that arrive from a source, before it fails if it does. -/
def bytes : Source → List UInt8
  | text source => source.toUTF8.data.toList
  | reads answers => (Read.received answers).1

/-- The lines that a line feed ends, without it. -/
def ended (s : Source) : List (List UInt8) := (Lines.split 10 s.bytes).1

/-- What follows the last line feed. -/
def unended (s : Source) : List UInt8 := (Lines.split 10 s.bytes).2

/-- Both sources have `n` lines that a line feed ends, and they are the same. -/
structure SharesLines (n : Nat) (s s' : Source) : Prop where
  le : n ≤ s.ended.length
  eq : s'.ended.take n = s.ended.take n

/-- The source has `n` lines that a line feed ends, and nothing else. -/
structure HasOnly (n : Nat) (s : Source) : Prop where
  length : s.ended.length = n
  nil : s.unended = []

theorem SharesLines.symm {n : Nat} {s s' : Source} (h : SharesLines n s s') :
    SharesLines n s' s where
  le := by
    have hlength := congrArg List.length h.eq
    have hle := h.le
    rw [List.length_take, List.length_take] at hlength
    omega
  eq := h.eq.symm

end Source

namespace Source

/-! ## Texts and their bytes -/

/-- The source is a text, or a stream that carries its bytes in any pieces and with any
interruptions. -/
inductive Carries : Source → String → Prop
  | text (t : String) : Carries (.text t) t
  | reads {answers : List Read} {t : String} :
      answers.flatMap Read.data = t.toUTF8.data.toList →
      (∀ answer ∈ answers, answer.Continues) → Carries (.reads answers) t

theorem Carries.script_eq {s : Source} {t : String} (h : s.Carries t) : s.script = .ofText t := by
  cases h with
  | text => rfl
  | reads hbytes hanswers => exact Script.ofReads_eq_ofText hbytes hanswers

end Source

/-! ## Scripts of lines -/

namespace Script

/-- Whether a line can be read does not depend on the lines after it. -/
theorem take_lines_ofLines (lines : List (List UInt8)) (stop? : Option ReadError) (n : Nat) :
    (ofLines lines stop?).lines.take n = (ofLines (lines.take n) none).lines := by
  induction lines generalizing n with
  | nil => simp [ofLines]
  | cons line lines ih =>
      cases n with
      | zero => rfl
      | succ n =>
          by_cases hvalid : Utf8.isValid line = true
          · obtain ⟨cs, rfl⟩ := Utf8.isValid_iff.mp hvalid
            simp only [List.take_succ_cons, ofLines_cons_encode, ih]
          · rw [Bool.not_eq_true] at hvalid
            simp [ofLines_cons_invalid hvalid]

end Script

namespace Source

variable {s s' : Source} {n : Nat}

/-- A text is read like the stream of its bytes. -/
theorem exists_script_eq (s : Source) : ∃ fault? : Option Fault,
    s.script = Script.ofLines (Script.byteLines s.bytes fault?) (fault?.map ReadError.stream) := by
  cases s with
  | reads answers => exact ⟨(Read.received answers).2, rfl⟩
  | text source =>
      have hreads : Script.ofReads [.bytes source.toUTF8.data.toList] = Script.ofText source :=
        Script.ofReads_of_received (Read.received_singleton _)
      refine ⟨none, hreads.symm.trans ?_⟩
      simp [Script.ofReads, bytes]

/-- The first lines of a script are those of the first lines that a line feed ends. -/
theorem take_lines_script (h : n ≤ s.ended.length) :
    s.script.lines.take n =
      (Script.ofLines ((s.ended.take n).map (Lines.dropEnd 13)) none).lines := by
  obtain ⟨fault?, hscript⟩ := s.exists_script_eq
  rw [hscript, Script.take_lines_ofLines, Script.byteLines_of_split rfl,
    List.take_append_of_le_length (by rwa [List.length_map]), List.map_take]
  rfl

theorem SharesLines.take_lines (h : SharesLines n s s') :
    s'.script.lines.take n = s.script.lines.take n := by
  rw [take_lines_script h.symm.le, take_lines_script h.le, h.eq]

/-- The script of a source that has `n` lines has no more lines. -/
theorem HasOnly.take_lines (h : HasOnly n s) : s.script.lines.take n = s.script.lines := by
  obtain ⟨fault?, hscript⟩ := s.exists_script_eq
  have hlines : Script.byteLines s.bytes fault? = s.ended.map (Lines.dropEnd 13) := by
    have hsplit : Lines.split 10 s.bytes = (s.ended, []) := Prod.ext rfl h.nil
    rw [Script.byteLines_of_split hsplit]
    simp
  rw [hscript, Script.take_lines_ofLines, hlines,
    List.take_of_length_le (by rw [List.length_map, h.length])]
  rfl

theorem SharesLines.lines_isPrefix (h : SharesLines n s s') (hs : HasOnly n s) :
    s.script.lines <+: s'.script.lines := by
  rw [← hs.take_lines, ← h.take_lines]
  exact List.take_prefix n s'.script.lines

end Source

end DequeMachine
