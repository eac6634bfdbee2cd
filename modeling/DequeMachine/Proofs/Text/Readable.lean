import DequeMachine.Proofs.Text.Stream

/-!
# DequeMachine.Proofs.Text.Readable

The part of a stream that can be read.

1. A stream is a series of lines with their ends.  The bytes after the last line feed are a line as
   well, unless the stream fails.
2. Lines can be read up to the first that is not UTF-8.

These lines are a text, and the script of the stream is that of the text, but for the reason why
there are no more lines: `exists_ofLines_eq`.
-/

namespace DequeMachine.Script

open Utf8

/-- The lines of a stream with their ends, where `fault?` is what comes after the bytes. -/
def rawLines (bytes : List UInt8) (fault? : Option Fault) : List (List UInt8) :=
  (Lines.split 10 bytes).1.map (· ++ [10]) ++
    if fault?.isSome || (Lines.split 10 bytes).2.isEmpty then [] else [(Lines.split 10 bytes).2]

/-! ## One line -/

variable {line : List UInt8} {lines : List (List UInt8)} {stop? : Option ReadError}

theorem ofLines_cons_encode (cs : List Char) (lines : List (List UInt8))
    (stop? : Option ReadError) :
    ofLines (encode cs :: lines) stop? =
      ⟨cs :: (ofLines lines stop?).lines, (ofLines lines stop?).stop?⟩ := by
  simp [ofLines]

theorem ofLines_cons_invalid (h : isValid line = false) :
    ofLines (line :: lines) stop? = ⟨[], some .notUtf8⟩ := by
  simp [ofLines, decode?_eq_none h]

theorem notMem_of_notMem_encode {cs : List Char} (h : 10 ∉ encode cs) : '\n' ∉ cs := fun hmem =>
  h (List.mem_flatMap.mpr ⟨'\n', hmem, by decide⟩)

theorem dropEnd_encode (cs : List Char) :
    Lines.dropEnd 13 (encode cs) = encode (Lines.dropEnd '\r' cs) :=
  Lines.dropEnd_flatMap (isolates_ascii (show ('\r').toNat ≤ 127 by decide))
    (fun _ => String.utf8EncodeChar_ne_nil) cs

/-- A line that is not UTF-8 is not so either without its end. -/
theorem isValid_dropEnd (h : isValid (line ++ [10]) = false) :
    isValid (Lines.dropEnd 13 line) = false := by
  by_contra hvalid
  rw [Bool.not_eq_false] at hvalid
  have hline : isValid line = true := by
    rcases Lines.dropEnd_or_concat 13 line with heq | heq
    · rwa [heq] at hvalid
    · rw [heq]
      exact isValid_append hvalid (by decide)
  exact Bool.noConfusion (h.symm.trans (isValid_append hline (by decide)))

/-! ## All lines -/

/-- At most one line, which is not empty and has no end. -/
structure Unended (last : List (List UInt8)) : Prop where
  length_le : last.length ≤ 1
  notMem_nil : [] ∉ last
  notMem_feed : ∀ line ∈ last, 10 ∉ line

theorem exists_ofLines_unended {last : List (List UInt8)} (h : Unended last)
    (stop? : Option ReadError) :
    ∃ cs, encode cs = (last.takeWhile isValid).flatten ∧
      ofLines last stop? =
        ⟨Lines.all '\n' '\r' cs, if last.all isValid then stop? else some .notUtf8⟩ := by
  match last, h with
  | [], _ => exact ⟨[], rfl, rfl⟩
  | [line], ⟨_, hnil, hfeed⟩ =>
      by_cases hvalid : isValid line = true
      · obtain ⟨cs, rfl⟩ := isValid_iff.mp hvalid
        have hcs : cs.isEmpty = false := by
          cases cs with
          | nil => exact absurd List.mem_cons_self hnil
          | cons c cs => rfl
        have hlines : Lines.all '\n' '\r' cs = if cs.isEmpty then [] else [cs] :=
          Lines.all_of_notMem (notMem_of_notMem_encode (hfeed _ List.mem_cons_self))
        refine ⟨cs, by simp [hvalid], ?_⟩
        rw [ofLines_cons_encode, hlines, hcs]
        simp [ofLines, hvalid]
      · rw [Bool.not_eq_true] at hvalid
        refine ⟨[], by simp [hvalid], ?_⟩
        simp [ofLines_cons_invalid hvalid, hvalid, Lines.all, Lines.ended]
  | _ :: _ :: _, ⟨hlength, _, _⟩ => simp at hlength

/-- The lines before the first that is not UTF-8 make up a text, and they are its lines. -/
theorem exists_ofLines_append {pieces last : List (List UInt8)}
    (hpieces : ∀ piece ∈ pieces, 10 ∉ piece) (hlast : Unended last) (stop? : Option ReadError) :
    ∃ cs, encode cs = ((pieces.map (· ++ [10]) ++ last).takeWhile isValid).flatten ∧
      ofLines (pieces.map (Lines.dropEnd 13) ++ last) stop? =
        ⟨Lines.all '\n' '\r' cs,
          if (pieces.map (· ++ [10]) ++ last).all isValid then stop? else some .notUtf8⟩ := by
  induction pieces with
  | nil => exact exists_ofLines_unended hlast stop?
  | cons piece pieces ih =>
      obtain ⟨cs, hcs, hscript⟩ := ih fun p hp => hpieces p (List.mem_cons_of_mem piece hp)
      by_cases hvalid : isValid (piece ++ [10]) = true
      · obtain ⟨ds, rfl⟩ := isValid_iff.mp (isValid_of_concat_feed hvalid)
        have hfeed := notMem_of_notMem_encode (hpieces _ List.mem_cons_self)
        refine ⟨ds ++ '\n' :: cs, ?_, ?_⟩
        · rw [encode_append, encode_cons, hcs, List.map_cons, List.cons_append,
            List.takeWhile_cons_of_pos hvalid, List.flatten_cons, List.append_assoc]
          rfl
        · simp only [List.map_cons, List.cons_append, dropEnd_encode, ofLines_cons_encode, hscript,
            Lines.all_append_feed hfeed, List.all_cons, hvalid, Bool.true_and]
      · rw [Bool.not_eq_true] at hvalid
        refine ⟨[], by simp [hvalid], ?_⟩
        simp [ofLines_cons_invalid (isValid_dropEnd hvalid), hvalid, Lines.all, Lines.ended]

theorem unended_of_split (bytes : List UInt8) (fault? : Option Fault) :
    Unended (if fault?.isSome || (Lines.split 10 bytes).2.isEmpty then []
      else [(Lines.split 10 bytes).2]) := by
  split
  · exact ⟨Nat.zero_le 1, List.not_mem_nil, fun _ h => absurd h List.not_mem_nil⟩
  · next hlast =>
      simp only [Bool.or_eq_true, List.isEmpty_iff, not_or] at hlast
      refine ⟨Nat.le_refl 1, ?_, ?_⟩
      · simpa using Ne.symm hlast.2
      · simpa using Lines.notMem_split 10 bytes

/-- The readable lines of a stream make up a text.  The script of the stream is that of the text,
and says in addition why it ends. -/
theorem exists_ofLines_eq (bytes : List UInt8) (fault? : Option Fault) (stop? : Option ReadError) :
    ∃ p : String,
      p.toUTF8.data.toList = ((rawLines bytes fault?).takeWhile isValid).flatten ∧
        ofLines (byteLines bytes fault?) stop? =
          ⟨(ofText p).lines,
            if (rawLines bytes fault?).all isValid then stop? else some .notUtf8⟩ := by
  obtain ⟨cs, hcs, hscript⟩ := exists_ofLines_append
    (fun _ => Lines.notMem_of_mem_split) (unended_of_split bytes fault?) stop?
  refine ⟨String.ofList cs, ?_, ?_⟩
  · rw [toList_toUTF8, String.toList_ofList]
    exact hcs
  · rw [byteLines_of_split rfl, ofText, String.toList_ofList]
    exact hscript

end DequeMachine.Script
