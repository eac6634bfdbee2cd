import DequeMachine.Proofs.Text.Lines
import DequeMachine.Script

/-!
# DequeMachine.Proofs.Text.Utf8

The encoding of characters in UTF-8, as lists of bytes.

1. A character up to 127 is encoded as the one byte of its code.
2. Every byte of another character is 128 or more, so that neither a line feed nor a carriage return
   is part of one.
3. What an encoding decodes to is what was encoded.
-/

namespace DequeMachine.Utf8

/-- The bytes that encode characters. -/
def encode (cs : List Char) : List UInt8 := cs.flatMap String.utf8EncodeChar

@[simp]
theorem encode_nil : encode [] = [] := rfl

@[simp]
theorem encode_cons (c : Char) (cs : List Char) :
    encode (c :: cs) = String.utf8EncodeChar c ++ encode cs := rfl

/-- The bytes of a string. -/
theorem toList_toUTF8 (s : String) : s.toUTF8.data.toList = encode s.toList := by
  rw [String.toUTF8_eq_toByteArray, ← String.utf8Encode_toList, List.utf8Encode, encode,
    List.data_toByteArray]

/-! ## One character -/

theorem utf8EncodeChar_of_le {c : Char} (h : c.toNat ≤ 127) :
    String.utf8EncodeChar c = [c.toNat.toUInt8] := by
  unfold String.utf8EncodeChar
  exact if_pos h

theorem encode_of_ascii {cs : List Char} (h : ∀ c ∈ cs, c.toNat ≤ 127) :
    encode cs = cs.map (·.toNat.toUInt8) := by
  induction cs with
  | nil => rfl
  | cons c cs ih =>
      have hcs := ih fun d hd => h d (List.mem_cons_of_mem c hd)
      rw [encode_cons, utf8EncodeChar_of_le (h c List.mem_cons_self), hcs]
      rfl

theorem le_of_mem_utf8EncodeChar {c : Char} (h : 127 < c.toNat) {b : UInt8}
    (hb : b ∈ String.utf8EncodeChar c) : 128 ≤ b := by
  have hc : ¬c.val.toNat ≤ 0x7f := Nat.not_le.mpr h
  unfold String.utf8EncodeChar at hb
  rw [UInt8.le_iff_toNat_le]
  change 128 ≤ b.toNat
  -- A leading byte is one of 192, 224 and 240 with a few bits more, every other byte 128 with six.
  simp only [hc, if_false] at hb
  split at hb
  · simp only [List.mem_cons, List.not_mem_nil, or_false] at hb
    rcases hb with rfl | rfl <;> rw [UInt8.toNat_ofNat'] <;> omega
  · split at hb
    · simp only [List.mem_cons, List.not_mem_nil, or_false] at hb
      rcases hb with rfl | rfl | rfl <;> rw [UInt8.toNat_ofNat'] <;> omega
    · simp only [List.mem_cons, List.not_mem_nil, or_false] at hb
      rcases hb with rfl | rfl | rfl | rfl <;> rw [UInt8.toNat_ofNat'] <;> omega

theorem toNat_toUInt8 {n : Nat} (h : n ≤ 127) : n.toUInt8.toNat = n :=
  UInt8.toNat_ofNat_of_lt' (Nat.lt_of_le_of_lt h (by decide))

/-- The byte of a character up to 127 is part of no other character. -/
theorem isolates_ascii {c : Char} (h : c.toNat ≤ 127) :
    Lines.Isolates String.utf8EncodeChar c c.toNat.toUInt8 where
  eq := utf8EncodeChar_of_le h
  notMem := fun d hd hmem => by
    have hc := toNat_toUInt8 h
    by_cases hascii : d.toNat ≤ 127
    · have hd' := toNat_toUInt8 hascii
      rw [utf8EncodeChar_of_le hascii, List.mem_singleton] at hmem
      exact hd (Char.toNat_inj.mp (by rw [← hd', ← hmem, hc]))
    · have hbyte := le_of_mem_utf8EncodeChar (by omega) hmem
      rw [UInt8.le_iff_toNat_le, hc] at hbyte
      exact absurd hbyte (Nat.not_le.mpr (Nat.lt_succ_of_le h))

/-- The lines of the bytes of a text are the bytes of its lines. -/
theorem all_encode (cs : List Char) :
    Lines.all 10 13 (encode cs) = (Lines.all '\n' '\r' cs).map encode :=
  have hfeed := isolates_ascii (show ('\n').toNat ≤ 127 by decide)
  have hret := isolates_ascii (show ('\r').toNat ≤ 127 by decide)
  Lines.all_flatMap hfeed hret (fun _ => String.utf8EncodeChar_ne_nil) cs

/-! ## Decoding -/

/-- Decoding undoes encoding. -/
@[simp]
theorem decode?_encode (cs : List Char) : Script.decode? (encode cs) = some cs := by
  have hbytes : (encode cs).toByteArray = (String.ofList cs).toByteArray := by
    rw [String.toByteArray_ofList]
    rfl
  unfold Script.decode? String.fromUTF8?
  rw [hbytes, dif_pos (String.ofList cs).isValidUTF8]
  exact congrArg some String.toList_ofList

/-! ## Valid bytes -/

/-- Whether bytes are UTF-8. -/
def isValid (bytes : List UInt8) : Bool := bytes.toByteArray.validateUTF8

theorem isValid_iff {bytes : List UInt8} : isValid bytes = true ↔ ∃ cs, bytes = encode cs := by
  rw [isValid, ByteArray.validateUTF8_eq_true_iff]
  constructor
  · rintro ⟨cs, hcs⟩
    have hbytes : bytes = cs.utf8Encode.data.toList := by
      simpa using congrArg (·.data.toList) hcs
    exact ⟨cs, by rw [hbytes, List.utf8Encode, List.data_toByteArray, encode]⟩
  · rintro ⟨cs, rfl⟩
    exact ⟨cs, rfl⟩

/-- Bytes that are not UTF-8 are read as no text. -/
theorem decode?_eq_none {bytes : List UInt8} (h : isValid bytes = false) :
    Script.decode? bytes = none := by
  have hvalid : ¬bytes.toByteArray.IsValidUTF8 := fun hvalid => by
    rw [isValid, ByteArray.validateUTF8_eq_true_iff.mpr hvalid] at h
    exact Bool.noConfusion h
  rw [Script.decode?, String.fromUTF8?, dif_neg hvalid, Option.map_none]

theorem encode_append (cs ds : List Char) : encode (cs ++ ds) = encode cs ++ encode ds :=
  List.flatMap_append

theorem isValid_append {xs ys : List UInt8} (hx : isValid xs = true) (hy : isValid ys = true) :
    isValid (xs ++ ys) = true := by
  obtain ⟨cs, rfl⟩ := isValid_iff.mp hx
  obtain ⟨ds, rfl⟩ := isValid_iff.mp hy
  exact isValid_iff.mpr ⟨cs ++ ds, (encode_append cs ds).symm⟩

/-- The bytes before a line feed are UTF-8 if they are together with it. -/
theorem isValid_of_concat_feed {bytes : List UInt8} (h : isValid (bytes ++ [10]) = true) :
    isValid bytes = true := by
  obtain ⟨cs, hcs⟩ := isValid_iff.mp h
  rcases List.eq_nil_or_concat' cs with rfl | ⟨ds, c, rfl⟩
  · simp at hcs
  rw [encode_append] at hcs
  by_cases hc : c = '\n'
  · subst hc
    exact isValid_iff.mpr ⟨ds, List.append_inj_left' hcs rfl⟩
  · -- Otherwise the line feed would be part of another character.
    have hlast : (encode [c]).getLast? = some 10 := by
      have hne : encode [c] ≠ [] := by simp
      have hall := congrArg List.getLast? hcs
      rw [List.getLast?_append_of_ne_nil _ hne] at hall
      simpa using hall.symm
    have hmem : 10 ∈ String.utf8EncodeChar c := by simpa using List.mem_of_getLast? hlast
    exact absurd hmem ((isolates_ascii (show ('\n').toNat ≤ 127 by decide)).notMem c hc)

end DequeMachine.Utf8
