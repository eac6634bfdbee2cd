import DequeMachine.Proofs.Statement.Operand
import DequeMachine.Proofs.Statement.Words

/-!
# DequeMachine.Proofs.Statement.Grammar

The grammar of a line: what its words say.  Only the first two words count.

* `Says`: the grammar, rule by rule.
* `Says.congr` and `Says.exists_of_words`: two words decide, and whatever the words are, they say
  something.
* `Statement.parse_of_says`: a line is read as what its words say.
* `Statement.parseLine_eq_iff`: the grammar is exactly what is accepted, and what is refused.
-/

namespace DequeMachine

/-- What words say: a statement, or why they are none. -/
inductive Says : List (List Char) → Except ParseError Statement → Prop
  | blank : Says [] (.ok .blank)
  | stack (ws : List (List Char)) : Says ("stack".toList :: ws) (.ok (.mode .stack))
  | queue (ws : List (List Char)) : Says ("queue".toList :: ws) (.ok (.mode .queue))
  | comment (cs : List Char) (ws : List (List Char)) : Says (('#' :: cs) :: ws) (.ok .comment)
  /-- The name of an opcode that takes no operand. -/
  | plain {i : Instruction} (ws : List (List Char)) : i.opcode ∈ Opcode.all → i.opcode ≠ .push →
      Says (i.opcode.name.toList :: ws) (.ok (.instruction i))
  /-- A push of a written integer. -/
  | push {w : List Char} {n : Int} (ws : List (List Char)) : Operand.Writes w n →
      Says ("push".toList :: w :: ws) (.ok (.instruction (.push (.ofInt n))))
  /-- A push of nothing, or of a word that writes no integer. -/
  | usage {ws : List (List Char)} : (∀ w n, ws.head? = some w → ¬Operand.Writes w n) →
      Says ("push".toList :: ws) (.error (.invalidOperand .push))
  /-- Any other word. -/
  | unknown {w : List Char} (ws : List (List Char)) : w ≠ "stack".toList → w ≠ "queue".toList →
      w.head? ≠ some '#' → (∀ o ∈ Opcode.all, w ≠ o.name.toList) →
      Says (w :: ws) (.error (.unknownInstruction (String.ofList w)))

/-! ## The grammar alone -/

/-- The opcodes without an operand are those of one instruction each. -/
theorem Instruction.exists_opcode_eq {o : Opcode} (h : o ≠ .push) :
    ∃ i : Instruction, i.opcode = o := by
  cases o with
  | push => exact absurd rfl h
  | pall => exact ⟨.pall, rfl⟩
  | pint => exact ⟨.pint, rfl⟩
  | pop => exact ⟨.pop, rfl⟩
  | nop => exact ⟨.nop, rfl⟩
  | swap => exact ⟨.swap, rfl⟩
  | arith op => exact ⟨.arith op, rfl⟩
  | pchar => exact ⟨.pchar, rfl⟩
  | pstr => exact ⟨.pstr, rfl⟩
  | rotl => exact ⟨.rotl, rfl⟩
  | rotr => exact ⟨.rotr, rfl⟩

namespace Says

variable {w w' : List Char} {ws ws' : List (List Char)} {s : Except ParseError Statement}

theorem replace_tail (h : Says (w :: w' :: ws) s) (ws' : List (List Char)) :
    Says (w :: w' :: ws') s := by
  cases h with
  | stack => exact .stack _
  | queue => exact .queue _
  | comment => exact .comment _ _
  | plain _ hall hpush => exact .plain _ hall hpush
  | push _ hw => exact .push _ hw
  | usage hw => exact .usage hw
  | unknown _ hstack hqueue hmark hnames => exact .unknown _ hstack hqueue hmark hnames

/-- What words say is decided by the first two. -/
theorem congr (h : Says ws s) (htake : ws'.take 2 = ws.take 2) : Says ws' s := by
  match ws, ws' with
  | w :: x :: ws, w' :: x' :: ws' =>
      obtain ⟨rfl, rfl⟩ : w' = w ∧ x' = x := by simpa using htake
      exact h.replace_tail ws'
  | [], [] => exact h
  | [w], [w'] =>
      obtain rfl : w' = w := by simpa using htake
      exact h
  | [], _ :: _ | [_], [] | [_], _ :: _ :: _ | _ :: _ :: _, [] | _ :: _ :: _, [_] => simp at htake

/-- All words say something. -/
theorem exists_of_words (ws : List (List Char)) : ∃ s, Says ws s := by
  cases ws with
  | nil => exact ⟨_, .blank⟩
  | cons w ws =>
      by_cases hstack : w = "stack".toList
      · subst hstack
        exact ⟨_, .stack ws⟩
      by_cases hqueue : w = "queue".toList
      · subst hqueue
        exact ⟨_, .queue ws⟩
      by_cases hmark : w.head? = some '#'
      · obtain ⟨cs, rfl⟩ := List.head?_eq_some_iff.mp hmark
        exact ⟨_, .comment cs ws⟩
      by_cases hname : ∃ o ∈ Opcode.all, w = o.name.toList
      · obtain ⟨o, ho, rfl⟩ := hname
        by_cases hpush : o = .push
        · subst hpush
          by_cases hoperand : ∃ w n, ws.head? = some w ∧ Operand.Writes w n
          · obtain ⟨w, n, hhead, hn⟩ := hoperand
            obtain ⟨ws, rfl⟩ := List.head?_eq_some_iff.mp hhead
            exact ⟨_, .push ws hn⟩
          · exact ⟨_, .usage fun w n hhead hn => hoperand ⟨w, n, hhead, hn⟩⟩
        · obtain ⟨i, rfl⟩ := Instruction.exists_opcode_eq hpush
          exact ⟨_, .plain ws ho hpush⟩
      · exact ⟨_, .unknown ws hstack hqueue hmark fun o ho hw => hname ⟨o, ho, hw⟩⟩

end Says

/-! ## Reading a line -/

theorem Mode.ofName?_opcode (o : Opcode) : Mode.ofName? o.name = none := by
  cases o with
  | arith op => cases op <;> decide
  | _ => decide

theorem Opcode.head?_name (o : Opcode) : o.name.toList.head? ≠ some '#' := by
  cases o with
  | arith op => cases op <;> decide
  | _ => decide

/-- An opcode other than a push takes no operand, and has one instruction. -/
theorem Instruction.ofOpcode?_of_ne_push {i : Instruction} (h : i.opcode ≠ .push)
    (operand : Option Value) : ofOpcode? i.opcode operand = some i := by
  cases i with
  | push v => exact absurd rfl h
  | _ => rfl

namespace Statement

variable {text w : List Char} {ws : List (List Char)}

/-! ### The first word -/

theorem ofWord_mode (m : Mode) (rest : List Char) : ofWord m.name.toList rest = .ok (.mode m) := by
  simp [ofWord]

theorem ofWord_instruction {o : Opcode} {i : Instruction} {rest : List Char}
    (h : Instruction.ofOpcode? o (Operand.value? (splitWord rest).1) = some i) :
    ofWord o.name.toList rest = .ok (.instruction i) := by
  simp [ofWord, Mode.ofName?_opcode, h]

theorem ofWord_usage {rest : List Char} (h : Operand.value? (splitWord rest).1 = none) :
    ofWord "push".toList rest = .error (.invalidOperand .push) := by
  have hmode : Mode.ofName? "push" = none := Mode.ofName?_opcode .push
  have hopcode : Opcode.ofName? "push" = some .push := Opcode.ofName?_name .push
  simp only [ofWord, String.ofList_toList, hmode, hopcode, h, Instruction.ofOpcode?,
    Option.map_none]

theorem ofWord_unknown (hstack : w ≠ "stack".toList) (hqueue : w ≠ "queue".toList)
    (hnames : ∀ o ∈ Opcode.all, w ≠ o.name.toList) (rest : List Char) :
    ofWord w rest = .error (.unknownInstruction (String.ofList w)) := by
  have hmode : Mode.ofName? (String.ofList w) = none := by
    refine List.find?_eq_none.mpr fun m _ hm => ?_
    have hw : m.name.toList = w := by simpa using congrArg String.toList (beq_iff_eq.mp hm)
    cases m with
    | stack => exact hstack hw.symm
    | queue => exact hqueue hw.symm
  have hopcode : Opcode.ofName? (String.ofList w) = none := by
    refine List.find?_eq_none.mpr fun o ho hname => ?_
    have hw : o.name.toList = w := by simpa using congrArg String.toList (beq_iff_eq.mp hname)
    exact hnames o ho hw.symm
  simp only [ofWord, hmode, hopcode]

/-! ### The words -/

theorem parse_of_words_nil (h : words text = []) : parse text = .ok .blank := by
  have hsplit : splitWord text = ([], (splitWord text).2) :=
    Prod.ext (splitWord_of_words_nil h) rfl
  rw [parse, hsplit]

theorem parse_of_words_mark {cs : List Char} (h : words text = ('#' :: cs) :: ws) :
    parse text = .ok .comment := by
  obtain ⟨-, hw, -⟩ := splitWord_of_words_cons h
  have hsplit : splitWord text = ('#' :: cs, (splitWord text).2) := Prod.ext hw rfl
  rw [parse, hsplit]
  rfl

theorem parse_of_words_cons (h : words text = w :: ws) (hmark : w.head? ≠ some '#') :
    ∃ rest, words rest = ws ∧ parse text = ofWord w rest := by
  obtain ⟨hne, hw, hws⟩ := splitWord_of_words_cons h
  have hsplit : splitWord text = (w, (splitWord text).2) := Prod.ext hw rfl
  refine ⟨(splitWord text).2, hws, ?_⟩
  rw [parse, hsplit]
  split
  · next hnil => exact absurd (Prod.mk.inj hnil).1 hne
  · next hcomment => exact absurd (congrArg List.head? (Prod.mk.inj hcomment).1) hmark
  · next hword =>
      obtain ⟨rfl, rfl⟩ := Prod.mk.inj hword
      rfl

/-- A line is read as what its words say. -/
theorem parse_of_says {s : Except ParseError Statement} (h : Says (words text) s) :
    parse text = s := by
  generalize hws : words text = ws at h
  cases h with
  | blank => exact parse_of_words_nil hws
  | stack ws =>
      obtain ⟨rest, -, hparse⟩ := parse_of_words_cons hws (by decide)
      exact hparse.trans (ofWord_mode .stack rest)
  | queue ws =>
      obtain ⟨rest, -, hparse⟩ := parse_of_words_cons hws (by decide)
      exact hparse.trans (ofWord_mode .queue rest)
  | comment cs ws => exact parse_of_words_mark hws
  | @plain i ws _ hpush =>
      obtain ⟨rest, -, hparse⟩ := parse_of_words_cons hws (Opcode.head?_name _)
      exact hparse.trans (ofWord_instruction (Instruction.ofOpcode?_of_ne_push hpush _))
  | @push w n ws hn =>
      obtain ⟨rest, hrest, hparse⟩ := parse_of_words_cons hws (by decide)
      obtain ⟨-, hw, -⟩ := splitWord_of_words_cons hrest
      have hvalue : Operand.value? (splitWord rest).1 = some (.ofInt n) := by
        rw [hw, Operand.value?_of_writes hn]
      refine hparse.trans (ofWord_instruction (o := .push) ?_)
      rw [hvalue]
      rfl
  | @usage ws hw =>
      obtain ⟨rest, hrest, hparse⟩ := parse_of_words_cons hws (by decide)
      refine hparse.trans (ofWord_usage (Operand.value?_eq_none_iff.mpr fun n hn => ?_))
      cases ws with
      | nil =>
          rw [splitWord_of_words_nil hrest] at hn
          cases hn with
          | unsigned hdigits => exact hdigits.ne_nil rfl
      | cons w ws =>
          obtain ⟨-, hfirst, -⟩ := splitWord_of_words_cons hrest
          exact hw w n rfl (hfirst ▸ hn)
  | @unknown w ws hstack hqueue hmark hnames =>
      obtain ⟨rest, -, hparse⟩ := parse_of_words_cons hws hmark
      exact hparse.trans (ofWord_unknown hstack hqueue hnames rest)

/-- Lines of the same words say the same. -/
theorem parse_congr {text' : List Char} (h : words text' = words text) :
    parse text' = parse text := by
  obtain ⟨s, hs⟩ := Says.exists_of_words (words text)
  have hparse : parse text = s := parse_of_says hs
  have hparse' : parse text' = s := parse_of_says (h ▸ hs)
  rw [hparse', hparse]

/-- A blank at the end of a line does not matter. -/
theorem parse_concat_blank {c : Char} (h : isBlank c = true) (text : List Char) :
    parse (text ++ [c]) = parse text :=
  parse_congr (words_concat_blank h text)

/-- A line is accepted and refused as the grammar says, with its number in an error, and nothing
after its second word matters. -/
theorem parseLine_eq_iff (line : Nat) (text : List Char) :
    (∀ r, parseLine line text = r ↔ ∃ s, Says (words text) s ∧ r = s.mapError (Error.parse line)) ∧
      ∀ text', (words text').take 2 = (words text).take 2 →
        parseLine line text' = parseLine line text := by
  obtain ⟨s, hs⟩ := Says.exists_of_words (words text)
  have hparse : parseLine line text = s.mapError (Error.parse line) := by
    rw [parseLine, parse_of_says hs]
  refine ⟨fun r => ⟨fun h => ⟨s, hs, h.symm.trans hparse⟩, ?_⟩, fun text' htake => ?_⟩
  · rintro ⟨s', hs', rfl⟩
    rw [parseLine, parse_of_says hs']
  · rw [hparse, parseLine, parse_of_says (hs.congr htake)]

/-- Blanks and a third word change nothing; a space of another kind is part of the word. -/
theorem parseLine_eq_iff_push :
    (words "\tpush  -17 x".toList).take 2 = (words "push -17".toList).take 2 ∧
      parseLine 3 "\tpush  -17 x".toList = parseLine 3 "push -17".toList ∧
      parseLine 3 "push -17".toList = .ok (.instruction (.push (-17))) ∧
      parseLine 3 "push\u00a05".toList =
        .error (.parse 3 (.unknownInstruction "push\u00a05")) := by
  have htake : (words "\tpush  -17 x".toList).take 2 = (words "push -17".toList).take 2 := by decide
  have hpush : Says (words "push -17".toList) (.ok (.instruction (.push (-17)))) := by
    have hwords : words "push -17".toList = ["push".toList, "-17".toList] := by decide
    rw [hwords]
    exact .push [] (.negative (Operand.isNumeral_iff.mp (by decide)))
  have hspace : Says (words "push\u00a05".toList)
      (.error (.unknownInstruction "push\u00a05")) := by
    have hwords : words "push\u00a05".toList = ["push\u00a05".toList] := by decide
    rw [hwords]
    exact .unknown [] (by decide) (by decide) (by decide) (by decide)
  exact ⟨htake, (parseLine_eq_iff 3 _).2 _ htake, ((parseLine_eq_iff 3 _).1 _).mpr ⟨_, hpush, rfl⟩,
    ((parseLine_eq_iff 3 _).1 _).mpr ⟨_, hspace, rfl⟩⟩

end Statement

end DequeMachine
