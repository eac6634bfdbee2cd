import DequeMachine.Proofs.Machine.Simulation
import DequeMachine.Proofs.Statement.Grammar
import DequeMachine.Proofs.Text.Stream

/-!
# DequeMachine.Proofs.Machine.RoundTrip

Printing and pushing are inverse.

* A `Move` is a line that selects a mode or pushes a value.  `Move.parse_text` says that it is read
  as what it says, and `Move.runLines_append` what any number of them do.
* `Move.values_foldl`: the values stand between the two ends at which they went in.
* `lines_numerals`: the lines of printed values are their numerals.
* `prints_of_moves`: a program of moves prints its values, and these lines, pushed in a queue, are
  printed again.
-/

namespace DequeMachine

/-! ## Moves -/

/-- A line of a program that fills the deque. -/
inductive Move where
  /-- Selects a mode. -/
  | mode (mode : Mode)
  /-- Pushes a value. -/
  | push (value : Value)
deriving DecidableEq, Repr

/-- The decimal text of a value. -/
def Value.word (v : Value) : List Char := (toString v.toInt).toList

namespace Move

/-- The text of the line.  A value is written as it is printed. -/
def text : Move → List Char
  | mode m => m.name.toList
  | push v => "push ".toList ++ v.word

/-- What the line says. -/
def statement : Move → Statement
  | mode m => .mode m
  | push v => .instruction (.push v)

/-- Whether the line pushes. -/
def isPush : Move → Bool
  | mode _ => false
  | push _ => true

/-- The values that are pushed in the mode `mode`, if the lines start in `current`. -/
def pushed (mode : Mode) : (current : Mode) → List Move → List Value
  | _, [] => []
  | _, .mode m :: moves => pushed mode m moves
  | current, .push v :: moves =>
    if current = mode then v :: pushed mode current moves else pushed mode current moves

/-- What the line does where there is room. -/
def apply (s : ListMachine.State) : Move → ListMachine.State
  | mode m => { s with mode := m }
  | push v =>
    match s.mode with
    | .stack => { s with values := v :: s.values }
    | .queue => { s with values := s.values ++ [v] }

end Move

/-! ## Reading a line -/

theorem Operand.Writes.ne_nil {cs : List Char} {n : Int} (h : Writes cs n) : cs ≠ [] := by
  cases h with
  | unsigned h => exact h.ne_nil
  | negative _ => exact List.cons_ne_nil _ _

/-- A number is one word. -/
theorem Operand.Writes.isBlank_eq_false {cs : List Char} {n : Int} (h : Writes cs n) {c : Char}
    (hc : c ∈ cs) : isBlank c = false := by
  have hdigit : ∀ {ds : List Char}, Digits ds → ∀ c ∈ ds, isBlank c = false := fun hds c hc => by
    have hd := hds.isDigit c hc
    by_contra hblank
    simp only [isBlank, Bool.not_eq_false, Bool.or_eq_true, beq_iff_eq] at hblank
    rcases hblank with ((((rfl | rfl) | rfl) | rfl) | rfl) | rfl <;> exact absurd hd (by decide)
  cases h with
  | unsigned h => exact hdigit h c hc
  | negative h =>
      rcases List.mem_cons.mp hc with rfl | hc
      · decide
      · exact hdigit h c hc

namespace Value

theorem writes_word (v : Value) : Operand.Writes v.word v.toInt := by
  rw [word, ← decimal_eq_toString]
  exact Operand.writes_ofInt v.toInt

theorem notMem_word {c : Char} (hc : isBlank c = true) (v : Value) : c ∉ v.word := fun hmem => by
  rw [v.writes_word.isBlank_eq_false hmem] at hc
  exact Bool.noConfusion hc

theorem words_push (v : Value) : words ("push ".toList ++ v.word) = ["push".toList, v.word] := by
  have hword := words_of_notBlank v.writes_word.ne_nil fun _ => v.writes_word.isBlank_eq_false
  have hcut : "push ".toList ++ v.word = "push".toList ++ ' ' :: v.word := rfl
  rw [hcut, words_append_blank (by decide), hword]
  rfl

end Value

namespace Move

/-- A line is read as what it says. -/
theorem parse_text (m : Move) : Statement.parse m.text = .ok m.statement := by
  cases m with
  | mode m => cases m <;> rfl
  | push v =>
      refine Statement.parse_of_says ?_
      rw [text, v.words_push, statement, ← Int32.ofInt_toInt v]
      exact .push [] (by simpa using v.writes_word)

/-- No character that ends a line is in the text. -/
theorem notMem_text {c : Char} (hc : c = '\n' ∨ c = '\r') (m : Move) : c ∉ m.text := by
  cases m with
  | mode m => rcases hc with rfl | rfl <;> cases m <;> decide
  | push v =>
      have hpush : c ∉ "push ".toList := by rcases hc with rfl | rfl <;> decide
      have hword : c ∉ v.word := v.notMem_word (by rcases hc with rfl | rfl <;> decide)
      exact fun hmem => (List.mem_append.mp hmem).elim hpush hword

/-! ## What moves do -/

/-- Values that are all pushed in one mode. -/
theorem pushed_map_push (mode current : Mode) (vs : List Value) :
    pushed mode current (vs.map push) = if current = mode then vs else [] := by
  induction vs with
  | nil => simp [pushed]
  | cons v vs ih =>
      rw [List.map_cons, pushed, ih]
      split <;> rfl

/-- Each push goes in at one of the two ends. -/
theorem length_pushed (current : Mode) (moves : List Move) :
    (pushed .stack current moves).length + (pushed .queue current moves).length =
      moves.countP isPush := by
  induction moves generalizing current with
  | nil => rfl
  | cons m moves ih =>
      cases m with
      | mode m => exact ih m
      | push v =>
          have hcount : (push v :: moves).countP isPush = moves.countP isPush + 1 :=
            List.countP_cons_of_pos rfl
          rw [hcount, ← ih current]
          cases current
          · exact Nat.add_right_comm _ _ _
          · rfl

variable {limit : Nat} {s : ListMachine.State}

theorem length_values_apply (m : Move) :
    (m.apply s).values.length = s.values.length + [m].countP isPush := by
  cases m with
  | mode _ => rfl
  | push v => cases hmode : s.mode <;> simp [apply, hmode, isPush]

/-- A line prints nothing and does what it says, if there is room for what it pushes. -/
theorem step_text (m : Move) (hroom : s.values.length + [m].countP isPush ≤ limit) (line : Nat) :
    ListMachine.step limit line s m.text = .ok ([], m.apply s) := by
  rw [ListMachine.step, m.parse_text]
  cases m with
  | mode _ => rfl
  | push v =>
      have hlt : s.values.length ≠ limit := by
        simp only [isPush, List.countP_singleton, if_true] at hroom
        omega
      cases hmode : s.mode <;>
        simp [statement, ListMachine.statement, ListMachine.exec, hlt, hmode, apply, Except.map,
          Except.mapError]

/-- The lines of moves that have room for what they push, followed by others. -/
theorem runLines_append {moves : List Move}
    (hroom : s.values.length + moves.countP isPush ≤ limit) (line : Nat)
    (texts : List (List Char)) :
    ListMachine.runLines limit line s (moves.map text ++ texts) =
      ListMachine.runLines limit (line + moves.length) (moves.foldl apply s) texts := by
  induction moves generalizing s line with
  | nil => rfl
  | cons m moves ih =>
      rw [← List.singleton_append, List.countP_append] at hroom
      have hrest : (m.apply s).values.length + moves.countP isPush ≤ limit := by
        rw [length_values_apply]
        omega
      rw [List.map_cons, List.cons_append, ListMachine.runLines, m.step_text (by omega)]
      simp only [ih hrest, ListMachine.Outcome.after, List.nil_append, List.foldl_cons,
        List.length_cons]
      rw [Nat.add_right_comm, Nat.add_assoc]

/-- What is pushed in the stack mode stands before what was there, the last one first, and what is
pushed in the queue mode after it. -/
theorem values_foldl (moves : List Move) (s : ListMachine.State) :
    (moves.foldl apply s).values =
      (pushed .stack s.mode moves).reverse ++ s.values ++ pushed .queue s.mode moves := by
  induction moves generalizing s with
  | nil => simp [pushed]
  | cons m moves ih =>
      rw [List.foldl_cons, ih]
      cases m with
      | mode _ => rfl
      | push v => cases hmode : s.mode <;> simp [apply, hmode, pushed]

end Move

/-! ## Programs of moves -/

/-- A run of the text succeeds and adds `out` to what was written, where the sink takes
everything. -/
def Prints (limit : Nat) (source : String) (out : List UInt8) : Prop :=
  ∀ (written : Array UInt8) (flushedAt : Array Nat),
    (interpret limit ⟨none, none, written, flushedAt⟩ source).error? = none ∧
      (interpret limit ⟨none, none, written, flushedAt⟩ source).machine.sink.written.toList =
        written.toList ++ out

/-- The text has the lines of some moves and one that prints all values, however they end. -/
def Fills (moves : List Move) (source : String) : Prop :=
  Lines.Spells '\n' '\r' (moves.map Move.text ++ ["pall".toList]) source.toList

theorem prints_of_runLines {limit : Nat} {source : String} {lines : List (List Char)}
    {o : ListMachine.Outcome} (hlines : Lines.all '\n' '\r' source.toList = lines)
    (ho : ListMachine.runLines limit 0 ⟨[], .stack⟩ lines = o) (herror : o.error? = none) :
    Prints limit source o.output := by
  intro written flushedAt
  let sink : Sink := ⟨none, none, written, flushedAt⟩
  let q := (Machine.new limit sink).runLines #[] lines
  have hnew : (Machine.new limit sink).Simulates ⟨[], .stack⟩ := ⟨.empty limit, rfl, rfl⟩
  have hq : Machine.Matches sink o q := ho ▸ hnew.runLines #[] lines
  have hrun : interpret limit sink source = q.finish none := by
    rw [interpret, Machine.runText, Script.ofText, hlines]
    rfl
  have hflush : q.machine.sink.flushFault? = none := by rw [hq.sink]; rfl
  rw [hrun, Report.finish_of_flush hflush]
  refine ⟨hq.error?.trans herror, ?_⟩
  change q.machine.sink.written.toList = _
  rw [hq.sink, Sink.write_of_unlimited rfl]
  simp [sink]

theorem step_pall (limit line : Nat) (s : ListMachine.State) :
    ListMachine.step limit line s "pall".toList = .ok (s.values.flatMap Value.numeral, s) := rfl

theorem Fills.all_eq {moves : List Move} {source : String} (h : Fills moves source) :
    Lines.all '\n' '\r' source.toList = moves.map Move.text ++ ["pall".toList] := by
  refine Lines.Spells.all_eq (by decide) h fun line hline => ?_
  rcases List.mem_append.mp hline with hline | hline
  · obtain ⟨m, -, rfl⟩ := List.mem_map.mp hline
    exact ⟨m.notMem_text (.inl rfl), m.notMem_text (.inr rfl)⟩
  · obtain rfl := List.mem_singleton.mp hline
    decide

theorem Fills.prints {limit : Nat} {moves : List Move} {source : String} (h : Fills moves source)
    (hroom : moves.countP Move.isPush ≤ limit) :
    Prints limit source (((Move.pushed .stack .stack moves).reverse ++
      Move.pushed .queue .stack moves).flatMap Value.numeral) := by
  let s : ListMachine.State := moves.foldl Move.apply ⟨[], .stack⟩
  have hlast : ListMachine.runLines limit moves.length s ["pall".toList] =
      ⟨none, s.values.flatMap Value.numeral, s.mode, moves.length + 1⟩ := by
    rw [ListMachine.runLines, step_pall]
    simp [ListMachine.runLines, ListMachine.Outcome.after]
  have hmoves : ListMachine.runLines limit 0 ⟨[], .stack⟩
      (moves.map Move.text ++ ["pall".toList]) = _ :=
    Move.runLines_append (by simpa using hroom) 0 ["pall".toList]
  rw [Nat.zero_add, hlast] at hmoves
  have hprints := prints_of_runLines h.all_eq hmoves rfl
  simpa [s, Move.values_foldl] using hprints

/-- The lines of printed values are their decimal texts. -/
theorem lines_numerals (vs : List Value) :
    (Script.ofReads [.bytes (vs.flatMap Value.numeral)]).lines = vs.map Value.word := by
  let text := (vs.map Value.word).flatMap (· ++ ['\n'])
  have hbytes : vs.flatMap Value.numeral = (String.ofList text).toUTF8.data.toList := by
    rw [Utf8.toList_toUTF8, String.toList_ofList, Utf8.encode, List.flatMap_assoc,
      List.flatMap_map]
    refine List.flatMap_congr fun v _ => ?_
    rw [List.flatMap_append]
    rfl
  rw [Script.ofReads_of_received (by rw [Read.received_singleton, hbytes]), Script.ofText,
    String.toList_ofList]
  refine (Lines.spells_flatMap '\n' '\r' _).all_eq (by decide) fun line hline => ?_
  obtain ⟨v, -, rfl⟩ := List.mem_map.mp hline
  exact ⟨v.notMem_word (by decide), v.notMem_word (by decide)⟩

/-- The values are printed one a line, those of the stack mode in reverse, then those of the queue
mode.  The printed lines, pushed in the queue mode, are printed again. -/
theorem prints_of_moves {limit : Nat} {moves : List Move} {source : String}
    (hroom : moves.countP Move.isPush ≤ limit) (h : Fills moves source) :
    let out := ((Move.pushed .stack .stack moves).reverse ++
      Move.pushed .queue .stack moves).flatMap Value.numeral
    Prints limit source out ∧
      ∀ again : String, Lines.Spells '\n' '\r'
          ("queue".toList :: (Script.ofReads [.bytes out]).lines.map ("push ".toList ++ ·) ++
            ["pall".toList]) again.toList →
        Prints limit again out := by
  intro out
  refine ⟨h.prints hroom, fun again hagain => ?_⟩
  let vs := (Move.pushed .stack .stack moves).reverse ++ Move.pushed .queue .stack moves
  have hlength : vs.length = moves.countP Move.isPush := by
    rw [List.length_append, List.length_reverse, Move.length_pushed]
  have hfills : Fills (.mode .queue :: vs.map .push) again := by
    rw [lines_numerals, List.map_map] at hagain
    rw [Fills, List.map_cons, List.map_map]
    exact hagain
  have hstack : Move.pushed .stack .stack (.mode .queue :: vs.map .push) = [] :=
    Move.pushed_map_push .stack .queue vs
  have hqueue : Move.pushed .queue .stack (.mode .queue :: vs.map .push) = vs :=
    Move.pushed_map_push .queue .queue vs
  have hroom' : (Move.mode .queue :: vs.map .push).countP Move.isPush ≤ limit := by
    rw [← Move.length_pushed .stack, hstack, hqueue, List.length_nil, Nat.zero_add, hlength]
    exact hroom
  have hprints := hfills.prints hroom'
  rwa [hstack, hqueue] at hprints

/-- Both modes, both kinds of line ends and the least value. -/
theorem prints_of_moves_both :
    Prints 3 "push 1\r\nqueue\npush -2147483648\nstack\npush 7\npall"
        "7\n1\n-2147483648\n".toUTF8.data.toList ∧
      Prints 3 "queue\npush 7\npush 1\npush -2147483648\npall\n"
        "7\n1\n-2147483648\n".toUTF8.data.toList := by
  let moves : List Move := [.push 1, .mode .queue, .push (-2147483648), .mode .stack, .push 7]
  have hfills : Fills moves "push 1\r\nqueue\npush -2147483648\nstack\npush 7\npall" :=
    .returned "push 1".toList (.fed "queue".toList (.fed "push -2147483648".toList
      (.fed "stack".toList (.fed "push 7".toList (.unended (by decide))))))
  have hroom : moves.countP Move.isPush ≤ 3 := by decide
  have hout : ((Move.pushed .stack .stack moves).reverse ++
      Move.pushed .queue .stack moves).flatMap Value.numeral =
        "7\n1\n-2147483648\n".toUTF8.data.toList := by
    decide
  obtain ⟨hfirst, hagain⟩ := prints_of_moves hroom hfills
  rw [hout] at hfirst
  refine ⟨hfirst, hout ▸ hagain _ ?_⟩
  rw [lines_numerals]
  exact .fed "queue".toList (.fed "push 7".toList (.fed "push 1".toList
    (.fed "push -2147483648".toList (.fed "pall".toList .nil))))

end DequeMachine
