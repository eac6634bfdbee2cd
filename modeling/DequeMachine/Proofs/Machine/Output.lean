import Mathlib.Data.List.TakeWhile
import DequeMachine.Proofs.Machine.Failure
import DequeMachine.Proofs.Machine.Halting

/-!
# DequeMachine.Proofs.Machine.Output

What kind of bytes a machine writes.

1. `AsciiLines` says that a text is made of whole lines of ASCII characters.  Every text that an
   instruction prints is, whatever the deque holds: `asciiLines_of_printed`.
2. A sink takes the beginning of it, which is ASCII too.  If it takes everything, every line of a
   program adds whole lines to it: `ascii_of_mem_log` and `wholeLines_of_mem_log`.
3. `Machine.PrintsText` and `Machine.PrintsCode` say which values are printed as characters.
4. `Machine.runSource_output` puts this together.
-/

namespace DequeMachine

/-! ## Lines of characters -/

/-- No line lacks its end: there is no line, or a line feed comes last. -/
def WholeLines (bytes : List UInt8) : Prop := bytes = [] ∨ bytes.getLast? = some newline

instance (bytes : List UInt8) : Decidable (WholeLines bytes) := inferInstanceAs (Decidable (_ ∨ _))

/-- Whole lines of ASCII characters. -/
structure AsciiLines (bytes : List UInt8) : Prop where
  ascii : ∀ b ∈ bytes, b ≤ 127
  whole : WholeLines bytes

theorem WholeLines.append {xs ys : List UInt8} (hx : WholeLines xs) (hy : WholeLines ys) :
    WholeLines (xs ++ ys) := by
  rcases hy with rfl | hy
  · rwa [List.append_nil]
  · exact .inr (by rw [List.getLast?_append, hy, Option.some_or])

theorem WholeLines.flatMap {α : Type} {f : α → List UInt8} {xs : List α}
    (h : ∀ x ∈ xs, WholeLines (f x)) : WholeLines (xs.flatMap f) := by
  induction xs with
  | nil => exact .inl rfl
  | cons x xs ih =>
      have hrest := ih fun y hy => h y (List.mem_cons_of_mem x hy)
      exact (h x List.mem_cons_self).append hrest

namespace AsciiLines

theorem nil : AsciiLines [] := ⟨nofun, .inl rfl⟩

/-- One line. -/
theorem concat {text : List UInt8} (h : ∀ b ∈ text, b ≤ 127) : AsciiLines (text ++ [newline]) where
  ascii := List.forall_mem_append.mpr ⟨h, List.forall_mem_singleton.mpr (by decide)⟩
  whole := .inr List.getLast?_concat

theorem flatMap {α : Type} {f : α → List UInt8} {xs : List α} (h : ∀ x ∈ xs, AsciiLines (f x)) :
    AsciiLines (xs.flatMap f) where
  ascii := List.forall_mem_flatMap.mpr fun x hx => (h x hx).ascii
  whole := .flatMap fun x hx => (h x hx).whole

end AsciiLines

theorem Value.asciiLines_line (v : Value) : AsciiLines (line v) where
  ascii _ := le_of_mem_line
  whole := .inr List.getLast?_concat

/-! ## Instructions -/

/-- An instruction prints whole lines of ASCII characters, whatever the values are. -/
theorem Instruction.asciiLines_of_printed {i : Instruction} {d : Deque} {bytes : List UInt8}
    (h : i.printed d = .ok bytes) : AsciiLines bytes := by
  cases i with
  | pall =>
      obtain rfl := Except.ok.inj h
      exact .flatMap fun v _ => v.asciiLines_line
  | pint =>
      cases hfront : d.front? with
      | none => simp [printed, hfront] at h
      | some v =>
          obtain rfl : v.line = bytes := by simpa [printed, hfront] using h
          exact v.asciiLines_line
  | pchar =>
      cases hfront : d.front? with
      | none => simp [printed, hfront] at h
      | some v =>
          by_cases hcode : 0 ≤ v.toInt ∧ v.toInt ≤ 127
          · obtain rfl : [v.byte] ++ [newline] = bytes := by
              simpa [printed, hfront, Value.isAscii_eq, hcode] using h
            exact .concat (List.forall_mem_singleton.mpr (Value.byte_le hcode))
          · simp [printed, hfront, Value.isAscii_eq, hcode] at h
  | pstr =>
      obtain rfl := Except.ok.inj h
      refine .concat (List.forall_mem_map.mpr fun v hv => Value.byte_le ?_)
      exact Value.code_of_isText (List.mem_takeWhile_imp hv)
  | _ =>
      obtain rfl := Except.ok.inj h
      exact .nil

namespace Machine

variable {m : Machine} {i : Instruction} {bytes : List UInt8} {vs : List Value}
  {text : List Char} {entry : Entry}

/-- On a sink that takes everything, an instruction writes whole lines, also if it fails. -/
theorem exec_sink (hsink : m.sink.capacity? = none) (i : Instruction) :
    ∃ bytes, AsciiLines bytes ∧
      (m.exec i).2.sink = { m.sink with written := m.sink.written ++ bytes } := by
  cases hprinted : i.printed m.deque with
  | error e => exact ⟨[], .nil, by rw [exec_of_printed_error hprinted, Array.appendList_nil]⟩
  | ok bytes =>
      have hf := Sink.refusal?_of_unlimited hsink bytes
      refine ⟨bytes, i.asciiLines_of_printed hprinted, ?_⟩
      rw [exec_of_accepted hprinted hf, Sink.write_of_unlimited hsink]

/-- An instruction succeeds, writes `bytes`, and changes nothing else. -/
def Writes (m : Machine) (i : Instruction) (bytes : List UInt8) : Prop :=
  m.exec i = (none, m.withSink { m.sink with written := m.sink.written ++ bytes })

theorem writes_of_printed (hsink : m.sink.capacity? = none)
    (hi : i ∈ [.pall, .pint, .pchar, .pstr, .nop]) (h : i.printed m.deque = .ok bytes) :
    m.Writes i bytes := by
  have hf := Sink.refusal?_of_unlimited hsink bytes
  rw [Writes, exec_of_accepted h hf, i.effect_of_mem hi, Sink.write_of_unlimited hsink]
  rfl

/-! ## Values as characters -/

/-- `text` is the longest beginning of `vs` in which all values are codes of characters but 0. -/
structure IsText (text vs : List Value) : Prop where
  isPrefix : text <+: vs
  codes : ∀ v ∈ text, 1 ≤ v.toInt ∧ v.toInt ≤ 127
  longest : ∀ text', text' <+: vs → (∀ v ∈ text', 1 ≤ v.toInt ∧ v.toInt ≤ 127) → text' <+: text

theorem IsText.unique {text text' : List Value} (h : IsText text vs) (h' : IsText text' vs) :
    text = text' := by
  have hle := h'.longest text h.isPrefix h.codes
  exact hle.eq_of_length_le (h.longest text' h'.isPrefix h'.codes).length_le

theorem isText_takeWhile (vs : List Value) : IsText (vs.takeWhile Value.isText) vs where
  isPrefix := List.takeWhile_prefix _
  codes _ hv := Value.isText_iff.mp (List.mem_takeWhile_imp hv)
  longest text' hprefix hcodes := by
    obtain ⟨rest, rfl⟩ := hprefix
    rw [List.takeWhile_append_of_pos fun v hv => Value.isText_iff.mpr (hcodes v hv)]
    exact List.prefix_append _ _

/-- A string is printed with the codes of the values before the first that is no such code. -/
def PrintsText (m : Machine) (vs : List Value) : Prop :=
  ∃ text bytes, IsText text vs ∧
    bytes.map (fun b : UInt8 => (b.toNat : Int)) = text.map Int32.toInt ∧
    m.Writes .pstr (bytes ++ [newline])

/-- There is only one text of bytes that a string can be printed as. -/
theorem PrintsText.writes (h : m.PrintsText vs) (bytes : List UInt8)
    (hbytes : bytes.map (fun b : UInt8 => (b.toNat : Int)) =
      (vs.takeWhile Value.isText).map Int32.toInt) : m.Writes .pstr (bytes ++ [newline]) := by
  obtain ⟨text, bytes', htext, hcodes, hwrites⟩ := h
  have hinj : ∀ b b' : UInt8, (b.toNat : Int) = b'.toNat → b = b' := fun b b' hb =>
    UInt8.toNat_inj.mp (Int.ofNat_inj.mp hb)
  rw [← htext.unique (isText_takeWhile vs), ← hcodes] at hbytes
  rwa [(List.map_inj_right hinj).mp hbytes]

/-- A character is printed with the code that comes first.  If there is none, nothing is. -/
def PrintsCode (m : Machine) (vs : List Value) : Prop :=
  (∀ v ∈ vs.head?, 0 ≤ v.toInt ∧ v.toInt ≤ 127 →
    ∃ b : UInt8, (b.toNat : Int) = v.toInt ∧ m.Writes .pchar [b, newline]) ∧
  ((∀ v ∈ vs.head?, ¬(0 ≤ v.toInt ∧ v.toInt ≤ 127)) → ∃ e, m.exec .pchar = (some e, m))

theorem printsText (hsink : m.sink.capacity? = none) (h : m.deque.Shows vs) :
    m.PrintsText vs := by
  refine ⟨_, (vs.takeWhile Value.isText).map Value.byte, isText_takeWhile vs, ?_, ?_⟩
  · rw [List.map_map]
    refine List.map_congr_left fun v hv => Value.toNat_byte ?_
    exact Value.code_of_isText (List.mem_takeWhile_imp hv)
  · refine writes_of_printed hsink (by simp) ?_
    rw [Instruction.printed, Deque.values, h.values?, Option.getD_some]

theorem printsCode (hsink : m.sink.capacity? = none) (h : m.deque.Shows vs) :
    m.PrintsCode vs := by
  refine ⟨fun v hv hcode => ⟨v.byte, Value.toNat_byte hcode, ?_⟩, fun hnone => ?_⟩
  · refine writes_of_printed hsink (by simp) ?_
    simp [Instruction.printed, h.front?, Option.mem_def.mp hv, Value.isAscii_eq, hcode]
  · cases hhead : vs.head? with
    | none =>
        refine ⟨.pcharEmpty, exec_of_printed_error ?_⟩
        simp [Instruction.printed, h.front?, hhead]
    | some v =>
        refine ⟨.pcharRange, exec_of_printed_error ?_⟩
        simp [Instruction.printed, h.front?, hhead, Value.isAscii_eq, hnone v hhead]

/-! ## Runs -/

/-- A line asks to print whole lines. -/
theorem asciiLines_request (m : Machine) (text : List Char) : AsciiLines (m.request text) := by
  by_cases h : ∃ i, m.Prints text i
  · obtain ⟨i, hi⟩ := h
    exact i.asciiLines_of_printed hi.printed
  · rw [(step_of_not_prints (not_exists.mp h)).1]
    exact .nil

/-- All output of a line belongs to the one entry that it may have in the log. -/
theorem Step.output_of_mem_log {r : Step} (h : entry ∈ r.log) : entry.output = r.output := by
  obtain ⟨error?, entry?, m⟩ := r
  cases entry? with
  | none => exact absurd h (Array.not_mem_empty entry)
  | some entry' =>
      obtain rfl : entry = entry' := Array.mem_singleton.mp h
      simp [output, log]

theorem output_of_mem_log (h : entry ∈ (m.step text).log) :
    entry.output = m.sink.kept (m.request text) :=
  (Step.output_of_mem_log h).trans (step_sink m text).2

/-- Every byte that a run writes is that of an ASCII character, whatever the sink takes. -/
theorem ascii_of_mem_log (m : Machine) (script : Script) :
    ∀ entry ∈ (m.run script).log, ∀ b ∈ entry.output, b ≤ 127 := by
  have hline : ∀ (q : Machine) (text : List Char), ∀ entry ∈ (q.step text).log,
      ∀ b ∈ entry.output, b ≤ 127 := fun q text entry hentry b hb => by
    rw [output_of_mem_log hentry] at hb
    exact (q.asciiLines_request text).ascii b ((q.sink.kept_isPrefix _).subset hb)
  exact forall_mem_log_run (forall_mem_log hline m.reset script.lines) fun _ => nofun

/-- On a sink that takes everything, each line of a program adds whole lines. -/
theorem wholeLines_of_mem_log (hsink : m.sink.capacity? = none) (script : Script) :
    ∀ entry ∈ (m.run script).log, WholeLines entry.output := by
  have hnext : ∀ (q : Machine) (text : List Char), q.sink.capacity? = none →
      (q.step text).machine.sink.capacity? = none := fun q text hq => by
    rw [(step_sink q text).1]
    exact hq
  have hline : ∀ (q : Machine) (text : List Char), q.sink.capacity? = none →
      ∀ entry ∈ (q.step text).log, WholeLines entry.output := fun q text hq entry hentry => by
    rw [output_of_mem_log hentry, Sink.kept_eq_self (Sink.refusal?_of_unlimited hq _)]
    exact (q.asciiLines_request text).whole
  have hlines := forall_mem_log_of (m := m.reset) (K := fun q => q.sink.capacity? = none)
    hnext hline hsink script.lines
  exact forall_mem_log_run hlines fun _ => .inl rfl

/-- Whatever a program, its source and the sink are, a run writes ASCII.  If the sink takes
everything, each instruction writes whole lines and so does every run, also one that fails.  With
any values on the deque, characters are printed exactly for the values that are their codes. -/
theorem runSource_output (m : Machine) :
    (∀ s : Source,
      let r := m.runSource s
      r.machine.sink.written.toList = m.sink.written.toList ++ r.output ∧
        ∀ b ∈ r.output, b ≤ 127) ∧
    (m.sink.capacity? = none →
      (∀ i, ∃ bytes, WholeLines bytes ∧
        (m.exec i).2.sink = { m.sink with written := m.sink.written ++ bytes }) ∧
      (∀ s : Source,
        let r := m.runSource s
        WholeLines r.output ∧ ∀ entry ∈ r.log, WholeLines entry.output) ∧
      ∀ limit ops, m.deque = Deque.applyAll limit ∅ ops →
        ∃ vs, m.deque.values? = some vs ∧ m.PrintsText vs ∧ m.PrintsCode vs) := by
  refine ⟨fun s => ⟨?_, ?_⟩, fun hsink => ⟨fun i => ?_, fun s => ?_, fun limit ops hops => ?_⟩⟩
  · rw [runSource_eq, run_sink, Array.toList_appendList]
  · rw [runSource_eq]
    exact List.forall_mem_flatMap.mpr fun entry hentry =>
      ascii_of_mem_log m s.script entry (Array.mem_toList_iff.mp hentry)
  · obtain ⟨bytes, hbytes, hwritten⟩ := exec_sink hsink i
    exact ⟨bytes, hbytes.whole, hwritten⟩
  · have hlog := wholeLines_of_mem_log hsink s.script
    rw [runSource_eq]
    exact ⟨.flatMap fun entry hentry => hlog entry (Array.mem_toList_iff.mp hentry), hlog⟩
  · have hshows := ((Deque.Holds.empty limit).applyAll ops).shows
    rw [← hops] at hshows
    exact ⟨_, hshows.values?, printsText hsink hshows, printsCode hsink hshows⟩

/-- The values 72, 105 and 328, of which the last has the code 72 only modulo 256, on one machine
and the last alone on another.  And a program that fails as it prints the last. -/
theorem runSource_output_codes :
    let m : Machine :=
      ⟨3, .applyAll 3 ∅ [.pushBack 72, .pushBack 105, .pushBack 328], .stack, 0, .ready, .unlimited⟩
    let m' : Machine := ⟨1, .applyAll 1 ∅ [.pushBack 328], .stack, 0, .ready, .unlimited⟩
    let r := m.runSource (.text "push 328\npstr\npchar")
    m.Writes .pstr [72, 105, newline] ∧ m.Writes .pchar [72, newline] ∧
      m'.Writes .pstr [newline] ∧ (∃ e, m'.exec .pchar = (some e, m')) ∧
      r.error? = some (.exec 3 .pcharRange) ∧ WholeLines r.output ∧ ∀ b ∈ r.output, b ≤ 127 := by
  intro m m' r
  have hvalues : m.deque.values? = some [72, 105, 328] := by decide
  have hvalues' : m'.deque.values? = some [328] := by decide
  obtain ⟨hascii, hwhole⟩ := runSource_output m
  obtain ⟨-, hlines, hm⟩ := hwhole rfl
  obtain ⟨-, -, hm'⟩ := (runSource_output m').2 rfl
  obtain ⟨vs, hvs, htext, hcode, -⟩ := hm 3 _ rfl
  obtain rfl : [72, 105, 328] = vs := Option.some.inj (hvalues.symm.trans hvs)
  obtain ⟨b, hb, hpchar⟩ := hcode 72 rfl (by decide)
  obtain rfl : b = 72 := UInt8.toNat_inj.mp (Int.ofNat_inj.mp hb)
  obtain ⟨vs', hvs', htext', -, hnone⟩ := hm' 1 _ rfl
  obtain rfl : [328] = vs' := Option.some.inj (hvalues'.symm.trans hvs')
  have hcode' : ∀ v : Value, some 328 = some v → ¬(0 ≤ v.toInt ∧ v.toInt ≤ 127) := by
    rintro v ⟨⟩
    decide
  exact ⟨htext.writes [72, 105] (by decide), hpchar, htext'.writes [] (by decide),
    hnone hcode', by decide +kernel, (hlines _).1, (hascii _).2⟩

end Machine

end DequeMachine
