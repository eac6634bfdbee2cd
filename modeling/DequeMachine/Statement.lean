import DequeMachine.Error
import DequeMachine.Instruction
import DequeMachine.Mode
import DequeMachine.Operand

/-!
# DequeMachine.Statement

What a line of a program says.

1. A line is read as words; a word is a longest run of characters other than the six blanks.
2. The first word decides: none is a blank line, one that starts with `#` is a comment, the name of
   a mode selects it, the name of an opcode is an instruction, and every other word is an error.
3. The second word is the operand of an instruction that takes one.  Nothing else on the line
   matters.
-/

namespace DequeMachine

/-! ## Words -/

/-- The characters that separate words: space, tab, line feed, carriage return, vertical tab and
form feed. -/
def isBlank (c : Char) : Bool :=
  c == ' ' || c == '\t' || c == '\n' || c == '\r' || c == '\x0b' || c == '\x0c'

theorem isBlank_iff {c : Char} :
    isBlank c = true ↔ c ∈ [' ', '\t', '\n', '\r', '\x0b', '\x0c'] := by
  simp [isBlank, or_assoc]

/-- The first word of a text, empty if there is none, and what follows it. -/
def splitWord (cs : List Char) : List Char × List Char :=
  (cs.dropWhile isBlank).span (!isBlank ·)

/-- Skipping blanks does not change the first word. -/
theorem splitWord_cons_blank {c : Char} (h : isBlank c = true) (cs : List Char) :
    splitWord (c :: cs) = splitWord cs := by
  simp [splitWord, h]

/-! ## Statements -/

/-- What a line says. -/
inductive Statement where
  /-- Nothing. -/
  | blank
  /-- A remark. -/
  | comment
  /-- A change of the mode. -/
  | mode (mode : Mode)
  /-- An instruction to execute. -/
  | instruction (instruction : Instruction)
deriving DecidableEq, Repr

namespace Statement

/-- The statement of a first word and the rest of its line. -/
def ofWord (word rest : List Char) : Except ParseError Statement :=
  match Mode.ofName? (String.ofList word), Opcode.ofName? (String.ofList word) with
  | some m, _ => .ok (.mode m)
  | none, none => .error (.unknownInstruction (String.ofList word))
  | none, some o =>
    match Instruction.ofOpcode? o (Operand.value? (splitWord rest).1) with
    | some i => .ok (.instruction i)
    | none => .error (.invalidOperand o)

/-- The statement of a line. -/
def parse (text : List Char) : Except ParseError Statement :=
  match splitWord text with
  | ([], _) => .ok .blank
  | ('#' :: _, _) => .ok .comment
  | (word, rest) => ofWord word rest

/-- The statement of a numbered line. -/
def parseLine (line : Nat) (text : List Char) : Except Error Statement :=
  (parse text).mapError (Error.parse line)

theorem parseLine_of_ok {text : List Char} {st : Statement} (h : parse text = .ok st)
    (line : Nat) : parseLine line text = .ok st := by
  rw [parseLine, h]
  rfl

theorem parseLine_of_error {text : List Char} {e : ParseError} (h : parse text = .error e)
    (line : Nat) : parseLine line text = .error (.parse line e) := by
  rw [parseLine, h]
  rfl

end Statement

end DequeMachine
