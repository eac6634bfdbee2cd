import DequeMachine.Decimal
import DequeMachine.Instruction
import DequeMachine.Mode

/-!
# DequeMachine.Log

What a machine reports about its work while it runs.

* An `Event` says that an instruction is about to be executed, that the mode changes, or that a run
  has cleaned up.
* An `Entry` is an event with the output that follows it.
* A `Verbosity` says which events are shown.
-/

namespace DequeMachine

/-! ## Levels -/

/-- How important a report is, the most important level first. -/
inductive Level where
  | error
  | warn
  | info
  | debug
  | trace
deriving DecidableEq, Repr

namespace Level

/-- The position of a level among all. -/
def rank : Level → Nat
  | error => 1
  | warn => 2
  | info => 3
  | debug => 4
  | trace => 5

/-- The name of a level at the start of a report. -/
def label : Level → String
  | error => "ERROR"
  | warn => "WARN"
  | info => "INFO"
  | debug => "DEBUG"
  | trace => "TRACE"

/-- The word that asks for a level and all that are more important. -/
def name : Level → String
  | error => "error"
  | warn => "warn"
  | info => "info"
  | debug => "debug"
  | trace => "trace"

end Level

/-- Which reports are shown. -/
inductive Verbosity where
  | off
  | upTo (level : Level)
deriving DecidableEq, Repr

namespace Verbosity

/-- Warnings are shown unless something else is asked for. -/
instance : Inhabited Verbosity := ⟨.upTo .warn⟩

/-- Whether a report of a level is shown. -/
def shows : Verbosity → Level → Bool
  | off, _ => false
  | upTo most, level => level.rank ≤ most.rank

/-- Every verbosity. -/
def all : List Verbosity :=
  [off, upTo .error, upTo .warn, upTo .info, upTo .debug, upTo .trace]

/-- The word that asks for a verbosity. -/
def name : Verbosity → String
  | off => "off"
  | upTo level => level.name

/-- The verbosity that a word asks for. -/
def ofName? (word : String) : Option Verbosity := all.find? (·.name == word)

@[simp]
theorem ofName?_name (v : Verbosity) : ofName? v.name = some v := by
  cases v with
  | off => decide
  | upTo level => cases level <;> decide

end Verbosity

/-! ## Events -/

/-- What a machine reports. -/
inductive Event where
  /-- An instruction is about to be executed. -/
  | exec (line : Nat) (instruction : Instruction)
  /-- The mode changes. -/
  | switch (line : Nat) (mode : Mode)
  /-- A run has ended and its nodes are released. -/
  | released (count : Nat)
deriving DecidableEq, Repr

namespace Event

/-- The level of an event. -/
def level : Event → Level
  | exec _ _ => .trace
  | switch _ _ => .debug
  | released _ => .debug

/-- The description of an event. -/
def text : Event → String
  | exec line i => "exec line=" ++ Decimal.text line ++ " instruction=" ++ i.label
  | switch line m => "switching mode line=" ++ Decimal.text line ++ " mode=" ++ m.label
  | released count => "released sequence released=" ++ Decimal.text count

/-- An event as a line of a log. -/
def report (e : Event) : String := e.level.label ++ " " ++ e.text

end Event

/-- An event and the output between it and the next one. -/
structure Entry where
  event : Event
  output : List UInt8
deriving DecidableEq, Repr

end DequeMachine
