import DequeMachine.Deque.Operation
import DequeMachine.Mode
import DequeMachine.Sink

/-!
# DequeMachine.Machine.Basic

The state of a machine between two lines of a program.
-/

namespace DequeMachine

/-- What a machine did last. -/
inductive Status where
  /-- Nothing since it was made or reset. -/
  | ready
  /-- It ran a program to its end. -/
  | finished
  /-- An error stopped it. -/
  | failed
deriving DecidableEq, Repr

/-- A machine that executes programs. -/
structure Machine where
  /-- The most slots that the deque may have. -/
  limit : Nat
  deque : Deque
  mode : Mode
  /-- The number of lines read; `Machine.maxLines` says how far a machine can count. -/
  line : Nat
  status : Status
  sink : Sink
deriving DecidableEq, Repr

namespace Machine

/-- The most slots a deque may have at all: a slot number is a word of 32 bits. -/
def maxSlots : Nat := 4294967296

/-- One line more than a machine can count: the number of a line is a word of 32 bits, which a
program of fewer lines never makes overflow. -/
def maxLines : Nat := 4294967296

/-- A machine that has not run yet. -/
def new (limit : Nat) (sink : Sink) : Machine := ⟨limit, .empty, .stack, 0, .ready, sink⟩

/-- Releases the deque and goes back to the first mode and line.  The sink stays as it is. -/
def reset (m : Machine) : Machine :=
  { m with deque := m.deque.clear.2, mode := .stack, line := 0, status := .ready }

/-- Nothing but the limit and the sink outlives a reset. -/
theorem reset_eq_new (m : Machine) : m.reset = new m.limit m.sink := rfl

end Machine

end DequeMachine
