/-!
# DequeMachine.Mode

Where a pushed value goes: a program uses the deque as a stack or as a queue.
-/

namespace DequeMachine

/-- The end of the deque that a push works on. -/
inductive Mode where
  /-- A push puts its value at the head. -/
  | stack
  /-- A push puts its value at the tail. -/
  | queue
deriving DecidableEq, Repr

/-- A machine starts as a stack. -/
instance : Inhabited Mode := ⟨.stack⟩

namespace Mode

/-- The word that selects a mode. -/
def name : Mode → String
  | stack => "stack"
  | queue => "queue"

/-- The mode that a word selects. -/
def ofName? (word : String) : Option Mode :=
  [stack, queue].find? (·.name == word)

@[simp]
theorem ofName?_name (m : Mode) : ofName? m.name = some m := by cases m <;> decide

/-- The name of a mode in a log. -/
def label : Mode → String
  | stack => "Stack"
  | queue => "Queue"

end Mode

end DequeMachine
