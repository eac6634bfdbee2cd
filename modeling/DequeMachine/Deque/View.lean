import DequeMachine.Deque.Basic

/-!
# DequeMachine.Deque.View

What a deque shows: its values from head to tail, and the first two and the last of them.
-/

namespace DequeMachine.Deque

/-- Whether there is no node. -/
def isEmpty (d : Deque) : Bool := d.head.isNone

/-- The values of at most `fuel` nodes from `current` on, after those in `seen`, which are in
reverse.  `none` if there are more nodes or one of them is not live. -/
def valuesFrom? (d : Deque) : (fuel : Nat) → (current : Option Nat) → (seen : List Value) →
    Option (List Value)
  | _, none, seen => some seen.reverse
  | 0, some _, _ => none
  | fuel + 1, some i, seen =>
    match d.slot? i with
    | some s => d.valuesFrom? fuel s.next (s.value :: seen)
    | none => none

/-- The values from head to tail; `none` if the links do not lead to an end. -/
def values? (d : Deque) : Option (List Value) := d.valuesFrom? d.slots.size d.head []

/-- The values from head to tail. -/
def values (d : Deque) : List Value := d.values?.getD []

/-- The value at the head. -/
def front? (d : Deque) : Option Value := do
  let s ← d.slot? (← d.head)
  return s.value

/-- The value next to the head. -/
def second? (d : Deque) : Option Value := do
  let s ← d.slot? (← d.head)
  let t ← d.slot? (← s.next)
  return t.value

/-- The value at the tail. -/
def back? (d : Deque) : Option Value := do
  let s ← d.slot? (← d.tail)
  return s.value

end DequeMachine.Deque
