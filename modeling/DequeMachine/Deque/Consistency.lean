import DequeMachine.Deque.Basic

/-!
# DequeMachine.Deque.Consistency

A check of the links that is safe on every deque, also on one whose links run in circles or lead
nowhere.
-/

namespace DequeMachine.Deque

/-- Whether the links lead from `current` over exactly `remaining` nodes to the tail, each node
naming the one before it, where `before` is the one before `current`. -/
def linkedFrom (d : Deque) : (remaining : Nat) → (before current : Option Nat) → Bool
  | remaining, before, none => remaining == 0 && before == d.tail
  | 0, _, some _ => false
  | remaining + 1, before, some i =>
    match d.slot? i with
    | some s => s.prev == before && d.linkedFrom remaining (some i) s.next
    | none => false

/-- Whether the links from the head agree with each other, with the tail and with the number of
nodes. -/
def isConsistent (d : Deque) : Bool := d.linkedFrom d.size none d.head

end DequeMachine.Deque
