import DequeMachine.Value

/-!
# DequeMachine.Deque.Basic

A double-ended sequence of values, kept as a doubly linked list whose nodes are slots of one array.

* A *live* slot is a node and holds a value and the numbers of its neighbours.
* A slot whose node was removed keeps its value, has no neighbours, and waits on a stack of free
  slots.  The slot that was freed last is used first; the array grows only when none is free.

Every access to a slot goes through `slot?` or `update?`, which answer `none` unless the slot exists
and is live, and the number of nodes is counted by `grow?` and `shrink?`, which answer `none` beyond
the number of slots and below zero.  On a well-linked deque no check fails.
-/

namespace DequeMachine

/-- A node of the list, or the place of a removed one. -/
structure Slot where
  value : Value
  /-- The neighbour on the side of the head. -/
  prev : Option Nat
  /-- The neighbour on the side of the tail. -/
  next : Option Nat
  /-- Whether the slot is a node. -/
  live : Bool
deriving DecidableEq, Repr

namespace Slot

/-- A node without neighbours. -/
def single (v : Value) : Slot := ⟨v, none, none, true⟩

/-- The slot without its neighbours. -/
def detach (s : Slot) : Slot := { s with prev := none, next := none }

end Slot

/-- A doubly linked list of values in an array of slots. -/
structure Deque where
  slots : Array Slot
  /-- The free slots, the one to use next first. -/
  free : List Nat
  /-- The first node. -/
  head : Option Nat
  /-- The last node. -/
  tail : Option Nat
  /-- The number of nodes. -/
  size : Nat
deriving DecidableEq, Repr

namespace Deque

/-- The deque without slots. -/
def empty : Deque := ⟨#[], [], none, none, 0⟩

instance : EmptyCollection Deque := ⟨empty⟩

instance : Inhabited Deque := ⟨empty⟩

/-! ## Slots -/

/-- The node at a slot number. -/
def slot? (d : Deque) (i : Nat) : Option Slot :=
  d.slots[i]?.filter (·.live)

/-- Changes the node at a slot number. -/
def update? (d : Deque) (i : Nat) (f : Slot → Slot) : Option Deque :=
  if h : i < d.slots.size then
    if d.slots[i].live then some { d with slots := d.slots.set i (f d.slots[i]) } else none
  else
    none

/-- Counts one node more.  There are at most as many nodes as slots. -/
def grow? (d : Deque) : Option Deque :=
  if d.size < d.slots.size then some { d with size := d.size + 1 } else none

/-- Counts one node less. -/
def shrink? (d : Deque) : Option Deque :=
  if 0 < d.size then some { d with size := d.size - 1 } else none

/-! ## Room for a node -/

/-- The slot that the next node takes if there may be at most `limit` slots. -/
def vacancy? (limit : Nat) (d : Deque) : Option Nat :=
  match d.free with
  | i :: _ => some i
  | [] => if d.slots.size < limit then some d.slots.size else none

/-- Makes the next vacancy a node without neighbours. -/
def occupy? (d : Deque) (v : Value) : Option Deque :=
  match d.free with
  | i :: rest =>
    if h : i < d.slots.size then
      some { d with slots := d.slots.set i (.single v), free := rest }
    else
      none
  | [] => some { d with slots := d.slots.push (.single v) }

/-- Frees the slot of a node that has no neighbours. -/
def release? (d : Deque) (i : Nat) : Option Deque := do
  let d ← d.update? i fun s => { s with live := false }
  return { d with free := i :: d.free }

/-! ## Links -/

/-- Takes a node out of the list: its neighbours become neighbours of each other. -/
def unlink? (d : Deque) (i : Nat) : Option Deque := do
  let s ← d.slot? i
  let d ← match s.prev with
    | some p => d.update? p fun t => { t with next := s.next }
    | none => some { d with head := s.next }
  let d ← match s.next with
    | some n => d.update? n fun t => { t with prev := s.prev }
    | none => some { d with tail := s.prev }
  let d ← d.update? i Slot.detach
  d.shrink?

/-- Puts a node that has no neighbours into the list, directly after the node `anchor`. -/
def linkAfter? (d : Deque) (anchor i : Nat) : Option Deque := do
  let a ← d.slot? anchor
  let d ← d.update? i fun s => { s with prev := some anchor, next := a.next }
  let d ← d.update? anchor fun s => { s with next := some i }
  let d ← match a.next with
    | some n => d.update? n fun s => { s with prev := some i }
    | none => some { d with tail := some i }
  d.grow?

/-- Puts a node that has no neighbours into the list as its first. -/
def linkFront? (d : Deque) (i : Nat) : Option Deque := do
  let head := d.head
  let d ← d.update? i fun s => { s with next := head }
  let d ← match head with
    | some h => d.update? h fun s => { s with prev := some i }
    | none => some { d with tail := some i }
  grow? { d with head := some i }

/-- Puts a node that has no neighbours into the list as its last. -/
def linkBack? (d : Deque) (i : Nat) : Option Deque :=
  match d.tail with
  | some t => d.linkAfter? t i
  | none => d.linkFront? i

end Deque

end DequeMachine
