import DequeMachine.Deque.Basic

/-!
# DequeMachine.Deque.Operation

The operations on a deque.

* `pushFront`, `pushBack`: insert a value at an end, if there is room for a node.
* `popFront`: removes the first value.
* `combineFront`: replaces the first two values by one.
* `swapFront`, `rotateLeft`, `rotateRight`: move nodes, without touching a value.
* `clear`: removes everything, the slots included.

Each operation comes with a checked form, named with a question mark, that answers `none` as soon as
an access names a slot that is not a node.
-/

namespace DequeMachine.Deque

/-! ## Checked forms -/

/-- Inserts a value at the head.  False, and nothing changes, if there is no room. -/
def pushFront? (limit : Nat) (v : Value) (d : Deque) : Option (Bool × Deque) :=
  match d.vacancy? limit with
  | none => some (false, d)
  | some i => do
    let d ← d.occupy? v
    let d ← d.linkFront? i
    return (true, d)

/-- Inserts a value at the tail.  False, and nothing changes, if there is no room. -/
def pushBack? (limit : Nat) (v : Value) (d : Deque) : Option (Bool × Deque) :=
  match d.vacancy? limit with
  | none => some (false, d)
  | some i => do
    let d ← d.occupy? v
    let d ← d.linkBack? i
    return (true, d)

/-- Removes the head and yields its value. -/
def popFront? (d : Deque) : Option (Option Value × Deque) :=
  match d.head with
  | none => some (none, d)
  | some h => do
    let s ← d.slot? h
    let d ← d.unlink? h
    let d ← d.release? h
    return (some s.value, d)

/-- The slots of the first two nodes, if there are two. -/
def frontPair? (d : Deque) : Option (Option (Nat × Nat)) :=
  match d.head with
  | none => some none
  | some h => do
    let s ← d.slot? h
    return s.next.map (h, ·)

/-- Replaces the first two values by `f second first`, which takes the place of the second.  False,
and nothing changes, if there are fewer than two. -/
def combineFront? (f : Value → Value → Value) (d : Deque) : Option (Bool × Deque) := do
  match ← d.frontPair? with
  | none => return (false, d)
  | some (i, j) =>
    let first ← d.slot? i
    let second ← d.slot? j
    let d ← d.unlink? i
    let d ← d.release? i
    let d ← d.update? j fun s => { s with value := f second.value first.value }
    return (true, d)

/-- Exchanges the first two nodes.  False, and nothing changes, if there are fewer than two. -/
def swapFront? (d : Deque) : Option (Bool × Deque) := do
  match ← d.frontPair? with
  | none => return (false, d)
  | some (i, j) =>
    let d ← d.unlink? i
    let d ← d.linkAfter? j i
    return (true, d)

/-- Moves the head to the tail.  Nothing changes if there are fewer than two nodes. -/
def rotateLeft? (d : Deque) : Option Deque := do
  match ← d.frontPair?, d.tail with
  | some (i, _), some t =>
    let d ← d.unlink? i
    d.linkAfter? t i
  | _, _ => return d

/-- Moves the tail to the head.  Nothing changes if there are fewer than two nodes. -/
def rotateRight? (d : Deque) : Option Deque :=
  if d.size < 2 then
    some d
  else
    match d.tail with
    | none => some d
    | some t => do
      let d ← d.unlink? t
      d.linkFront? t

/-! ## Total forms -/

/-- Inserts a value at the head; whether there was room. -/
def pushFront (limit : Nat) (v : Value) (d : Deque) : Bool × Deque :=
  (d.pushFront? limit v).getD (false, empty)

/-- Inserts a value at the tail; whether there was room. -/
def pushBack (limit : Nat) (v : Value) (d : Deque) : Bool × Deque :=
  (d.pushBack? limit v).getD (false, empty)

/-- Removes the first value. -/
def popFront (d : Deque) : Option Value × Deque :=
  d.popFront?.getD (none, empty)

/-- Replaces the first two values by one; whether there were two. -/
def combineFront (f : Value → Value → Value) (d : Deque) : Bool × Deque :=
  (d.combineFront? f).getD (false, empty)

/-- Exchanges the first two nodes; whether there were two. -/
def swapFront (d : Deque) : Bool × Deque :=
  d.swapFront?.getD (false, empty)

/-- Moves the head to the tail. -/
def rotateLeft (d : Deque) : Deque :=
  d.rotateLeft?.getD empty

/-- Moves the tail to the head. -/
def rotateRight (d : Deque) : Deque :=
  d.rotateRight?.getD empty

/-- Removes all nodes and slots; the number of nodes. -/
def clear (d : Deque) : Nat × Deque := (d.size, empty)

/-! ## Operations as data -/

/-- An operation with its arguments. -/
inductive Op where
  | pushFront (value : Value)
  | pushBack (value : Value)
  | popFront
  | combineFront (f : Value → Value → Value)
  | swapFront
  | rotateLeft
  | rotateRight
  | clear

/-- What an operation answers. -/
inductive Reply where
  /-- Whether a value was inserted. -/
  | stored (done : Bool)
  /-- The removed value. -/
  | removed (value? : Option Value)
  /-- Whether there were two nodes to work on. -/
  | changed (done : Bool)
  /-- Nothing. -/
  | moved
  /-- The number of nodes removed. -/
  | cleared (count : Nat)
deriving DecidableEq, Repr

namespace Op

/-- Carries out an operation on a deque of at most `limit` slots. -/
def apply (limit : Nat) (d : Deque) : Op → Reply × Deque
  | pushFront v => let (done, d) := d.pushFront limit v; (.stored done, d)
  | pushBack v => let (done, d) := d.pushBack limit v; (.stored done, d)
  | popFront => let (v?, d) := d.popFront; (.removed v?, d)
  | combineFront f => let (done, d) := d.combineFront f; (.changed done, d)
  | swapFront => let (done, d) := d.swapFront; (.changed done, d)
  | rotateLeft => (.moved, d.rotateLeft)
  | rotateRight => (.moved, d.rotateRight)
  | clear => let (count, d) := d.clear; (.cleared count, d)

end Op

/-- The deque after a series of operations. -/
def applyAll (limit : Nat) (d : Deque) (ops : List Op) : Deque :=
  ops.foldl (fun d op => (op.apply limit d).2) d

end DequeMachine.Deque
