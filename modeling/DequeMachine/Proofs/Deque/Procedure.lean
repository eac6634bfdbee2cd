import Mathlib.Data.Option.Basic
import DequeMachine.Proofs.Deque.Access
import DequeMachine.Proofs.Deque.Refinement

/-!
# DequeMachine.Proofs.Deque.Procedure

Every operation and every view of a deque as a procedure, access by access.

* `Procedure.run?_unlink` and its like: on every deque, a procedure and the checked form of what it
  carries out have the same result, and a check stops both or none.
* `Call.run?_procedure`: on a deque that holds a list no check stops a call, and it answers what the
  operation or the view answers.
-/

namespace DequeMachine.Deque

namespace Procedure

variable {α : Type}

/-! ## Single accesses -/

/-- Reads the fields. -/
def fields : Procedure Fields := step .fields done

/-- Looks at a node. -/
def look (i : Nat) : Procedure Slot := step (.look i) done

/-- Looks at a slot if it is a node. -/
def probe (i : Nat) : Procedure (Option Slot) := step (.probe i) done

/-- Changes a node. -/
def change (i : Nat) (f : Slot → Slot) : Procedure Unit := step (.change i f) done

/-- Makes the next vacancy a node, if there is one. -/
def occupy (v : Value) : Procedure (Option Nat) := step (.occupy v) done

/-- Frees the slot of a node. -/
def release (i : Nat) : Procedure Unit := step (.release i) done

/-- Names the first node. -/
def setHead (i? : Option Nat) : Procedure Unit := step (.setHead i?) done

/-- Names the last node. -/
def setTail (i? : Option Nat) : Procedure Unit := step (.setTail i?) done

/-- Counts one node more. -/
def grow : Procedure Unit := step .grow done

/-- Counts one node less. -/
def shrink : Procedure Unit := step .shrink done

/-- Goes on with a walk that should have ended. -/
def overrun : Procedure α := step .overrun nofun

variable (limit : Nat) (d : Deque) (i : Nat)

@[simp]
theorem run?_fields : fields.run? limit d = some (d.fields, d) := rfl

@[simp]
theorem run?_look : (look i).run? limit d = (d.slot? i).map (·, d) :=
  Option.bind_fun_some _

@[simp]
theorem run?_probe : (probe i).run? limit d = some (d.slot? i, d) := rfl

@[simp]
theorem run?_change (f : Slot → Slot) :
    (change i f).run? limit d = (d.update? i f).map ((), ·) :=
  Option.bind_fun_some _

@[simp]
theorem run?_occupy (v : Value) :
    (occupy v).run? limit d =
      match d.vacancy? limit with
      | none => some (none, d)
      | some i => (d.occupy? v).map (some i, ·) :=
  Option.bind_fun_some _

@[simp]
theorem run?_release : (release i).run? limit d = (d.release? i).map ((), ·) :=
  Option.bind_fun_some _

@[simp]
theorem run?_setHead (i? : Option Nat) :
    (setHead i?).run? limit d = some ((), { d with head := i? }) := rfl

@[simp]
theorem run?_setTail (i? : Option Nat) :
    (setTail i?).run? limit d = some ((), { d with tail := i? }) := rfl

@[simp]
theorem run?_grow : grow.run? limit d = d.grow?.map ((), ·) :=
  Option.bind_fun_some _

@[simp]
theorem run?_shrink : shrink.run? limit d = d.shrink?.map ((), ·) :=
  Option.bind_fun_some _

/-! ## Links -/

/-- Takes a node out of the list. -/
def unlink (i : Nat) : Procedure Unit := do
  let s ← look i
  match s.prev with
  | some p => change p fun t => { t with next := s.next }
  | none => setHead s.next
  match s.next with
  | some n => change n fun t => { t with prev := s.prev }
  | none => setTail s.prev
  change i Slot.detach
  shrink

/-- Puts a node into the list, directly after another one. -/
def linkAfter (anchor i : Nat) : Procedure Unit := do
  let a ← look anchor
  change i fun s => { s with prev := some anchor, next := a.next }
  change anchor fun s => { s with next := some i }
  match a.next with
  | some n => change n fun s => { s with prev := some i }
  | none => setTail (some i)
  grow

/-- Puts a node into the list as its first. -/
def linkFront (i : Nat) : Procedure Unit := do
  let o ← fields
  change i fun s => { s with next := o.head }
  match o.head with
  | some h => change h fun s => { s with prev := some i }
  | none => setTail (some i)
  setHead (some i)
  grow

/-- Puts a node into the list as its last. -/
def linkBack (i : Nat) : Procedure Unit := do
  let o ← fields
  match o.tail with
  | some t => linkAfter t i
  | none => linkFront i

theorem run?_unlink : (unlink i).run? limit d = (d.unlink? i).map ((), ·) := by
  unfold unlink unlink?
  cases hs : d.slot? i with
  | none => simp [hs]
  | some s =>
      cases hp : s.prev <;> cases hn : s.next <;>
        simp [hs, hp, hn, Option.map_bind, Option.bind_map]

theorem run?_linkAfter (anchor : Nat) :
    (linkAfter anchor i).run? limit d = (d.linkAfter? anchor i).map ((), ·) := by
  unfold linkAfter linkAfter?
  cases ha : d.slot? anchor with
  | none => simp [ha]
  | some a =>
      cases hn : a.next <;>
        simp [ha, hn, Option.map_bind, Option.bind_map]

theorem run?_linkFront : (linkFront i).run? limit d = (d.linkFront? i).map ((), ·) := by
  unfold linkFront linkFront?
  cases hh : d.head <;>
    simp [hh, Deque.fields, Option.map_bind, Option.bind_map]

theorem run?_linkBack : (linkBack i).run? limit d = (d.linkBack? i).map ((), ·) := by
  unfold linkBack linkBack?
  cases ht : d.tail <;> simp [ht, Deque.fields, run?_linkAfter, run?_linkFront]

/-! ## Operations -/

/-- Inserts a value at the head; whether there was room. -/
def pushFront (v : Value) : Procedure Bool := do
  match ← occupy v with
  | none => return false
  | some i =>
    linkFront i
    return true

/-- Inserts a value at the tail; whether there was room. -/
def pushBack (v : Value) : Procedure Bool := do
  match ← occupy v with
  | none => return false
  | some i =>
    linkBack i
    return true

/-- Removes the head and yields its value. -/
def popFront : Procedure (Option Value) := do
  let o ← fields
  match o.head with
  | none => return none
  | some h =>
    let s ← look h
    unlink h
    release h
    return some s.value

/-- The slots of the first two nodes, if there are two. -/
def frontPair : Procedure (Option (Nat × Nat)) := do
  let o ← fields
  match o.head with
  | none => return none
  | some h =>
    let s ← look h
    return s.next.map (h, ·)

/-- Replaces the first two values by one; whether there were two. -/
def combineFront (f : Value → Value → Value) : Procedure Bool := do
  match ← frontPair with
  | none => return false
  | some (i, j) =>
    let first ← look i
    let second ← look j
    unlink i
    release i
    change j fun s => { s with value := f second.value first.value }
    return true

/-- Exchanges the first two nodes; whether there were two. -/
def swapFront : Procedure Bool := do
  match ← frontPair with
  | none => return false
  | some (i, j) =>
    unlink i
    linkAfter j i
    return true

/-- Moves the head to the tail. -/
def rotateLeft : Procedure Unit := do
  match ← frontPair, (← fields).tail with
  | some (i, _), some t =>
    unlink i
    linkAfter t i
  | _, _ => return

/-- Moves the tail to the head. -/
def rotateRight : Procedure Unit := do
  let o ← fields
  if o.size < 2 then
    return
  else
    match o.tail with
    | none => return
    | some t =>
      unlink t
      linkFront t

/-- Removes everything; the number of nodes. -/
def clear : Procedure Nat := do
  let o ← fields
  step .clear done
  return o.size

theorem run?_pushFront (v : Value) : (pushFront v).run? limit d = d.pushFront? limit v := by
  unfold pushFront Deque.pushFront?
  cases hv : d.vacancy? limit <;>
    simp [hv, run?_linkFront, Option.bind_map]

theorem run?_pushBack (v : Value) : (pushBack v).run? limit d = d.pushBack? limit v := by
  unfold pushBack Deque.pushBack?
  cases hv : d.vacancy? limit <;>
    simp [hv, run?_linkBack, Option.bind_map]

theorem run?_popFront : popFront.run? limit d = d.popFront? := by
  unfold popFront Deque.popFront?
  cases hh : d.head <;>
    simp [hh, Deque.fields, run?_unlink, Option.bind_map]

theorem run?_frontPair : frontPair.run? limit d = d.frontPair?.map (·, d) := by
  unfold frontPair Deque.frontPair?
  cases hh : d.head <;>
    simp [hh, Deque.fields, Option.bind_map, Option.map_bind]

theorem run?_combineFront (f : Value → Value → Value) :
    (combineFront f).run? limit d = d.combineFront? f := by
  unfold combineFront Deque.combineFront?
  rcases hpair : d.frontPair? with _ | _ | ⟨i, j⟩ <;>
    simp [hpair, run?_frontPair, run?_unlink, Option.bind_map]

theorem run?_swapFront : swapFront.run? limit d = d.swapFront? := by
  unfold swapFront Deque.swapFront?
  rcases hpair : d.frontPair? with _ | _ | ⟨i, j⟩ <;>
    simp [hpair, run?_frontPair, run?_unlink, run?_linkAfter, Option.bind_map]

theorem run?_rotateLeft : rotateLeft.run? limit d = d.rotateLeft?.map ((), ·) := by
  unfold rotateLeft Deque.rotateLeft?
  rcases hpair : d.frontPair? with _ | _ | ⟨i, j⟩ <;> cases ht : d.tail <;>
    simp [hpair, ht, Deque.fields, run?_frontPair, run?_unlink, run?_linkAfter, Option.bind_map,
      Option.map_bind]

theorem run?_rotateRight : rotateRight.run? limit d = d.rotateRight?.map ((), ·) := by
  unfold rotateRight Deque.rotateRight?
  rw [run?_bind, run?_fields, Option.bind_some]
  by_cases hsize : d.size < 2
  · simp only [Deque.fields, hsize, if_true, run?_pure, Option.map_some]
  · simp only [Deque.fields, hsize, if_false]
    cases d.tail <;>
      simp [run?_unlink, run?_linkFront, Option.bind_map, Option.map_bind]

/-! ## Views -/

/-- The value at the head. -/
def front : Procedure (Option Value) := do
  let o ← fields
  match o.head with
  | none => return none
  | some h => return some (← look h).value

/-- The value next to the head. -/
def second : Procedure (Option Value) := do
  let o ← fields
  match o.head with
  | none => return none
  | some h =>
    let s ← look h
    match s.next with
    | none => return none
    | some n => return some (← look n).value

/-- The value at the tail. -/
def back : Procedure (Option Value) := do
  let o ← fields
  match o.tail with
  | none => return none
  | some t => return some (← look t).value

/-- The values from `current` on, after those in `seen`. -/
def valuesFrom : (fuel : Nat) → (current : Option Nat) → (seen : List Value) →
    Procedure (List Value)
  | _, none, seen => return seen.reverse
  | 0, some _, _ => overrun
  | fuel + 1, some i, seen => do
    let s ← look i
    valuesFrom fuel s.next (s.value :: seen)

/-- The values from head to tail. -/
def values : Procedure (List Value) := do
  let o ← fields
  valuesFrom o.slots o.head []

/-- Whether the links lead from `current` over exactly `remaining` nodes to the tail, and back. -/
def linkedFrom : (remaining : Nat) → (before current : Option Nat) → Procedure Bool
  | remaining, before, none => return remaining == 0 && before == (← fields).tail
  | 0, _, some _ => return false
  | remaining + 1, before, some i => do
    match ← probe i with
    | none => return false
    | some s => if s.prev == before then linkedFrom remaining (some i) s.next else return false

theorem run?_valuesFrom (fuel : Nat) (current : Option Nat) (seen : List Value) :
    (valuesFrom fuel current seen).run? limit d =
      (d.valuesFrom? fuel current seen).map (·, d) := by
  induction fuel generalizing current seen with
  | zero => cases current <;> rfl
  | succ fuel ih =>
      cases current with
      | none => rfl
      | some i =>
          rw [valuesFrom, valuesFrom?, run?_bind, run?_look]
          cases d.slot? i with
          | none => rfl
          | some s => exact ih s.next (s.value :: seen)

theorem run?_linkedFrom (remaining : Nat) (before current : Option Nat) :
    (linkedFrom remaining before current).run? limit d =
      some (d.linkedFrom remaining before current, d) := by
  induction remaining generalizing before current with
  | zero => cases current <;> rfl
  | succ remaining ih =>
      cases current with
      | none => rfl
      | some i =>
          rw [linkedFrom, Deque.linkedFrom, run?_bind, run?_probe, Option.bind_some]
          cases d.slot? i with
          | none => rfl
          | some s => by_cases hprev : s.prev = before <;> simp [hprev, ih]

end Procedure

/-! ## Calls -/

/-- A call from outside: an operation or a view. -/
inductive Call where
  | operate (op : Op)
  | size
  | isEmpty
  | front
  | second
  | back
  | values
  | render
  | isConsistent

/-- What a call answers. -/
inductive Answer where
  | reply (reply : Reply)
  | count (n : Nat)
  | flag (b : Bool)
  | value (v? : Option Value)
  | list (vs : List Value)
  | text (s : String)
deriving DecidableEq, Repr

/-- An operation as a procedure. -/
def Op.procedure : Op → Procedure Reply
  | pushFront v => return .stored (← Procedure.pushFront v)
  | pushBack v => return .stored (← Procedure.pushBack v)
  | popFront => return .removed (← Procedure.popFront)
  | combineFront f => return .changed (← Procedure.combineFront f)
  | swapFront => return .changed (← Procedure.swapFront)
  | rotateLeft => do
    Procedure.rotateLeft
    return .moved
  | rotateRight => do
    Procedure.rotateRight
    return .moved
  | clear => return .cleared (← Procedure.clear)

namespace Call

/-- A call as a procedure. -/
def procedure : Call → Procedure Answer
  | operate op => return .reply (← op.procedure)
  | size => return .count (← Procedure.fields).size
  | isEmpty => return .flag (← Procedure.fields).head.isNone
  | front => return .value (← Procedure.front)
  | second => return .value (← Procedure.second)
  | back => return .value (← Procedure.back)
  | values => return .list (← Procedure.values)
  | render => return .text (bracketed ((← Procedure.values).map Value.text))
  | isConsistent => do
    let o ← Procedure.fields
    return .flag (← Procedure.linkedFrom o.size none o.head)

/-- What a call answers, and the deque after it. -/
def answer (limit : Nat) (d : Deque) : Call → Answer × Deque
  | operate op => let (reply, d) := op.apply limit d; (.reply reply, d)
  | size => (.count d.size, d)
  | isEmpty => (.flag d.isEmpty, d)
  | front => (.value d.front?, d)
  | second => (.value d.second?, d)
  | back => (.value d.back?, d)
  | values => (.list d.values, d)
  | render => (.text d.render, d)
  | isConsistent => (.flag d.isConsistent, d)

end Call

/-- The checked form of an operation does what its procedure does, on every deque. -/
theorem Op.run?_procedure (op : Op) (limit : Nat) (d : Deque) :
    op.procedure.run? limit d = op.attempt? limit d := by
  cases op with
  | pushFront v =>
      rw [procedure, Procedure.run?_bind_pure, Procedure.run?_pushFront]
      rfl
  | pushBack v =>
      rw [procedure, Procedure.run?_bind_pure, Procedure.run?_pushBack]
      rfl
  | popFront =>
      rw [procedure, Procedure.run?_bind_pure, Procedure.run?_popFront]
      rfl
  | combineFront f =>
      rw [procedure, Procedure.run?_bind_pure, Procedure.run?_combineFront]
      rfl
  | swapFront =>
      rw [procedure, Procedure.run?_bind_pure, Procedure.run?_swapFront]
      rfl
  | rotateLeft =>
      rw [procedure, Procedure.run?_bind_pure, Procedure.run?_rotateLeft, Option.map_map]
      rfl
  | rotateRight =>
      rw [procedure, Procedure.run?_bind_pure, Procedure.run?_rotateRight, Option.map_map]
      rfl
  | clear => rfl

variable {d : Deque} {nodes : List Nat} {vs : List Value} {limit : Nat}

namespace Linked

/- The views, unlike the operations, have no checked form, so it is the links that keep the checks
from failing here. -/

theorem run?_front (h : d.Linked nodes) :
    Procedure.front.run? limit d = some (d.front?, d) := by
  unfold Procedure.front front?
  cases nodes with
  | nil => simp [Deque.fields, h.head]
  | cons i rest =>
      obtain ⟨s, hs, -, -⟩ := h.slot i List.mem_cons_self
      simp [Deque.fields, h.head, hs]

theorem run?_second (h : d.Linked nodes) :
    Procedure.second.run? limit d = some (d.second?, d) := by
  unfold Procedure.second second?
  match nodes, h with
  | [], h => simp [Deque.fields, h.head]
  | [i], h =>
      obtain ⟨s, hs, -, hnext⟩ := (show d.Linked ([] ++ i :: []) from h).slot_middle
      simp [Deque.fields, h.head, hs, hnext]
  | i :: j :: rest, h =>
      obtain ⟨s, hs, -, hnext⟩ := (show d.Linked ([] ++ i :: j :: rest) from h).slot_middle
      obtain ⟨t, ht, -, -⟩ := h.slot j (by simp)
      simp [Deque.fields, h.head, hs, hnext, ht]

theorem run?_back (h : d.Linked nodes) :
    Procedure.back.run? limit d = some (d.back?, d) := by
  unfold Procedure.back back?
  cases hlast : nodes.getLast? with
  | none => simp [Deque.fields, h.tail, hlast]
  | some t =>
      obtain ⟨s, hs, -, -⟩ := h.slot t (List.mem_of_getLast? hlast)
      simp [Deque.fields, h.tail, hlast, hs]

theorem run?_values (h : d.Linked nodes) :
    Procedure.values.run? limit d = some (d.values, d) := by
  have hvalues : d.valuesFrom? d.slots.size d.head [] = some (nodes.map d.valueAt) := h.values?_eq
  simp [Procedure.values, Deque.fields, Procedure.run?_valuesFrom, values, values?, hvalues]

end Linked

/-- No check stops a call on a deque that holds a list. -/
theorem Call.run?_procedure (h : d.Holds limit vs) (c : Call) :
    c.procedure.run? limit d = some (c.answer limit d) := by
  obtain ⟨nodes, hd, -, -⟩ := id h
  cases c with
  | operate op =>
      obtain ⟨e, he, -⟩ := h.attempt? op
      rw [procedure, Procedure.run?_bind_pure, op.run?_procedure, he, answer,
        op.apply_eq_of_attempt? he]
      rfl
  | size | isEmpty => rfl
  | front => rw [procedure, Procedure.run?_bind_pure, hd.linked.run?_front]; rfl
  | second => rw [procedure, Procedure.run?_bind_pure, hd.linked.run?_second]; rfl
  | back => rw [procedure, Procedure.run?_bind_pure, hd.linked.run?_back]; rfl
  | values => rw [procedure, Procedure.run?_bind_pure, hd.linked.run?_values]; rfl
  | render => rw [procedure, Procedure.run?_bind_pure, hd.linked.run?_values]; rfl
  | isConsistent =>
      simp [procedure, Procedure.run?_linkedFrom, Deque.fields, answer, Deque.isConsistent]

end DequeMachine.Deque
