import DequeMachine.Proofs.Deque.History

/-!
# DequeMachine.Proofs.Deque.Insertion

Inserting at an end with the links written out.

The operations put a new node into the list as every node is put in.  A new node has no neighbours
yet, and at an end it gets only one, so fewer links need be set: `attachFront?` and `attachBack?`
set these alone.  On a linked deque they do the same:

* `attachFront?_eq` and `Linked.attachBack?_eq` compare one step;
* `Holds.insertFront?_eq` and `Holds.insertBack?_eq` compare the operations;
* `applyAll_insert?` has both for every deque that operations make.
-/

namespace DequeMachine.Deque

variable {d : Deque} {nodes : List Nat} {limit i : Nat} {s : Slot} {vs : List Value}

/-! ## Links at an end -/

/-- Makes a new node the head.  It and the old head, if there is one, become neighbours. -/
def attachFront? (d : Deque) (i : Nat) : Option Deque := do
  let d ← match d.head with
    | some h => do
      let d ← d.update? i fun s => { s with next := some h }
      d.update? h fun s => { s with prev := some i }
    | none => some { d with tail := some i }
  grow? { d with head := some i }

/-- Makes a new node the tail.  It and the old tail, if there is one, become neighbours. -/
def attachBack? (d : Deque) (i : Nat) : Option Deque := do
  let d ← match d.tail with
    | some t => do
      let d ← d.update? i fun s => { s with prev := some t }
      d.update? t fun s => { s with next := some i }
    | none => some { d with head := some i }
  grow? { d with tail := some i }

/-- Changes that do the same to the slot of a node do the same to the deque. -/
theorem update?_congr (hs : d.slot? i = some s) {f g : Slot → Slot} (h : f s = g s) :
    d.update? i f = d.update? i g := by
  obtain ⟨hi, hget⟩ := Array.getElem?_eq_some_iff.mp (getElem?_of_slot? hs)
  rw [update?, update?, dif_pos hi, dif_pos hi, hget, h]

theorem update?_id (hs : d.slot? i = some s) : d.update? i id = some d := by
  obtain ⟨hi, hget⟩ := Array.getElem?_eq_some_iff.mp (getElem?_of_slot? hs)
  have hlive : d.slots[i].live = true := by rw [hget]; exact live_of_slot? hs
  rw [update?, dif_pos hi, if_pos hlive, id_eq, Array.set_getElem_self]

/-- The one link that `linkFront?` sets in addition, if there is no head, is set already. -/
theorem attachFront?_eq (hs : d.slot? i = some s) (hnext : s.next = none) :
    d.attachFront? i = d.linkFront? i := by
  unfold attachFront? linkFront?
  cases hhead : d.head with
  | none =>
      have hsame : d.update? i (fun s => { s with next := none }) = some d :=
        (update?_congr hs (by rw [← hnext, id_eq])).trans (update?_id hs)
      simp only [hsame]
      rfl
  | some h => rfl

/-- The tail has no node after it, and no head goes with no tail. -/
theorem Linked.attachBack?_eq (h : d.Linked nodes) (hs : d.slot? i = some s)
    (hnext : s.next = none) : d.attachBack? i = d.linkBack? i := by
  rw [Deque.linkBack?]
  have htail := h.tail
  rcases List.eq_nil_or_concat' nodes with rfl | ⟨front, t, rfl⟩
  · rw [htail, List.getLast?_nil, ← attachFront?_eq hs hnext]
    have hhead : d.head = none := h.head
    unfold attachBack? attachFront?
    rw [htail, hhead]
    rfl
  · rw [List.getLast?_concat] at htail
    obtain ⟨a, ha, -, hlast⟩ := h.slot_middle
    have hset : d.update? i (fun s => { s with prev := some t, next := none }) =
        d.update? i fun s => { s with prev := some t } :=
      update?_congr hs (by rw [hnext])
    unfold attachBack? Deque.linkAfter?
    simp only [htail, ha, hlast, List.head?_nil, Option.bind_eq_bind, Option.bind_some, hset]

/-! ## Operations -/

/-- `pushFront?`, with the links written out. -/
def insertFront? (limit : Nat) (v : Value) (d : Deque) : Option (Bool × Deque) :=
  match d.vacancy? limit with
  | none => some (false, d)
  | some i => do
    let d ← d.occupy? v
    let d ← d.attachFront? i
    return (true, d)

/-- `pushBack?`, with the links written out. -/
def insertBack? (limit : Nat) (v : Value) (d : Deque) : Option (Bool × Deque) :=
  match d.vacancy? limit with
  | none => some (false, d)
  | some i => do
    let d ← d.occupy? v
    let d ← d.attachBack? i
    return (true, d)

namespace Holds

theorem insertFront?_eq (h : d.Holds limit vs) (v : Value) :
    d.insertFront? limit v = d.pushFront? limit v := by
  obtain ⟨nodes, hd, -, -⟩ := h
  unfold insertFront? Deque.pushFront?
  cases hv : d.vacancy? limit with
  | none => rfl
  | some i =>
      have hattach := attachFront?_eq (hd.partitioned.slot?_occupy hv v) rfl
      simp only [hd.partitioned.occupy?_eq, Option.bind_eq_bind, Option.bind_some, hattach]

theorem insertBack?_eq (h : d.Holds limit vs) (v : Value) :
    d.insertBack? limit v = d.pushBack? limit v := by
  obtain ⟨nodes, hd, -, -⟩ := h
  unfold insertBack? Deque.pushBack?
  cases hv : d.vacancy? limit with
  | none => rfl
  | some i =>
      have hattach := (hd.linked_occupy hv v).attachBack?_eq (hd.partitioned.slot?_occupy hv v) rfl
      simp only [hd.partitioned.occupy?_eq, Option.bind_eq_bind, Option.bind_some, hattach]

end Holds

/-- On every deque that operations make, inserting with the links written out passes all checks and
is what the operations do. -/
theorem applyAll_insert? (limit : Nat) (ops : List Op) (v : Value) :
    let d := applyAll limit ∅ ops
    d.insertFront? limit v = some (d.pushFront limit v) ∧
      d.insertBack? limit v = some (d.pushBack limit v) := by
  intro d
  have hd := (Holds.empty limit).applyAll ops
  obtain ⟨_, hfront, -⟩ := hd.attempt? (.pushFront v)
  obtain ⟨_, hback, -⟩ := hd.attempt? (.pushBack v)
  obtain ⟨_, hfront, -⟩ := Option.map_eq_some_iff.mp hfront
  obtain ⟨_, hback, -⟩ := Option.map_eq_some_iff.mp hback
  rw [hd.insertFront?_eq, hd.insertBack?_eq, pushFront, pushBack, hfront, hback]
  exact ⟨rfl, rfl⟩

end DequeMachine.Deque
