import DequeMachine.Proofs.Deque.Procedure

/-!
# DequeMachine.Proofs.Deque.Safety

What a call does on the way, on every deque that operations can make of the empty one.

* `cursor` follows the links from the head, step by step; `Linked.cursor_eq` says where it is.
* `procedure_allowed`: every single access of a call is allowed, there is always room for the count
  of nodes, and a walk from the head ends after exactly as many steps as there are nodes.
-/

namespace DequeMachine.Deque

variable {d : Deque} {nodes : List Nat} {vs : List Value} {limit : Nat}

/-- The node that a walk from the head is at after a number of steps, unless it has ended. -/
def cursor (d : Deque) : (steps : Nat) → Option Nat
  | 0 => d.head
  | steps + 1 => do
    let s ← d.slot? (← d.cursor steps)
    s.next

/-- The walk passes the nodes in their order. -/
theorem Linked.cursor_eq (h : d.Linked nodes) (steps : Nat) : d.cursor steps = nodes[steps]? := by
  induction steps with
  | zero => rw [cursor, h.head, List.head?_eq_getElem?]
  | succ steps ih =>
      rw [cursor, ih]
      by_cases hlt : steps < nodes.length
      · have hcut : d.Linked (nodes.take steps ++ nodes[steps] :: nodes.drop (steps + 1)) := by
          simpa using h
        obtain ⟨s, hs, -, hnext⟩ := hcut.slot_middle
        rw [List.head?_drop] at hnext
        simpa [List.getElem?_eq_getElem hlt, hs] using hnext
      · rw [List.getElem?_eq_none (Nat.le_of_not_lt hlt), List.getElem?_eq_none (by omega)]
        rfl

/-- A deque that holds a list has a slot for each node, and not too many. -/
theorem Holds.within (h : d.Holds limit vs) : d.Within limit := by
  obtain ⟨nodes, hd, hl, -⟩ := h
  exact ⟨hd.linked.size ▸ hd.linked.length_le, hl⟩

/-- No check stops a call, and so each access that it makes is allowed where it is made: the slots
that it names are nodes, the count of nodes does not go below zero, and at no time are there more
than `limit` nodes.  A walk from the head ends after exactly as many steps as there are nodes. -/
theorem procedure_allowed (limit : Nat) (ops : List Op) (c : Call) :
    c.procedure.run? limit (applyAll limit ∅ ops) = some (c.answer limit (applyAll limit ∅ ops)) ∧
      (∀ x ∈ c.procedure.trace limit (applyAll limit ∅ ops),
        x.1.Allowed limit x.2 ∧ x.2.size ≤ limit) ∧
      (c.answer limit (applyAll limit ∅ ops)).2.size ≤ limit ∧
      ∀ steps, ((applyAll limit ∅ ops).cursor steps).isSome = true ↔
        steps < (applyAll limit ∅ ops).size := by
  have hd := (Holds.empty limit).applyAll ops
  have hrun := Call.run?_procedure hd c
  obtain ⟨htrace, hend⟩ := Procedure.allowed_of_run? hd.within hrun
  refine ⟨hrun, htrace, Nat.le_trans hend.size_le hend.slots_le, fun steps => ?_⟩
  obtain ⟨nodes, hwell, -, -⟩ := hd
  rw [hwell.linked.cursor_eq, hwell.linked.size, isSome_getElem?]

/-- On a deque that no operation makes, a walk in a circle is stopped, and so is a look at a free
slot. -/
example :
    Call.values.procedure.run? 1 ⟨#[⟨7, some 0, some 0, true⟩], [], some 0, some 0, 1⟩ = none ∧
      Call.front.procedure.run? 1 ⟨#[⟨7, none, none, false⟩], [0], some 0, some 0, 1⟩ = none :=
  ⟨rfl, rfl⟩

end DequeMachine.Deque
