import Mathlib.Data.List.Perm.Subperm
import DequeMachine.Deque.Basic
import DequeMachine.Proofs.Deque.Neighbours

/-!
# DequeMachine.Proofs.Deque.Linked

The links of a deque as a function of the order of its nodes.

* `Linked d nodes` says that the nodes of `d` are, from head to tail, the slots `nodes`.
* `relink` lays the links of given slots, and touches nothing else.  A linked deque is one that
  `relink` does not change, which is `Linked.relink_eq` and `linked_relink`.

So what an operation does to the links can be said by an equation: its result is `relink` of the
new order.
-/

namespace DequeMachine

open Neighbours

namespace Slot

/-- The slot number `i` with the neighbours that it has among `nodes`, if it is one of them. -/
def linkedIn (nodes : List Nat) (i : Nat) (s : Slot) : Slot :=
  if i ∈ nodes then { s with prev := before i nodes, next := after i nodes } else s

@[simp]
theorem value_linkedIn (nodes : List Nat) (i : Nat) (s : Slot) :
    (s.linkedIn nodes i).value = s.value := by
  unfold linkedIn
  split <;> rfl

@[simp]
theorem live_linkedIn (nodes : List Nat) (i : Nat) (s : Slot) :
    (s.linkedIn nodes i).live = s.live := by
  unfold linkedIn
  split <;> rfl

theorem linkedIn_of_mem {nodes : List Nat} {i : Nat} (h : i ∈ nodes) (s : Slot) :
    s.linkedIn nodes i = { s with prev := before i nodes, next := after i nodes } := if_pos h

theorem linkedIn_of_notMem {nodes : List Nat} {i : Nat} (h : i ∉ nodes) (s : Slot) :
    s.linkedIn nodes i = s := if_neg h

end Slot

namespace Deque

variable {d : Deque} {nodes : List Nat} {i : Nat} {s : Slot}

/-! ## Slots -/

theorem slot?_eq_some_iff : d.slot? i = some s ↔ d.slots[i]? = some s ∧ s.live = true := by
  simp [slot?, Option.filter_eq_some_iff]

theorem slot?_of_getElem? (h : d.slots[i]? = some s) (hl : s.live = true) : d.slot? i = some s :=
  slot?_eq_some_iff.mpr ⟨h, hl⟩

theorem getElem?_of_slot? (h : d.slot? i = some s) : d.slots[i]? = some s :=
  (slot?_eq_some_iff.mp h).1

theorem live_of_slot? (h : d.slot? i = some s) : s.live = true := (slot?_eq_some_iff.mp h).2

theorem lt_of_slot? (h : d.slot? i = some s) : i < d.slots.size :=
  (Array.getElem?_eq_some_iff.mp (getElem?_of_slot? h)).1

/-- The value in a slot, whatever the slot is. -/
def valueAt (d : Deque) (i : Nat) : Value := (d.slots[i]?.map Slot.value).getD 0

theorem valueAt_of_slot? (h : d.slot? i = some s) : d.valueAt i = s.value := by
  simp [valueAt, getElem?_of_slot? h]

/-- Changes a slot, whatever the slot is. -/
def modify (d : Deque) (i : Nat) (f : Slot → Slot) : Deque :=
  { d with slots := d.slots.modify i f }

@[simp]
theorem free_modify (d : Deque) (i : Nat) (f : Slot → Slot) : (d.modify i f).free = d.free := rfl

@[simp]
theorem head_modify (d : Deque) (i : Nat) (f : Slot → Slot) : (d.modify i f).head = d.head := rfl

@[simp]
theorem tail_modify (d : Deque) (i : Nat) (f : Slot → Slot) : (d.modify i f).tail = d.tail := rfl

@[simp]
theorem size_modify (d : Deque) (i : Nat) (f : Slot → Slot) : (d.modify i f).size = d.size := rfl

@[simp]
theorem size_slots_modify (d : Deque) (i : Nat) (f : Slot → Slot) :
    (d.modify i f).slots.size = d.slots.size := by
  simp [modify]

theorem getElem?_modify (d : Deque) (i j : Nat) (f : Slot → Slot) :
    (d.modify i f).slots[j]? = if i = j then d.slots[j]?.map f else d.slots[j]? := by
  simp [modify, Array.getElem?_modify]

/-- On a node, the checked change is the unchecked one. -/
theorem update?_eq_modify (h : d.slot? i = some s) (f : Slot → Slot) :
    d.update? i f = some (d.modify i f) := by
  obtain ⟨hi, hs⟩ := Array.getElem?_eq_some_iff.mp (getElem?_of_slot? h)
  have hl : d.slots[i].live = true := by rw [hs]; exact live_of_slot? h
  rw [update?, dif_pos hi, if_pos hl, modify]
  congr 2
  ext j hj hj'
  · simp
  · simp only [Array.getElem_set, Array.getElem_modify]
    split
    · next hij => subst hij; rfl
    · rfl

/-- A node is still one after a change that leaves its live flag alone. -/
theorem slot?_modify {f : Slot → Slot} (hf : ∀ s, (f s).live = s.live) (i : Nat) {j : Nat}
    (h : ∃ s, d.slot? j = some s) : ∃ s, (d.modify i f).slot? j = some s := by
  obtain ⟨s, hs⟩ := h
  by_cases hij : i = j
  · refine ⟨f s, slot?_of_getElem? ?_ ((hf s).trans (live_of_slot? hs))⟩
    rw [getElem?_modify, if_pos hij, getElem?_of_slot? hs, Option.map_some]
  · refine ⟨s, slot?_of_getElem? ?_ (live_of_slot? hs)⟩
    rw [getElem?_modify, if_neg hij, getElem?_of_slot? hs]

/-! ## Links -/

/-- Links the slots `nodes` to each other, in this order from head to tail. -/
def relink (d : Deque) (nodes : List Nat) : Deque where
  slots := d.slots.mapIdx (Slot.linkedIn nodes)
  free := d.free
  head := nodes.head?
  tail := nodes.getLast?
  size := nodes.length

/-- The nodes of a deque are, from head to tail, the slots `nodes`: distinct live slots, each of
which names the one before it and the one after it. -/
structure Linked (d : Deque) (nodes : List Nat) : Prop where
  nodup : nodes.Nodup
  head : d.head = nodes.head?
  tail : d.tail = nodes.getLast?
  size : d.size = nodes.length
  slot : ∀ i ∈ nodes, ∃ s, d.slot? i = some s ∧ s.prev = before i nodes ∧ s.next = after i nodes

@[simp]
theorem size_slots_relink (d : Deque) (nodes : List Nat) :
    (d.relink nodes).slots.size = d.slots.size := by
  simp [relink]

theorem getElem?_relink (d : Deque) (nodes : List Nat) (j : Nat) :
    (d.relink nodes).slots[j]? = d.slots[j]?.map (Slot.linkedIn nodes j) := by
  simp [relink]

@[simp]
theorem valueAt_relink (d : Deque) (nodes : List Nat) (j : Nat) :
    (d.relink nodes).valueAt j = d.valueAt j := by
  simp [valueAt, getElem?_relink, Function.comp_def]

theorem slot?_relink (d : Deque) (nodes : List Nat) (j : Nat) :
    (d.relink nodes).slot? j = (d.slot? j).map (Slot.linkedIn nodes j) := by
  unfold slot?
  rw [getElem?_relink]
  cases d.slots[j]? with
  | none => rfl
  | some t => cases hl : t.live <;> simp [Option.filter, hl]

/-- What equals `relink` of a deque. -/
theorem eq_relink {e : Deque} (hslots : ∀ j, e.slots[j]? = d.slots[j]?.map (Slot.linkedIn nodes j))
    (hfree : e.free = d.free) (hhead : e.head = nodes.head?) (htail : e.tail = nodes.getLast?)
    (hsize : e.size = nodes.length) : e = d.relink nodes := by
  have hs : e.slots = (d.relink nodes).slots := by
    apply Array.ext_getElem?
    intro j
    rw [hslots, getElem?_relink]
  cases e
  subst hfree hhead htail hsize
  rw [relink, Deque.mk.injEq]
  exact ⟨hs, rfl, rfl, rfl, rfl⟩

/-- Only the last order counts if it has all the nodes. -/
theorem relink_relink {nodes' : List Nat} (h : ∀ i ∈ nodes, i ∈ nodes') :
    (d.relink nodes).relink nodes' = d.relink nodes' := by
  refine eq_relink (fun j => ?_) rfl rfl rfl rfl
  rw [getElem?_relink, getElem?_relink, Option.map_map]
  congr 1
  funext t
  by_cases hj : j ∈ nodes'
  · by_cases hj' : j ∈ nodes <;> simp [Slot.linkedIn, hj, hj']
  · have hj' : j ∉ nodes := fun hm => hj (h j hm)
    simp [Slot.linkedIn, hj, hj']

theorem linked_relink (hn : nodes.Nodup) (h : ∀ i ∈ nodes, ∃ s, d.slot? i = some s) :
    (d.relink nodes).Linked nodes where
  nodup := hn
  head := rfl
  tail := rfl
  size := rfl
  slot i hi := by
    obtain ⟨s, hs⟩ := h i hi
    refine ⟨s.linkedIn nodes i, by rw [slot?_relink, hs]; rfl, ?_, ?_⟩ <;> simp [Slot.linkedIn, hi]

namespace Linked

/-- The links of a linked deque are laid already. -/
theorem relink_eq (h : d.Linked nodes) : d.relink nodes = d := by
  refine (eq_relink (fun j => ?_) rfl h.head h.tail h.size).symm
  by_cases hj : j ∈ nodes
  · obtain ⟨s, hs, hprev, hnext⟩ := h.slot j hj
    rw [getElem?_of_slot? hs, Option.map_some, Slot.linkedIn_of_mem hj, ← hprev, ← hnext]
  · cases d.slots[j]? with
    | none => rfl
    | some t => rw [Option.map_some, Slot.linkedIn_of_notMem hj]

/-- A node is in the array. -/
theorem lt_size (h : d.Linked nodes) (hi : i ∈ nodes) : i < d.slots.size := by
  obtain ⟨s, hs, -, -⟩ := h.slot i hi
  exact lt_of_slot? hs

/-- A deque has at most as many nodes as slots. -/
theorem length_le (h : d.Linked nodes) : nodes.length ≤ d.slots.size := by
  have hsub : nodes ⊆ List.range d.slots.size := fun i hi => List.mem_range.mpr (h.lt_size hi)
  simpa using (List.subperm_of_subset h.nodup hsub).length_le

/-- Only the nodes, the ends and the number of nodes count. -/
theorem congr {e : Deque} (h : d.Linked nodes) (hslots : ∀ j ∈ nodes, e.slots[j]? = d.slots[j]?)
    (hhead : e.head = d.head) (htail : e.tail = d.tail) (hsize : e.size = d.size) :
    e.Linked nodes where
  nodup := h.nodup
  head := hhead.trans h.head
  tail := htail.trans h.tail
  size := hsize.trans h.size
  slot j hj := by
    obtain ⟨s, hs, hlinks⟩ := h.slot j hj
    have hs' : e.slots[j]? = some s := (hslots j hj).trans (getElem?_of_slot? hs)
    exact ⟨s, slot?_of_getElem? hs' (live_of_slot? hs), hlinks⟩

theorem empty : Deque.empty.Linked [] :=
  ⟨List.nodup_nil, rfl, rfl, rfl, fun _ hi => absurd hi List.not_mem_nil⟩

end Linked

end Deque

end DequeMachine
