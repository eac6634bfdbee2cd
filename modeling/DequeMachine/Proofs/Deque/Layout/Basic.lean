import DequeMachine.Proofs.Deque.WellFormed

/-!
# DequeMachine.Proofs.Deque.Layout.Basic

What there is to know about a deque that operations make, slot by slot.

A `Layout` lists the nodes, the free slots and the values of all slots.  Links and live flags hold
no information of their own: `Layout.deque` puts them in place, and every well-formed deque is made
so (`WellFormed.eq_deque`, `WellFormed.exists_layout`).
-/

namespace DequeMachine.Deque

open Neighbours

/-- The slots of a deque.  Each is either a node or free. -/
@[ext]
structure Layout where
  /-- The nodes, from head to tail. -/
  nodes : List Nat
  /-- The free slots, the one to use next first. -/
  free : List Nat
  /-- The value in each slot, whatever the slot is. -/
  values : List Value
  perm : (nodes ++ free).Perm (List.range values.length)

namespace Layout

variable {l : Layout} {i : Nat}

/-! ## Nodes and free slots -/

theorem nodup (l : Layout) : (l.nodes ++ l.free).Nodup := l.perm.nodup_iff.mpr List.nodup_range

theorem nodup_nodes (l : Layout) : l.nodes.Nodup := (List.nodup_append.mp l.nodup).1

theorem length_eq (l : Layout) : l.nodes.length + l.free.length = l.values.length := by
  simpa using l.perm.length_eq

theorem lt_length_iff (l : Layout) : i < l.values.length ↔ i ∈ l.nodes ∨ i ∈ l.free := by
  rw [← List.mem_range, ← l.perm.mem_iff, List.mem_append]

theorem mem_free_iff (l : Layout) : i ∈ l.free ↔ i < l.values.length ∧ i ∉ l.nodes := by
  rw [lt_length_iff]
  constructor
  · exact fun hi => ⟨.inr hi, fun hn => (List.nodup_append.mp l.nodup).2.2 i hn i hi rfl⟩
  · exact fun hi => hi.1.resolve_left hi.2

theorem exists_two (h : 2 ≤ l.nodes.length) : ∃ i j nodes, l.nodes = i :: j :: nodes := by
  rcases hn : l.nodes with _ | ⟨i, _ | ⟨j, nodes⟩⟩
  · simp [hn] at h
  · simp [hn] at h
  · exact ⟨i, j, nodes, rfl⟩

/-! ## The deque of a layout -/

/-- The slot number `i` with a value: the neighbours that it has among the nodes, and whether it is
one of them. -/
def slot (nodes : List Nat) (i : Nat) (v : Value) : Slot :=
  ⟨v, before i nodes, after i nodes, decide (i ∈ nodes)⟩

theorem slot_of_notMem {nodes : List Nat} (h : i ∉ nodes) (v : Value) :
    slot nodes i v = ⟨v, none, none, false⟩ := by
  have hrev : i ∉ nodes.reverse := by simpa using h
  simp [slot, before, after_of_notMem h, after_of_notMem hrev, h]

/-- The deque with these nodes, free slots and values. -/
def deque (l : Layout) : Deque where
  slots := (l.values.mapIdx (slot l.nodes)).toArray
  free := l.free
  head := l.nodes.head?
  tail := l.nodes.getLast?
  size := l.nodes.length

theorem getElem?_deque (l : Layout) (j : Nat) :
    l.deque.slots[j]? = l.values[j]?.map (slot l.nodes j) := by
  simp [deque]

@[simp]
theorem size_slots_deque (l : Layout) : l.deque.slots.size = l.values.length := by
  simp [deque]

/-- The value in a slot. -/
def value (l : Layout) (i : Nat) : Value := l.values.getD i 0

theorem valueAt_deque (l : Layout) (j : Nat) : l.deque.valueAt j = l.value j := by
  rw [valueAt, getElem?_deque, value, List.getD_eq_getElem?_getD]
  cases l.values[j]? <;> rfl

theorem value_eq (h : i < l.values.length) : l.value i = l.values[i] := by
  rw [value, List.getD_eq_getElem?_getD, List.getElem?_eq_getElem h, Option.getD_some]

theorem deque_wellFormed (l : Layout) : l.deque.WellFormed l.nodes := by
  have hnode : ∀ i ∈ l.nodes, ∃ v, l.deque.slot? i = some (slot l.nodes i v) := fun i hi => by
    have hlt : i < l.values.length := l.lt_length_iff.mpr (.inl hi)
    refine ⟨l.values[i], slot?_of_getElem? ?_ (by simpa [slot] using hi)⟩
    rw [getElem?_deque, List.getElem?_eq_getElem hlt, Option.map_some]
  refine ⟨⟨l.nodup_nodes, rfl, rfl, rfl, fun i hi => ?_⟩, ⟨fun i hi => ?_, ?_, fun i => ?_,
    fun i hi => ?_⟩⟩
  · obtain ⟨v, hv⟩ := hnode i hi
    exact ⟨_, hv, rfl, rfl⟩
  · obtain ⟨v, hv⟩ := hnode i hi
    exact ⟨_, hv⟩
  · exact (List.nodup_append.mp l.nodup).2.1
  · rw [size_slots_deque]
    exact l.mem_free_iff
  · obtain ⟨hlt, hi⟩ := l.mem_free_iff.mp hi
    refine ⟨l.values[i], ?_⟩
    rw [getElem?_deque, List.getElem?_eq_getElem hlt, Option.map_some, slot_of_notMem hi]

end Layout

variable {d : Deque} {nodes : List Nat} {s : Slot} {j : Nat}

/-- What a slot names is known from the nodes. -/
theorem WellFormed.eq_slot (h : d.WellFormed nodes) (hs : d.slots[j]? = some s) :
    s = Layout.slot nodes j s.value := by
  by_cases hj : j ∈ nodes
  · obtain ⟨t, ht, hprev, hnext⟩ := h.linked.slot j hj
    obtain rfl := Option.some.inj (hs.symm.trans (getElem?_of_slot? ht))
    rw [Layout.slot, ← hprev, ← hnext, decide_eq_true hj, ← live_of_slot? ht]
  · obtain ⟨hlt, -⟩ := Array.getElem?_eq_some_iff.mp hs
    obtain ⟨v, hv⟩ := h.partitioned.free_slot j ((h.partitioned.mem_free j).mpr ⟨hlt, hj⟩)
    obtain rfl := Option.some.inj (hs.symm.trans hv)
    rw [Layout.slot_of_notMem hj]

/-- A well-formed deque is determined by its nodes, its free slots and its values. -/
theorem WellFormed.eq_deque {l : Layout} (h : d.WellFormed l.nodes) (hfree : d.free = l.free)
    (hvalue : ∀ j, d.valueAt j = l.value j) : d = l.deque := by
  have hsize : d.slots.size = l.values.length := by rw [h.size_slots, hfree, l.length_eq]
  have hslots : d.slots = l.deque.slots := by
    refine Array.ext_getElem? fun j => ?_
    rw [Layout.getElem?_deque]
    by_cases hj : j < d.slots.size
    · have hs := Array.getElem?_eq_getElem hj
      have hv := hvalue j
      rw [valueAt, hs, Option.map_some, Option.getD_some, Layout.value_eq (hsize ▸ hj)] at hv
      rw [hs, List.getElem?_eq_getElem (hsize ▸ hj), Option.map_some, ← hv, ← h.eq_slot hs]
    · rw [Array.getElem?_eq_none (Nat.le_of_not_lt hj),
        List.getElem?_eq_none (hsize ▸ Nat.le_of_not_lt hj), Option.map_none]
  cases d
  obtain rfl := hslots
  obtain rfl := hfree
  obtain rfl := h.linked.head
  obtain rfl := h.linked.tail
  obtain rfl := h.linked.size
  rfl

theorem WellFormed.exists_layout (h : d.WellFormed nodes) :
    ∃ l : Layout, l.nodes = nodes ∧ d = l.deque := by
  have hperm : (nodes ++ d.free).Perm (List.range (d.slots.toList.map Slot.value).length) := by
    simpa using h.partitioned.perm_range h.linked.nodup
  refine ⟨⟨nodes, d.free, d.slots.toList.map Slot.value, hperm⟩, rfl, ?_⟩
  refine WellFormed.eq_deque h rfl fun j => ?_
  simp [valueAt, Layout.value]

end DequeMachine.Deque
