import DequeMachine.Proofs.Deque.Linked

/-!
# DequeMachine.Proofs.Deque.WellFormed

The deques that operations make.

* `Partitioned d nodes` says that every slot is one of `nodes` or free, and none is both.  The order
  of the nodes does not matter for it, so an operation can restore it before it lays the links.
* `WellFormed d nodes` says in addition that the links run through `nodes` in their order.
-/

namespace DequeMachine.Deque

variable {d : Deque} {nodes : List Nat}

/-- Every slot is either one of `nodes`, and live, or it is free: not live and without neighbours.
No slot is free twice. -/
structure Partitioned (d : Deque) (nodes : List Nat) : Prop where
  node : ∀ i ∈ nodes, ∃ s, d.slot? i = some s
  free_nodup : d.free.Nodup
  mem_free : ∀ i, i ∈ d.free ↔ i < d.slots.size ∧ i ∉ nodes
  free_slot : ∀ i ∈ d.free, ∃ v, d.slots[i]? = some ⟨v, none, none, false⟩

/-- The nodes of a deque are, from head to tail, the slots `nodes`, and all other slots are free. -/
structure WellFormed (d : Deque) (nodes : List Nat) : Prop where
  linked : d.Linked nodes
  partitioned : d.Partitioned nodes

namespace Partitioned

/-- Laying the links in any order of the nodes makes a deque well-formed. -/
theorem relink {nodes' : List Nat} (h : d.Partitioned nodes) (hn : nodes'.Nodup)
    (hm : ∀ i, i ∈ nodes' ↔ i ∈ nodes) : (d.relink nodes').WellFormed nodes' where
  linked := linked_relink hn fun i hi => h.node i ((hm i).mp hi)
  partitioned := {
    node := fun i hi => by
      obtain ⟨s, hs⟩ := h.node i ((hm i).mp hi)
      exact ⟨s.linkedIn nodes' i, by rw [slot?_relink, hs, Option.map_some]⟩
    free_nodup := h.free_nodup
    mem_free := fun i => by
      rw [size_slots_relink, hm]
      exact h.mem_free i
    free_slot := fun i hi => by
      obtain ⟨v, hv⟩ := h.free_slot i hi
      have hi' : i ∉ nodes' := fun hn => ((h.mem_free i).mp hi).2 ((hm i).mp hn)
      exact ⟨v, by rw [getElem?_relink, hv, Option.map_some, Slot.linkedIn_of_notMem hi']⟩ }

/-- The nodes and the free slots are all slots, each once. -/
theorem perm_range (h : d.Partitioned nodes) (hn : nodes.Nodup) :
    (nodes ++ d.free).Perm (List.range d.slots.size) := by
  have hdis : (nodes ++ d.free).Nodup :=
    List.nodup_append.mpr ⟨hn, h.free_nodup, fun i hi j hj hij =>
      ((h.mem_free j).mp hj).2 (hij ▸ hi)⟩
  refine (List.perm_ext_iff_of_nodup hdis List.nodup_range).mpr fun i => ?_
  rw [List.mem_append, h.mem_free, List.mem_range]
  constructor
  · rintro (hi | hi)
    · obtain ⟨s, hs⟩ := h.node i hi
      exact lt_of_slot? hs
    · exact hi.1
  · intro hi
    by_cases him : i ∈ nodes
    · exact .inl him
    · exact .inr ⟨hi, him⟩

/-- The slots are as many as the nodes and the free ones together. -/
theorem size_eq (h : d.Partitioned nodes) (hn : nodes.Nodup) :
    d.slots.size = nodes.length + d.free.length := by
  simpa using (h.perm_range hn).length_eq.symm

end Partitioned

namespace WellFormed

theorem empty : Deque.empty.WellFormed [] where
  linked := .empty
  partitioned := {
    node := fun _ hi => absurd hi List.not_mem_nil
    free_nodup := List.nodup_nil
    mem_free := fun i => by simp [Deque.empty]
    free_slot := fun _ hi => absurd hi List.not_mem_nil }

theorem size_slots (h : d.WellFormed nodes) : d.slots.size = nodes.length + d.free.length :=
  h.partitioned.size_eq h.linked.nodup

end WellFormed

end DequeMachine.Deque
