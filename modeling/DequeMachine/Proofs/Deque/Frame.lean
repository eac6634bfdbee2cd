import DequeMachine.Proofs.Deque.Layout.Operation

/-!
# DequeMachine.Proofs.Deque.Frame

What an operation does to the slots of a deque, and what it leaves alone.

* `Layout.touched` names the slots of which an operation changes the value, or which it takes or
  frees: two at most, unless it clears the deque.
* `Frame` says what stays: all other values and nodes, the values of free slots, and each link
  between slots that are still side by side.
* `exists_layout_apply`: every deque that operations make has a layout, on which each operation
  makes its change of the lists and no other.
-/

namespace DequeMachine.Deque

open Neighbours

/-- What an operation that touches certain slots leaves alone, where the nodes were `nodes` before
and are `nodes'` after it. -/
structure Frame (touched nodes nodes' : List Nat) (d e : Deque) : Prop where
  /-- No other slot gets another value, becomes a node or ceases to be one. -/
  slot : ∀ j ∉ touched,
    (e.slots[j]?.map fun s => (s.value, s.live)) = d.slots[j]?.map fun s => (s.value, s.live)
  /-- A slot that is free has the value that it had, and no neighbours. -/
  freed : ∀ j ∈ e.free, ∃ s, d.slots[j]? = some s ∧ e.slots[j]? = some ⟨s.value, none, none, false⟩
  /-- A slot names the same one before it exactly if the order of the nodes says so. -/
  prev : ∀ j s t, d.slots[j]? = some s → e.slots[j]? = some t →
    (t.prev = s.prev ↔ before j nodes' = before j nodes)
  /-- A slot names the same one after it exactly if the order of the nodes says so. -/
  next : ∀ j s t, d.slots[j]? = some s → e.slots[j]? = some t →
    (t.next = s.next ↔ after j nodes' = after j nodes)

namespace Layout

variable {l e : Layout}

/-- The slots that an operation overwrites, takes or frees. -/
def touched (limit : Nat) (l : Layout) : Op → List Nat
  | .pushFront _ | .pushBack _ => if l.hasRoom limit then [l.vacancy] else []
  | .popFront => l.nodes.take 1
  | .combineFront _ => if 2 ≤ l.nodes.length then l.nodes.take 2 else []
  | .swapFront | .rotateLeft | .rotateRight => []
  | .clear => l.nodes ++ l.free

/-- Between layouts it is enough to look at the lists. -/
theorem frame_deque {changed : List Nat}
    (hvalue : ∀ j, e.values[j]? ≠ l.values[j]? → j ∈ changed ∧ j ∉ e.free)
    (hnode : ∀ j ∉ changed, (j ∈ e.nodes ↔ j ∈ l.nodes)) :
    Frame changed l.nodes e.nodes l.deque e.deque where
  slot j hj := by
    have hv : e.values[j]? = l.values[j]? := by
      by_contra hne
      exact hj (hvalue j hne).1
    rw [getElem?_deque, getElem?_deque, hv, Option.map_map, Option.map_map]
    congr 1
    funext v
    simp only [Function.comp_apply, slot, hnode j hj]
  freed j hj := by
    have hv : e.values[j]? = l.values[j]? := by
      by_contra hne
      exact (hvalue j hne).2 hj
    obtain ⟨hlt, hj⟩ := e.mem_free_iff.mp hj
    rw [List.getElem?_eq_getElem hlt] at hv
    refine ⟨slot l.nodes j e.values[j], ?_, ?_⟩
    · rw [getElem?_deque, ← hv, Option.map_some]
    · rw [getElem?_deque, List.getElem?_eq_getElem hlt, Option.map_some, slot_of_notMem hj]
      rfl
  prev j s t hs ht := by
    rw [getElem?_deque, Option.map_eq_some_iff] at hs ht
    obtain ⟨v, -, rfl⟩ := hs
    obtain ⟨w, -, rfl⟩ := ht
    rfl
  next j s t hs ht := by
    rw [getElem?_deque, Option.map_eq_some_iff] at hs ht
    obtain ⟨v, -, rfl⟩ := hs
    obtain ⟨w, -, rfl⟩ := ht
    rfl

theorem frame_self (l : Layout) : Frame [] l.nodes l.nodes l.deque l.deque :=
  frame_deque (fun _ hne => absurd rfl hne) fun _ _ => Iff.rfl

theorem frame_reorder (l : Layout) (nodes : List Nat) (h : nodes.Perm l.nodes) :
    Frame [] l.nodes nodes l.deque (l.reorder nodes h).deque :=
  frame_deque (e := l.reorder nodes h) (fun _ hne => absurd rfl hne) fun _ _ => h.mem_iff

/-- A slot is taken, and the nodes come into any order. -/
theorem frame_push (l : Layout) (v : Value) (nodes : List Nat)
    (h : nodes.Perm (l.pushFront v).nodes) :
    Frame [l.vacancy] l.nodes nodes l.deque ((l.pushFront v).reorder nodes h).deque := by
  have hmem (j : Nat) : j ∈ nodes ↔ j = l.vacancy ∨ j ∈ l.nodes := by
    rw [h.mem_iff, nodes_pushFront, List.mem_cons]
  refine frame_deque (e := (l.pushFront v).reorder nodes h) (fun j hne => ?_) fun j hj => ?_
  · have hj : l.vacancy = j := by
      by_contra hj
      exact hne ((getElem?_pushFront l v j).trans (if_neg hj))
    refine ⟨by simp [hj], fun hfree => ?_⟩
    exact (mem_free_iff _).mp hfree |>.2 ((hmem j).mpr (.inl hj.symm))
  · rw [List.mem_singleton] at hj
    exact (hmem j).trans (or_iff_right hj)

theorem frame_popFront (l : Layout) :
    Frame (l.nodes.take 1) l.nodes l.popFront.nodes l.deque l.popFront.deque := by
  refine frame_deque (fun j hne => absurd (by rw [values_popFront]) hne) fun j hj => ?_
  rw [nodes_popFront]
  cases h : l.nodes with
  | nil => rfl
  | cons i nodes =>
      have hij : j ≠ i := by simpa [h] using hj
      simp [hij]

theorem frame_combineFront (l : Layout) (htwo : 2 ≤ l.nodes.length) (f : Value → Value → Value) :
    Frame (l.nodes.take 2) l.nodes (l.combineFront f).nodes l.deque (l.combineFront f).deque := by
  obtain ⟨i, j, nodes, h⟩ := exists_two htwo
  rw [combineFront_of_two h]
  have hnodes : (l.popFront.overwrite j (f (l.value j) (l.value i))).nodes = j :: nodes := by
    rw [overwrite, nodes_popFront, h, List.tail_cons]
  have hlt : j < l.popFront.values.length := by
    rw [values_popFront, l.lt_length_iff, h]
    simp
  refine frame_deque (fun k hne => ?_) fun k hk => ?_
  · have hk : j = k := by
      by_contra hk
      rw [getElem?_overwrite hlt, if_neg hk, values_popFront] at hne
      exact hne rfl
    refine ⟨by simp [h, hk], fun hfree => ((mem_free_iff _).mp hfree).2 ?_⟩
    rw [hnodes, hk]
    exact List.mem_cons_self
  · have hk : k ≠ i := by
      rintro rfl
      simp [h] at hk
    rw [hnodes, h]
    simp [hk]

theorem frame_empty (l : Layout) :
    Frame (l.nodes ++ l.free) l.nodes [] l.deque empty.deque := by
  refine frame_deque (e := empty) (fun j hne => ⟨?_, List.not_mem_nil⟩) fun j hj => ?_
  · have hj : j < l.values.length := by
      by_contra hj
      exact hne (List.getElem?_eq_none (Nat.le_of_not_lt hj)).symm
    exact List.mem_append.mpr (l.lt_length_iff.mp hj)
  · exact iff_of_false List.not_mem_nil fun hn => hj (List.mem_append_left _ hn)

/-- One case for each operation. -/
theorem frame_apply (limit : Nat) (l : Layout) (op : Op) :
    Frame (l.touched limit op) l.nodes (l.apply limit op).2.nodes l.deque
      (l.apply limit op).2.deque := by
  cases op with
  | pushFront v =>
      by_cases hroom : l.hasRoom limit = true
      · rw [touched, apply, if_pos hroom, if_pos hroom]
        exact l.frame_push v _ (.refl _)
      · rw [touched, apply, if_neg hroom, if_neg hroom]
        exact l.frame_self
  | pushBack v =>
      by_cases hroom : l.hasRoom limit = true
      · rw [touched, apply, if_pos hroom, if_pos hroom]
        exact l.frame_push v _ (l.perm_pushFront v)
      · rw [touched, apply, if_neg hroom, if_neg hroom]
        exact l.frame_self
  | popFront => exact l.frame_popFront
  | combineFront f =>
      by_cases htwo : 2 ≤ l.nodes.length
      · rw [touched, if_pos htwo, apply]
        exact l.frame_combineFront htwo f
      · rw [touched, if_neg htwo, apply, combineFront_of_short (Nat.lt_of_not_le htwo)]
        exact l.frame_self
  | swapFront => exact l.frame_reorder _ (BoundedList.swapFront_perm l.nodes)
  | rotateLeft => exact l.frame_reorder _ (BoundedList.rotateLeft_perm l.nodes)
  | rotateRight => exact l.frame_reorder _ (BoundedList.rotateRight_perm l.nodes)
  | clear => exact l.frame_empty

end Layout

/-- Every deque that operations make has a layout.  Each operation answers what the lists say and
makes the deque of the changed lists: an insertion takes the slot that was freed last or else a new
one, a removal frees the first node, combining the first two frees the first and stores the result
in the second, and the other operations but `clear` only reorder the nodes.  No other slot gets
another value, becomes a node or ceases to be one, and links change as the order of nodes requires. -/
theorem exists_layout_apply (limit limit' : Nat) (ops : List Op) :
    ∃ l : Layout, applyAll limit ∅ ops = l.deque ∧ l.deque.WellFormed l.nodes ∧
      ∀ op : Op, op.apply limit' l.deque = ((l.apply limit' op).1, (l.apply limit' op).2.deque) ∧
        Frame (l.touched limit' op) l.nodes (l.apply limit' op).2.nodes l.deque
          (l.apply limit' op).2.deque := by
  obtain ⟨l, hl⟩ := exists_applyAll_eq_deque limit ops
  exact ⟨l, hl, l.deque_wellFormed, fun op => ⟨l.apply_deque limit' op, l.frame_apply limit' op⟩⟩

end DequeMachine.Deque
