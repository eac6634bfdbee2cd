import DequeMachine.Deque.Operation
import DequeMachine.Proofs.Deque.BoundedList
import DequeMachine.Proofs.Deque.Surgery
import DequeMachine.Proofs.Deque.WellFormed

/-!
# DequeMachine.Proofs.Deque.Operation

What each operation makes of a well-formed deque.

An operation first takes, frees or overwrites one slot (`occupy`, `vacate`, `setValue`), which keeps
the slots partitioned into nodes and free slots, and then lays the links in a new order.  So its
result is named by an equation: one of these three changes, and `relink`.
-/

namespace DequeMachine.Deque

variable {d : Deque} {nodes rest : List Nat} {limit i j : Nat} {s : Slot}

/-! ## Inserting a value -/

/-- The deque after the next vacancy became a node without neighbours. -/
def occupy (d : Deque) (v : Value) : Deque := (d.occupy? v).getD d

/-- The vacancy is no node, and it is in the array or the next slot after it. -/
theorem Partitioned.vacancy? (h : d.Partitioned nodes) (hv : d.vacancy? limit = some i) :
    i ∉ nodes ∧ (i < d.slots.size ∨ i = d.slots.size ∧ d.slots.size < limit) := by
  unfold Deque.vacancy? at hv
  cases hfree : d.free with
  | cons k rest =>
      obtain rfl : k = i := by simpa [hfree] using hv
      have hk := (h.mem_free k).mp (by simp [hfree])
      exact ⟨hk.2, .inl hk.1⟩
  | nil =>
      obtain ⟨hlt, rfl⟩ : d.slots.size < limit ∧ d.slots.size = i := by simpa [hfree] using hv
      refine ⟨fun hi => ?_, .inr ⟨rfl, hlt⟩⟩
      obtain ⟨s, hs⟩ := h.node _ hi
      exact Nat.lt_irrefl _ (lt_of_slot? hs)

/-- A well-formed deque has no vacancy when it has as many nodes as it may have slots. -/
theorem WellFormed.vacancy?_eq_none_iff (h : d.WellFormed nodes) (hl : d.slots.size ≤ limit) :
    d.vacancy? limit = none ↔ nodes.length = limit := by
  have hsize := h.size_slots
  unfold Deque.vacancy?
  cases hfree : d.free with
  | cons k rest =>
      rw [hfree, List.length_cons] at hsize
      simp only [reduceCtorEq, false_iff]
      omega
  | nil =>
      rw [hfree, List.length_nil] at hsize
      by_cases hlt : d.slots.size < limit
      · simp only [if_pos hlt, reduceCtorEq, false_iff]
        omega
      · simp only [if_neg hlt, true_iff]
        omega

theorem Partitioned.occupy?_eq (h : d.Partitioned nodes) (v : Value) :
    d.occupy? v = some (d.occupy v) := by
  unfold occupy occupy?
  cases hfree : d.free with
  | nil => rfl
  | cons k rest =>
      have hk : k < d.slots.size := ((h.mem_free k).mp (by simp [hfree])).1
      simp only [dif_pos hk, Option.getD_some]

/-- Of the slots, only the vacancy changes. -/
theorem Partitioned.getElem?_occupy (h : d.Partitioned nodes) (hv : d.vacancy? limit = some i)
    (v : Value) (j : Nat) :
    (d.occupy v).slots[j]? = if i = j then some (.single v) else d.slots[j]? := by
  have hocc := h.occupy?_eq v
  unfold Deque.vacancy? at hv
  unfold occupy? at hocc
  cases hfree : d.free with
  | nil =>
      obtain ⟨-, rfl⟩ : d.slots.size < limit ∧ d.slots.size = i := by simpa [hfree] using hv
      simp only [hfree, Option.some.injEq] at hocc
      rw [← hocc, Array.getElem?_push]
      by_cases hj : j = d.slots.size
      · rw [if_pos hj, if_pos hj.symm]
      · rw [if_neg hj, if_neg (Ne.symm hj)]
  | cons k rest =>
      obtain rfl : k = i := by simpa [hfree] using hv
      have hk : k < d.slots.size := ((h.mem_free k).mp (by simp [hfree])).1
      simp only [hfree, dif_pos hk, Option.some.injEq] at hocc
      rw [← hocc, Array.getElem?_set]

theorem ends_occupy (d : Deque) (v : Value) :
    (d.occupy v).head = d.head ∧ (d.occupy v).tail = d.tail ∧ (d.occupy v).size = d.size := by
  unfold occupy occupy?
  split
  · split <;> exact ⟨rfl, rfl, rfl⟩
  · exact ⟨rfl, rfl, rfl⟩

theorem Partitioned.free_occupy (h : d.Partitioned nodes) (v : Value) :
    (d.occupy v).free = d.free.tail := by
  have hocc := h.occupy?_eq v
  unfold occupy? at hocc
  cases hfree : d.free with
  | nil =>
      simp only [hfree, Option.some.injEq] at hocc
      rw [← hocc]
      rfl
  | cons k rest =>
      have hk : k < d.slots.size := ((h.mem_free k).mp (by simp [hfree])).1
      simp only [hfree, dif_pos hk, Option.some.injEq] at hocc
      rw [← hocc]
      rfl

theorem Partitioned.lt_size_occupy_iff (h : d.Partitioned nodes) (hv : d.vacancy? limit = some i)
    (v : Value) (j : Nat) : j < (d.occupy v).slots.size ↔ j < d.slots.size ∨ j = i := by
  rw [← Nat.not_le, ← Nat.not_le, ← Array.getElem?_eq_none_iff, ← Array.getElem?_eq_none_iff,
    h.getElem?_occupy hv]
  by_cases hij : i = j
  · simp [hij]
  · simp [hij, Ne.symm hij]

/-- The vacancy is free no longer. -/
theorem Partitioned.mem_free_occupy_iff (h : d.Partitioned nodes) (hv : d.vacancy? limit = some i)
    (v : Value) (j : Nat) : j ∈ (d.occupy v).free ↔ j ∈ d.free ∧ j ≠ i := by
  have hn := h.free_nodup
  rw [h.free_occupy]
  unfold Deque.vacancy? at hv
  cases hfree : d.free with
  | nil => simp
  | cons k rest =>
      obtain rfl : k = i := by simpa [hfree] using hv
      rw [hfree, List.nodup_cons] at hn
      rw [List.tail_cons, List.mem_cons]
      constructor
      · exact fun hj => ⟨.inr hj, fun hjk => hn.1 (hjk ▸ hj)⟩
      · exact fun hj => hj.1.resolve_left hj.2

theorem Partitioned.occupy (h : d.Partitioned nodes) (hv : d.vacancy? limit = some i) (v : Value) :
    (d.occupy v).Partitioned (i :: nodes) where
  node j hj := by
    by_cases hij : i = j
    · refine ⟨.single v, slot?_of_getElem? ?_ rfl⟩
      rw [h.getElem?_occupy hv, if_pos hij]
    · obtain ⟨s, hs⟩ := h.node j ((List.mem_cons.mp hj).resolve_left (Ne.symm hij))
      refine ⟨s, slot?_of_getElem? ?_ (live_of_slot? hs)⟩
      rw [h.getElem?_occupy hv, if_neg hij, getElem?_of_slot? hs]
  free_nodup := by
    rw [h.free_occupy]
    exact h.free_nodup.sublist (List.tail_sublist d.free)
  mem_free j := by
    have hi : j = i → j ∉ nodes := fun hji => hji ▸ (h.vacancy? hv).1
    rw [h.mem_free_occupy_iff hv, h.mem_free, h.lt_size_occupy_iff hv, List.mem_cons]
    tauto
  free_slot j hj := by
    obtain ⟨hj, hji⟩ := (h.mem_free_occupy_iff hv v j).mp hj
    rw [h.getElem?_occupy hv, if_neg (Ne.symm hji)]
    exact h.free_slot j hj

/-- The array grows only where there is room. -/
theorem Partitioned.size_slots_occupy_le (h : d.Partitioned nodes) (hl : d.slots.size ≤ limit)
    (hv : d.vacancy? limit = some i) (v : Value) : (d.occupy v).slots.size ≤ limit := by
  by_contra hlt
  rcases (h.lt_size_occupy_iff hv v limit).mp (Nat.lt_of_not_le hlt) with hsize | rfl
  · omega
  · rcases (h.vacancy? hv).2 with hi | ⟨hi, hroom⟩ <;> omega

theorem Partitioned.valueAt_occupy (h : d.Partitioned nodes) (hv : d.vacancy? limit = some i)
    (v : Value) (j : Nat) : (d.occupy v).valueAt j = if i = j then v else d.valueAt j := by
  unfold valueAt
  rw [h.getElem?_occupy hv]
  by_cases hij : i = j
  · rw [if_pos hij, if_pos hij]
    rfl
  · rw [if_neg hij, if_neg hij]

theorem Partitioned.map_valueAt_occupy (h : d.Partitioned nodes) (hv : d.vacancy? limit = some i)
    (v : Value) : nodes.map (d.occupy v).valueAt = nodes.map d.valueAt := by
  refine List.map_congr_left fun j hj => ?_
  have hij : i ≠ j := fun hij => (h.vacancy? hv).1 (hij ▸ hj)
  rw [h.valueAt_occupy hv, if_neg hij]

theorem WellFormed.linked_occupy (h : d.WellFormed nodes) (hv : d.vacancy? limit = some i)
    (v : Value) : (d.occupy v).Linked nodes := by
  obtain ⟨hhead, htail, hsize⟩ := d.ends_occupy v
  refine h.linked.congr (fun j hj => ?_) hhead htail hsize
  have hij : i ≠ j := fun hij => (h.partitioned.vacancy? hv).1 (hij ▸ hj)
  rw [h.partitioned.getElem?_occupy hv, if_neg hij]

theorem Partitioned.slot?_occupy (h : d.Partitioned nodes) (hv : d.vacancy? limit = some i)
    (v : Value) : (d.occupy v).slot? i = some (.single v) :=
  slot?_of_getElem? (by rw [h.getElem?_occupy hv, if_pos rfl]) rfl

theorem WellFormed.pushFront?_eq (h : d.WellFormed nodes) (hv : d.vacancy? limit = some i)
    (v : Value) : d.pushFront? limit v = some (true, (d.occupy v).relink (i :: nodes)) := by
  have hlink := (h.linked_occupy hv v).linkFront?_eq (h.partitioned.vacancy? hv).1
    (h.partitioned.slot?_occupy hv v) rfl
  unfold pushFront?
  rw [hv, h.partitioned.occupy?_eq]
  simp [hlink]

theorem WellFormed.pushBack?_eq (h : d.WellFormed nodes) (hv : d.vacancy? limit = some i)
    (v : Value) : d.pushBack? limit v = some (true, (d.occupy v).relink (nodes ++ [i])) := by
  have hlink := (h.linked_occupy hv v).linkBack?_eq (h.partitioned.vacancy? hv).1
    (h.partitioned.slot?_occupy hv v) rfl
  unfold pushBack?
  rw [hv, h.partitioned.occupy?_eq]
  simp [hlink]

/-! ## Removing the first value -/

/-- The deque after a slot is freed that is no node any more. -/
def vacate (d : Deque) (i : Nat) : Deque :=
  { d.modify i fun s => { s.detach with live := false } with free := i :: d.free }

theorem getElem?_vacate (d : Deque) (i j : Nat) :
    (d.vacate i).slots[j]? =
      if i = j then d.slots[j]?.map fun s => { s.detach with live := false } else d.slots[j]? :=
  getElem?_modify d i j _

theorem slot?_vacate_of_ne (h : i ≠ j) : (d.vacate i).slot? j = d.slot? j := by
  rw [slot?, getElem?_vacate, if_neg h, slot?]

theorem valueAt_vacate (d : Deque) (i j : Nat) : (d.vacate i).valueAt j = d.valueAt j := by
  unfold valueAt
  rw [getElem?_vacate]
  split
  · cases d.slots[j]? <;> rfl
  · rfl

/-- A slot that was taken out of the list can be freed. -/
theorem release?_relink (hi : i ∉ nodes) (hs : d.slot? i = some s) :
    ((d.modify i Slot.detach).relink nodes).release? i = some ((d.vacate i).relink nodes) := by
  rw [release?, update?_eq_modify (slot?_relink_detach hs hi), Option.bind_eq_bind,
    Option.bind_some, Option.pure_def, Option.some.injEq]
  refine eq_relink (fun j => ?_) rfl rfl rfl rfl
  rw [getElem?_vacate, getElem?_modify, getElem?_relink, getElem?_modify]
  by_cases hij : i = j
  · subst hij
    rw [if_pos rfl, if_pos rfl, if_pos rfl, getElem?_of_slot? hs]
    simp [Slot.linkedIn_of_notMem hi]
  · rw [if_neg hij, if_neg hij, if_neg hij]

theorem Linked.popFront?_eq (h : d.Linked (i :: rest)) :
    d.popFront? = some (some (d.valueAt i), (d.vacate i).relink rest) := by
  have h' : d.Linked ([] ++ i :: rest) := h
  obtain ⟨s, hs, -, -⟩ := h.slot i List.mem_cons_self
  have hi : i ∉ rest := (List.nodup_cons.mp h.nodup).1
  unfold popFront?
  rw [h.head]
  simp [hs, h'.unlink?_eq, release?_relink hi hs, valueAt_of_slot? hs]

theorem Partitioned.vacate (h : d.Partitioned (i :: rest)) (hi : i ∉ rest) :
    (d.vacate i).Partitioned rest where
  node j hj := by
    obtain ⟨s, hs⟩ := h.node j (List.mem_cons_of_mem i hj)
    have hij : i ≠ j := fun hij => hi (hij ▸ hj)
    exact ⟨s, slot?_of_getElem? (by rw [getElem?_vacate, if_neg hij, getElem?_of_slot? hs])
      (live_of_slot? hs)⟩
  free_nodup := List.nodup_cons.mpr
    ⟨fun hm => ((h.mem_free i).mp hm).2 List.mem_cons_self, h.free_nodup⟩
  mem_free j := by
    obtain ⟨s, hs⟩ := h.node i List.mem_cons_self
    have hlt : i < d.slots.size := lt_of_slot? hs
    simp only [Deque.vacate, List.mem_cons, h.mem_free, size_slots_modify]
    by_cases hij : j = i
    · simp [hij, hlt, hi]
    · simp [hij]
  free_slot j hj := by
    rw [getElem?_vacate]
    by_cases hij : i = j
    · obtain ⟨s, hs⟩ := h.node i List.mem_cons_self
      rw [if_pos hij, ← hij, getElem?_of_slot? hs]
      exact ⟨s.value, rfl⟩
    · rw [if_neg hij]
      exact h.free_slot j ((List.mem_cons.mp hj).resolve_left (Ne.symm hij))

/-! ## Combining the first two values -/

/-- The slots of the first two nodes are read off the list. -/
theorem Linked.frontPair?_eq (h : d.Linked nodes) :
    d.frontPair? = some (match nodes with
      | i :: j :: _ => some (i, j)
      | _ => none) := by
  unfold frontPair?
  rw [h.head]
  cases nodes with
  | nil => rfl
  | cons i rest =>
      have h' : d.Linked ([] ++ i :: rest) := h
      obtain ⟨s, hs, -, hnext⟩ := h'.slot_middle
      cases rest <;> simp [hs, hnext]

/-- The deque with another value in a slot. -/
def setValue (d : Deque) (i : Nat) (v : Value) : Deque := d.modify i fun s => { s with value := v }

theorem valueAt_setValue (hs : d.slot? i = some s) (v : Value) (j : Nat) :
    (d.setValue i v).valueAt j = if i = j then v else d.valueAt j := by
  unfold valueAt setValue
  rw [getElem?_modify]
  by_cases hij : i = j
  · rw [if_pos hij, if_pos hij, ← hij, getElem?_of_slot? hs]
    rfl
  · rw [if_neg hij, if_neg hij]

theorem getElem?_setValue_of_ne (h : i ≠ j) (v : Value) :
    (d.setValue i v).slots[j]? = d.slots[j]? := by
  rw [setValue, getElem?_modify, if_neg h]

/-- Overwriting the value of a node changes nothing else. -/
theorem WellFormed.setValue (h : d.WellFormed nodes) (hi : i ∈ nodes) (v : Value) :
    (d.setValue i v).WellFormed nodes where
  linked := {
    nodup := h.linked.nodup
    head := h.linked.head
    tail := h.linked.tail
    size := h.linked.size
    slot := fun j hj => by
      obtain ⟨s, hs, hlinks⟩ := h.linked.slot j hj
      have hlive : s.live = true := live_of_slot? hs
      by_cases hij : i = j
      · refine ⟨{ s with value := v }, slot?_of_getElem? ?_ hlive, hlinks⟩
        rw [Deque.setValue, getElem?_modify, if_pos hij, getElem?_of_slot? hs, Option.map_some]
      · refine ⟨s, slot?_of_getElem? ?_ hlive, hlinks⟩
        rw [getElem?_setValue_of_ne hij, getElem?_of_slot? hs] }
  partitioned := {
    node := fun j hj => slot?_modify (by intro; rfl) i (h.partitioned.node j hj)
    free_nodup := h.partitioned.free_nodup
    mem_free := fun j => by
      rw [Deque.setValue, size_slots_modify]
      exact h.partitioned.mem_free j
    free_slot := fun j hj => by
      have hij : i ≠ j := fun hij => ((h.partitioned.mem_free j).mp hj).2 (hij ▸ hi)
      rw [getElem?_setValue_of_ne hij]
      exact h.partitioned.free_slot j hj }

theorem Linked.combineFront?_eq (h : d.Linked (i :: j :: rest)) (f : Value → Value → Value) :
    d.combineFront? f = some (true,
      ((d.vacate i).relink (j :: rest)).setValue j (f (d.valueAt j) (d.valueAt i))) := by
  have h' : d.Linked ([] ++ i :: j :: rest) := h
  obtain ⟨s, hs, -, -⟩ := h.slot i (by simp)
  obtain ⟨t, ht, -, -⟩ := h.slot j (by simp)
  have hi : i ∉ j :: rest := (List.nodup_cons.mp h.nodup).1
  have hu : ((d.vacate i).relink (j :: rest)).slot? j = some (t.linkedIn (j :: rest) j) := by
    rw [slot?_relink, slot?_vacate_of_ne fun hij => hi (by simp [hij]), ht, Option.map_some]
  unfold combineFront?
  simp [h.frontPair?_eq, hs, ht, h'.unlink?_eq, release?_relink hi hs, valueAt_of_slot? hs,
    valueAt_of_slot? ht, update?_eq_modify hu]
  rfl

/-! ## Moving nodes -/

theorem Linked.swapFront?_eq (h : d.Linked (i :: j :: rest)) :
    d.swapFront? = some (true, d.relink (j :: i :: rest)) := by
  have h' : d.Linked ([] ++ i :: j :: rest) := h
  have hlink := h'.linkAfter?_relink_detach (show [] ++ j :: rest = [] ++ j :: rest from rfl)
  unfold swapFront?
  rw [h.frontPair?_eq]
  simp only [Option.bind_eq_bind, Option.bind_some, h'.unlink?_eq, hlink]
  rfl

theorem Linked.rotateLeft?_eq (h : d.Linked nodes) :
    d.rotateLeft? = some (d.relink (BoundedList.rotateLeft nodes)) := by
  unfold rotateLeft?
  rw [h.frontPair?_eq, h.tail]
  match nodes, h with
  | [], h => simp [BoundedList.rotateLeft, h.relink_eq]
  | [i], h => simp [BoundedList.rotateLeft, h.relink_eq]
  | i :: j :: rest, h =>
      have h' : d.Linked ([] ++ i :: j :: rest) := h
      obtain ⟨front, t, hsplit⟩ := (List.eq_nil_or_concat' (j :: rest)).resolve_left
        (List.cons_ne_nil j rest)
      have hlink :=
        h'.linkAfter?_relink_detach (show [] ++ j :: rest = front ++ t :: [] from hsplit)
      have hlast : (i :: j :: rest).getLast? = some t := by
        rw [hsplit, ← List.cons_append, List.getLast?_concat]
      simp only [hlast, Option.bind_eq_bind, Option.bind_some, h'.unlink?_eq, hlink]
      simp [BoundedList.rotateLeft, hsplit]

theorem Linked.rotateRight?_eq (h : d.Linked nodes) :
    d.rotateRight? = some (d.relink (BoundedList.rotateRight nodes)) := by
  unfold rotateRight?
  rw [h.size, h.tail]
  rcases List.eq_nil_or_concat' nodes with rfl | ⟨front, t, rfl⟩
  · simp [BoundedList.rotateRight, h.relink_eq]
  · cases front with
    | nil =>
        rw [BoundedList.rotateRight_concat, show d.relink [t] = d from h.relink_eq]
        rfl
    | cons i front =>
        have h' : d.Linked (i :: front ++ t :: []) := h
        have hlink := h'.linkFront?_relink_detach
        rw [if_neg (by simp), List.getLast?_concat, BoundedList.rotateRight_concat]
        simp only [Option.bind_eq_bind, h'.unlink?_eq, Option.bind_some, hlink]
        rw [List.append_nil]

end DequeMachine.Deque
