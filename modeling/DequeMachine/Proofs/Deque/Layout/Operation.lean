import DequeMachine.Proofs.Deque.Layout.Basic
import DequeMachine.Proofs.Deque.Refinement

/-!
# DequeMachine.Proofs.Deque.Layout.Operation

The operations of a deque on its layout.

* `Layout.apply` changes the lists of nodes, free slots and values.  There are no links in it.
* `Layout.attempt?_deque`: an operation that follows and lays the links makes exactly the deque of
  the changed lists, answers what they say, and no check stops it.
-/

namespace DequeMachine.Deque

namespace Layout

variable {l : Layout} {limit i j : Nat} {v : Value}

/-! ## Changes of the lists -/

/-- The slot that the next node takes. -/
def vacancy (l : Layout) : Nat := l.free.headD l.values.length

/-- Whether there is a slot for the next node. -/
def hasRoom (limit : Nat) (l : Layout) : Bool := !l.free.isEmpty || l.values.length < limit

/-- Puts the nodes into another order. -/
def reorder (l : Layout) (nodes : List Nat) (h : nodes.Perm l.nodes) : Layout :=
  { l with nodes := nodes, perm := (h.append_right l.free).trans l.perm }

/-- Overwrites the value in a slot. -/
def overwrite (l : Layout) (i : Nat) (v : Value) : Layout :=
  { l with values := l.values.set i v, perm := by simpa using l.perm }

/-- The vacancy becomes the first node. -/
def pushFront (v : Value) : Layout → Layout
  | ⟨nodes, i :: free, values, perm⟩ =>
    ⟨i :: nodes, free, values.set i v, by simpa using List.perm_middle.symm.trans perm⟩
  | ⟨nodes, [], values, perm⟩ =>
    ⟨values.length :: nodes, [], values ++ [v], by
      rw [List.length_append, List.length_singleton, List.range_succ]
      exact (perm.cons values.length).trans (List.perm_append_singleton _ _).symm⟩

/-- The first node is freed. -/
def popFront : Layout → Layout
  | ⟨i :: nodes, free, values, perm⟩ => ⟨nodes, i :: free, values, List.perm_middle.trans perm⟩
  | l => l

theorem nodes_pushFront (l : Layout) (v : Value) :
    (l.pushFront v).nodes = l.vacancy :: l.nodes := by
  obtain ⟨nodes, _ | ⟨i, free⟩, values, perm⟩ := l <;> rfl

theorem free_pushFront (l : Layout) (v : Value) : (l.pushFront v).free = l.free.tail := by
  obtain ⟨nodes, _ | ⟨i, free⟩, values, perm⟩ := l <;> rfl

theorem nodes_popFront (l : Layout) : l.popFront.nodes = l.nodes.tail := by
  obtain ⟨_ | ⟨i, nodes⟩, free, values, perm⟩ := l <;> rfl

theorem free_popFront {nodes : List Nat} (h : l.nodes = i :: nodes) :
    l.popFront.free = i :: l.free := by
  obtain ⟨_, free, values, perm⟩ := l
  obtain rfl := h
  rfl

theorem popFront_of_nil (h : l.nodes = []) : l.popFront = l := by
  obtain ⟨_, free, values, perm⟩ := l
  obtain rfl := h
  rfl

theorem perm_pushFront (l : Layout) (v : Value) :
    (l.nodes ++ [l.vacancy]).Perm (l.pushFront v).nodes := by
  rw [nodes_pushFront]
  exact List.perm_append_singleton l.vacancy l.nodes

/-- The vacancy becomes the last node. -/
def pushBack (v : Value) (l : Layout) : Layout :=
  (l.pushFront v).reorder (l.nodes ++ [l.vacancy]) (l.perm_pushFront v)

/-- The first node is freed, and the second gets the value of both. -/
def combineFront (f : Value → Value → Value) (l : Layout) : Layout :=
  match l.nodes with
  | i :: j :: _ => l.popFront.overwrite j (f (l.value j) (l.value i))
  | _ => l

/-- The first two nodes change places. -/
def swapFront (l : Layout) : Layout :=
  l.reorder (BoundedList.swapFront l.nodes) (BoundedList.swapFront_perm l.nodes)

theorem combineFront_of_two {nodes : List Nat} (h : l.nodes = i :: j :: nodes)
    (f : Value → Value → Value) :
    l.combineFront f = l.popFront.overwrite j (f (l.value j) (l.value i)) := by
  rw [combineFront, h]

theorem combineFront_of_short (h : l.nodes.length < 2) (f : Value → Value → Value) :
    l.combineFront f = l := by
  unfold combineFront
  split
  · next hn =>
      rw [hn, List.length_cons, List.length_cons] at h
      omega
  · rfl

theorem swapFront_of_short (h : l.nodes.length < 2) : l.swapFront = l :=
  Layout.ext (BoundedList.swapFront_of_short h) rfl rfl

/-- The first node becomes the last. -/
def rotateLeft (l : Layout) : Layout :=
  l.reorder (BoundedList.rotateLeft l.nodes) (BoundedList.rotateLeft_perm l.nodes)

/-- The last node becomes the first. -/
def rotateRight (l : Layout) : Layout :=
  l.reorder (BoundedList.rotateRight l.nodes) (BoundedList.rotateRight_perm l.nodes)

/-- No slots. -/
def empty : Layout := ⟨[], [], [], .nil⟩

/-- The answer of an operation, and the layout after it. -/
def apply (limit : Nat) (l : Layout) : Op → Reply × Layout
  | .pushFront v => if l.hasRoom limit then (.stored true, l.pushFront v) else (.stored false, l)
  | .pushBack v => if l.hasRoom limit then (.stored true, l.pushBack v) else (.stored false, l)
  | .popFront => (.removed (l.nodes.head?.map l.value), l.popFront)
  | .combineFront f => (.changed (2 ≤ l.nodes.length), l.combineFront f)
  | .swapFront => (.changed (2 ≤ l.nodes.length), l.swapFront)
  | .rotateLeft => (.moved, l.rotateLeft)
  | .rotateRight => (.moved, l.rotateRight)
  | .clear => (.cleared l.nodes.length, empty)

/-! ## Values after a change -/

theorem getElem?_overwrite (h : i < l.values.length) (v : Value) (j : Nat) :
    (l.overwrite i v).values[j]? = if i = j then some v else l.values[j]? := by
  simp only [overwrite, List.getElem?_set, if_pos h]

theorem getElem?_pushFront (l : Layout) (v : Value) (j : Nat) :
    (l.pushFront v).values[j]? = if l.vacancy = j then some v else l.values[j]? := by
  obtain ⟨nodes, _ | ⟨i, free⟩, values, perm⟩ := l
  · change (values ++ [v])[j]? = if values.length = j then some v else values[j]?
    rcases Nat.lt_trichotomy j values.length with hlt | rfl | hgt
    · rw [List.getElem?_append_left hlt, if_neg (Nat.ne_of_gt hlt)]
    · rw [List.getElem?_concat_length, if_pos rfl]
    · rw [if_neg (Nat.ne_of_lt hgt), List.getElem?_eq_none (Nat.le_of_lt hgt),
        List.getElem?_eq_none (by simpa using Nat.succ_le_of_lt hgt)]
  · have hi : i < values.length :=
      (lt_length_iff ⟨nodes, i :: free, values, perm⟩).mpr (.inr List.mem_cons_self)
    exact getElem?_overwrite (l := ⟨nodes, i :: free, values, perm⟩) hi v j

theorem value_overwrite (h : i < l.values.length) (v : Value) (j : Nat) :
    (l.overwrite i v).value j = if i = j then v else l.value j := by
  simp only [value, List.getD_eq_getElem?_getD, getElem?_overwrite h]
  split <;> rfl

theorem value_pushFront (l : Layout) (v : Value) (j : Nat) :
    (l.pushFront v).value j = if l.vacancy = j then v else l.value j := by
  simp only [value, List.getD_eq_getElem?_getD, getElem?_pushFront]
  split <;> rfl

theorem values_popFront (l : Layout) : l.popFront.values = l.values := by
  obtain ⟨_ | ⟨i, nodes⟩, free, values, perm⟩ := l <;> rfl

theorem value_popFront (l : Layout) (j : Nat) : l.popFront.value j = l.value j := by
  rw [value, values_popFront, value]

/-! ## The deque after a change -/

theorem relink_eq_deque {d : Deque} {nodes : List Nat} {m : Layout} (h : d.Partitioned nodes)
    (hm : m.nodes.Perm nodes) (hfree : d.free = m.free) (hvalue : ∀ j, d.valueAt j = m.value j) :
    d.relink m.nodes = m.deque :=
  (h.relink m.nodup_nodes fun _ => hm.mem_iff).eq_deque hfree fun j => by
    rw [valueAt_relink, hvalue]

theorem reorder_deque (l : Layout) (nodes : List Nat) (h : nodes.Perm l.nodes) :
    l.deque.relink nodes = (l.reorder nodes h).deque :=
  relink_eq_deque (m := l.reorder nodes h) l.deque_wellFormed.partitioned h rfl l.valueAt_deque

theorem setValue_deque (hi : i ∈ l.nodes) (v : Value) :
    l.deque.setValue i v = (l.overwrite i v).deque := by
  have hwell : (l.deque.setValue i v).WellFormed (l.overwrite i v).nodes :=
    l.deque_wellFormed.setValue hi v
  obtain ⟨s, hs, -, -⟩ := l.deque_wellFormed.linked.slot i hi
  refine hwell.eq_deque rfl fun j => ?_
  rw [valueAt_setValue hs, value_overwrite (l.lt_length_iff.mpr (.inl hi)), valueAt_deque]

theorem vacancy?_deque (limit : Nat) (l : Layout) :
    l.deque.vacancy? limit = if l.hasRoom limit then some l.vacancy else none := by
  obtain ⟨nodes, _ | ⟨i, free⟩, values, perm⟩ := l
  · simp [Deque.vacancy?, deque, hasRoom, vacancy]
  · rfl

theorem vacancy?_of_hasRoom (h : l.hasRoom limit = true) :
    l.deque.vacancy? limit = some l.vacancy := by
  rw [vacancy?_deque, if_pos h]

theorem relink_occupy {m : Layout} (hroom : l.hasRoom limit = true)
    (hm : m.nodes.Perm (l.vacancy :: l.nodes)) (hfree : m.free = l.free.tail)
    (hvalue : ∀ j, m.value j = if l.vacancy = j then v else l.value j) :
    (l.deque.occupy v).relink m.nodes = m.deque := by
  have hpart := l.deque_wellFormed.partitioned
  have hv := vacancy?_of_hasRoom hroom
  refine relink_eq_deque (hpart.occupy hv v) hm ?_ fun j => ?_
  · rw [hpart.free_occupy, hfree]
    rfl
  · rw [hpart.valueAt_occupy hv, valueAt_deque, hvalue]

theorem pushFront?_deque (limit : Nat) (l : Layout) (v : Value) :
    l.deque.pushFront? limit v =
      some (if l.hasRoom limit then (true, (l.pushFront v).deque) else (false, l.deque)) := by
  by_cases hroom : l.hasRoom limit = true
  · rw [if_pos hroom, l.deque_wellFormed.pushFront?_eq (vacancy?_of_hasRoom hroom),
      ← nodes_pushFront l v, relink_occupy hroom (.of_eq (nodes_pushFront l v))
        (free_pushFront l v) (value_pushFront l v)]
  · rw [if_neg hroom, Deque.pushFront?, vacancy?_deque, if_neg hroom]

theorem pushBack?_deque (limit : Nat) (l : Layout) (v : Value) :
    l.deque.pushBack? limit v =
      some (if l.hasRoom limit then (true, (l.pushBack v).deque) else (false, l.deque)) := by
  by_cases hroom : l.hasRoom limit = true
  · have hm : (l.pushBack v).nodes.Perm (l.vacancy :: l.nodes) :=
      List.perm_append_singleton l.vacancy l.nodes
    have hrelink := relink_occupy hroom hm (free_pushFront l v) (value_pushFront l v)
    rw [if_pos hroom, l.deque_wellFormed.pushBack?_eq (vacancy?_of_hasRoom hroom)]
    exact congrArg (fun e => some (true, e)) hrelink
  · rw [if_neg hroom, Deque.pushBack?, vacancy?_deque, if_neg hroom]

theorem relink_vacate {nodes : List Nat} (h : l.nodes = i :: nodes) :
    (l.deque.vacate i).relink nodes = l.popFront.deque := by
  have hwell : l.deque.WellFormed (i :: nodes) := h ▸ l.deque_wellFormed
  have hi : i ∉ nodes := (List.nodup_cons.mp hwell.linked.nodup).1
  have hm : l.popFront.nodes = nodes := by rw [nodes_popFront, h, List.tail_cons]
  rw [← hm]
  refine relink_eq_deque (hwell.partitioned.vacate hi) (.of_eq hm) ?_ fun j => ?_
  · rw [free_popFront h]
    rfl
  · rw [valueAt_vacate, valueAt_deque, value_popFront]

theorem deque_holds (l : Layout) :
    l.deque.Holds l.values.length (l.nodes.map l.deque.valueAt) :=
  ⟨l.nodes, l.deque_wellFormed, Nat.le_of_eq l.size_slots_deque, rfl⟩

theorem popFront?_deque (l : Layout) :
    l.deque.popFront? = some (l.nodes.head?.map l.value, l.popFront.deque) := by
  cases h : l.nodes with
  | nil =>
      have hholds := l.deque_holds
      rw [h] at hholds
      rw [popFront_of_nil h, hholds.popFront?_nil]
      rfl
  | cons i nodes =>
      have hwell : l.deque.WellFormed (i :: nodes) := h ▸ l.deque_wellFormed
      rw [hwell.linked.popFront?_eq, relink_vacate h, valueAt_deque]
      rfl

theorem combineFront?_deque (l : Layout) (f : Value → Value → Value) :
    l.deque.combineFront? f = some (decide (2 ≤ l.nodes.length), (l.combineFront f).deque) := by
  by_cases htwo : 2 ≤ l.nodes.length
  · obtain ⟨i, j, nodes, h⟩ := exists_two htwo
    have hwell : l.deque.WellFormed (i :: j :: nodes) := h ▸ l.deque_wellFormed
    have hj : j ∈ l.popFront.nodes := by simp [nodes_popFront, h]
    rw [hwell.linked.combineFront?_eq, relink_vacate h, setValue_deque hj, valueAt_deque,
      valueAt_deque, combineFront_of_two h, decide_eq_true htwo]
  · have hshort := Nat.lt_of_not_le htwo
    rw [l.deque_holds.combineFront?_short (by simpa using hshort), combineFront_of_short hshort,
      decide_eq_false htwo]

theorem swapFront?_deque (l : Layout) :
    l.deque.swapFront? = some (decide (2 ≤ l.nodes.length), l.swapFront.deque) := by
  by_cases htwo : 2 ≤ l.nodes.length
  · obtain ⟨i, j, nodes, h⟩ := exists_two htwo
    have hwell : l.deque.WellFormed (i :: j :: nodes) := h ▸ l.deque_wellFormed
    have hswap := l.reorder_deque _ (BoundedList.swapFront_perm l.nodes)
    rw [hwell.linked.swapFront?_eq, swapFront, ← hswap, decide_eq_true htwo, h,
      BoundedList.swapFront]
  · have hshort := Nat.lt_of_not_le htwo
    rw [l.deque_holds.swapFront?_short (by simpa using hshort), swapFront_of_short hshort,
      decide_eq_false htwo]

theorem rotateLeft?_deque (l : Layout) : l.deque.rotateLeft? = some l.rotateLeft.deque := by
  rw [l.deque_wellFormed.linked.rotateLeft?_eq, rotateLeft, reorder_deque]

theorem rotateRight?_deque (l : Layout) : l.deque.rotateRight? = some l.rotateRight.deque := by
  rw [l.deque_wellFormed.linked.rotateRight?_eq, rotateRight, reorder_deque]

/-- No check stops an operation.  It answers and leaves what the lists say. -/
theorem attempt?_deque (limit : Nat) (l : Layout) (op : Op) :
    op.attempt? limit l.deque = some ((l.apply limit op).1, (l.apply limit op).2.deque) := by
  cases op with
  | pushFront v =>
      rw [Op.attempt?, apply, pushFront?_deque]
      split <;> rfl
  | pushBack v =>
      rw [Op.attempt?, apply, pushBack?_deque]
      split <;> rfl
  | popFront => simp [Op.attempt?, apply, popFront?_deque]
  | combineFront f => simp [Op.attempt?, apply, combineFront?_deque]
  | swapFront => simp [Op.attempt?, apply, swapFront?_deque]
  | rotateLeft => simp [Op.attempt?, apply, rotateLeft?_deque]
  | rotateRight => simp [Op.attempt?, apply, rotateRight?_deque]
  | clear => rfl

theorem apply_deque (limit : Nat) (l : Layout) (op : Op) :
    op.apply limit l.deque = ((l.apply limit op).1, (l.apply limit op).2.deque) :=
  Op.apply_eq_of_attempt? (l.attempt?_deque limit op)

theorem pushFront_deque (limit : Nat) (l : Layout) (v : Value) :
    l.deque.pushFront limit v =
      if l.hasRoom limit then (true, (l.pushFront v).deque) else (false, l.deque) := by
  rw [Deque.pushFront, pushFront?_deque, Option.getD_some]

theorem pushBack_deque (limit : Nat) (l : Layout) (v : Value) :
    l.deque.pushBack limit v =
      if l.hasRoom limit then (true, (l.pushBack v).deque) else (false, l.deque) := by
  rw [Deque.pushBack, pushBack?_deque, Option.getD_some]

theorem popFront_deque (l : Layout) :
    l.deque.popFront = (l.nodes.head?.map l.value, l.popFront.deque) := by
  rw [Deque.popFront, popFront?_deque, Option.getD_some]

theorem combineFront_deque (l : Layout) (f : Value → Value → Value) :
    l.deque.combineFront f = (decide (2 ≤ l.nodes.length), (l.combineFront f).deque) := by
  rw [Deque.combineFront, combineFront?_deque, Option.getD_some]

theorem swapFront_deque (l : Layout) :
    l.deque.swapFront = (decide (2 ≤ l.nodes.length), l.swapFront.deque) := by
  rw [Deque.swapFront, swapFront?_deque, Option.getD_some]

theorem rotateLeft_deque (l : Layout) : l.deque.rotateLeft = l.rotateLeft.deque := by
  rw [Deque.rotateLeft, rotateLeft?_deque, Option.getD_some]

theorem rotateRight_deque (l : Layout) : l.deque.rotateRight = l.rotateRight.deque := by
  rw [Deque.rotateRight, rotateRight?_deque, Option.getD_some]

end Layout

/-- Every series of operations makes the deque of a layout. -/
theorem exists_applyAll_eq_deque (limit : Nat) (ops : List Op) :
    ∃ l : Layout, applyAll limit ∅ ops = l.deque := by
  obtain ⟨nodes, hd, -, -⟩ := (Holds.empty limit).applyAll ops
  obtain ⟨l, -, hl⟩ := hd.exists_layout
  exact ⟨l, hl⟩

end DequeMachine.Deque
