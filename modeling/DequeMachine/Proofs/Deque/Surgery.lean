import DequeMachine.Proofs.Deque.Linked

/-!
# DequeMachine.Proofs.Deque.Surgery

Taking a node out of the list and putting one into it, at every place of the list.

The ends of the list are no special case: where a node has no neighbour, the head stands for the
link of the one before and the tail for the link of the one after (`setNext`, `setPrev`).  Each
change is then one `splice`, which replaces the middle of the list, and comparing it slot by slot
with the links of the new order gives an equation:

* `Linked.unlink?_eq`: a node leaves the list, and has no neighbours any more;
* `Linked.linkAfter?_eq`, `Linked.linkFront?_eq`, `Linked.linkBack?_eq`: a node comes in.
-/

namespace DequeMachine.Deque

open Neighbours

variable {d : Deque} {nodes front mid back : List Nat} {i : Nat} {s : Slot}

/-! ## Setting one link -/

/-- Names the node after `p`, or the head if there is no `p`. -/
def setNext (d : Deque) (p n : Option Nat) : Deque :=
  match p with
  | some p => d.modify p fun s => { s with next := n }
  | none => { d with head := n }

/-- Names the node before `n`, or the tail if there is no `n`. -/
def setPrev (d : Deque) (n p : Option Nat) : Deque :=
  match n with
  | some n => d.modify n fun s => { s with prev := p }
  | none => { d with tail := p }

theorem getElem?_setNext (d : Deque) (p n : Option Nat) (j : Nat) :
    (d.setNext p n).slots[j]? =
      if p = some j then d.slots[j]?.map fun s => { s with next := n } else d.slots[j]? := by
  cases p with
  | none => simp [setNext]
  | some p => simp [setNext, getElem?_modify]

theorem getElem?_setPrev (d : Deque) (n p : Option Nat) (j : Nat) :
    (d.setPrev n p).slots[j]? =
      if n = some j then d.slots[j]?.map fun s => { s with prev := p } else d.slots[j]? := by
  cases n with
  | none => simp [setPrev]
  | some n => simp [setPrev, getElem?_modify]

theorem slot?_setNext {p : Option Nat} (n : Option Nat) {j : Nat} (h : ∃ s, d.slot? j = some s) :
    ∃ s, (d.setNext p n).slot? j = some s := by
  cases p with
  | none => exact h
  | some p => exact slot?_modify (by intro; rfl) p h

/-! ## Checked settings -/

/-- `setNext`, if `p` is a node. -/
def setNext? (d : Deque) (p n : Option Nat) : Option Deque :=
  match p with
  | some p => d.update? p fun s => { s with next := n }
  | none => some { d with head := n }

/-- `setPrev`, if `n` is a node. -/
def setPrev? (d : Deque) (n p : Option Nat) : Option Deque :=
  match n with
  | some n => d.update? n fun s => { s with prev := p }
  | none => some { d with tail := p }

theorem setNext?_eq_some {p : Option Nat} (n : Option Nat)
    (h : ∀ q, p = some q → ∃ s, d.slot? q = some s) : d.setNext? p n = some (d.setNext p n) := by
  cases p with
  | none => rfl
  | some p =>
      obtain ⟨s, hs⟩ := h p rfl
      exact update?_eq_modify hs fun s => { s with next := n }

theorem setPrev?_eq_some {n : Option Nat} (p : Option Nat)
    (h : ∀ q, n = some q → ∃ s, d.slot? q = some s) : d.setPrev? n p = some (d.setPrev n p) := by
  cases n with
  | none => rfl
  | some n =>
      obtain ⟨s, hs⟩ := h n rfl
      exact update?_eq_modify hs fun s => { s with prev := p }

/-! ## Replacing the middle of the list -/

/-- Makes `mid` what stands between the nodes `front` and the nodes `back`, as far as these can
tell: the last of `front` and the first of `back` get new neighbours. -/
def splice (d : Deque) (front mid back : List Nat) : Deque :=
  (d.setNext front.getLast? (mid ++ back).head?).setPrev back.head? (front ++ mid).getLast?

/-- `splice`, if the slots that get new neighbours are nodes. -/
def splice? (d : Deque) (front mid back : List Nat) : Option Deque :=
  (d.setNext? front.getLast? (mid ++ back).head?).bind fun d =>
    d.setPrev? back.head? (front ++ mid).getLast?

theorem splice?_eq_some (mid : List Nat) (h : ∀ j ∈ front ++ back, ∃ s, d.slot? j = some s) :
    d.splice? front mid back = some (d.splice front mid back) := by
  have hfront : ∀ q, front.getLast? = some q → ∃ s, d.slot? q = some s := fun q hq =>
    h q (List.mem_append_left back (List.mem_of_getLast? hq))
  have hback : ∀ q, back.head? = some q → ∃ s, d.slot? q = some s := fun q hq =>
    h q (List.mem_append_right front (List.mem_of_head? hq))
  rw [splice?, setNext?_eq_some _ hfront, Option.bind_some,
    setPrev?_eq_some _ fun q hq => slot?_setNext _ (hback q hq), splice]

@[simp]
theorem free_splice (d : Deque) (front mid back : List Nat) :
    (d.splice front mid back).free = d.free := by
  unfold splice setPrev setNext
  cases front.getLast? <;> cases back.head? <;> rfl

@[simp]
theorem size_splice (d : Deque) (front mid back : List Nat) :
    (d.splice front mid back).size = d.size := by
  unfold splice setPrev setNext
  cases front.getLast? <;> cases back.head? <;> rfl

@[simp]
theorem size_slots_splice (d : Deque) (front mid back : List Nat) :
    (d.splice front mid back).slots.size = d.slots.size := by
  unfold splice setPrev setNext
  cases front.getLast? <;> cases back.head? <;> simp [modify]

theorem getElem?_splice_of_notMem (d : Deque) (mid : List Nat) {j : Nat} (hf : j ∉ front)
    (hb : j ∉ back) : (d.splice front mid back).slots[j]? = d.slots[j]? := by
  rw [splice, getElem?_setPrev, if_neg fun hl => hb (List.mem_of_head? hl), getElem?_setNext,
    if_neg fun hl => hf (List.mem_of_getLast? hl)]

namespace Linked

/-- The links of all slots outside of the middle are those of the new order. -/
theorem getElem?_splice (h : d.Linked (front ++ mid ++ back)) (mid' : List Nat) {j : Nat}
    (hm : j ∉ mid) (hm' : j ∉ mid') :
    (d.splice front mid' back).slots[j]? =
      d.slots[j]?.map (Slot.linkedIn (front ++ mid' ++ back) j) := by
  obtain ⟨hfm, hb, hdis⟩ := List.nodup_append.mp h.nodup
  have hf : front.Nodup := (List.nodup_append.mp hfm).1
  by_cases hjf : j ∈ front
  · have hjb : j ∉ back := fun hjb => hdis j (List.mem_append_left mid hjf) j hjb rfl
    obtain ⟨t, ht, hprev, hnext⟩ := h.slot j (by simp [hjf])
    rw [List.append_assoc, before_append_left (by simp [hm, hjb])] at hprev
    rw [List.append_assoc, after_append_left hf hjf] at hnext
    rw [splice, getElem?_setPrev, if_neg fun hl => hjb (List.mem_of_head? hl), getElem?_setNext,
      getElem?_of_slot? ht, Option.map_some, Option.map_some, Slot.linkedIn_of_mem (by simp [hjf]),
      List.append_assoc, before_append_left (by simp [hm', hjb]), after_append_left hf hjf, ← hprev]
    by_cases hl : front.getLast? = some j
    · rw [if_pos hl, if_pos hl]
    · rw [if_neg hl] at hnext
      rw [if_neg hl, if_neg hl, ← hnext]
  · by_cases hjb : j ∈ back
    · obtain ⟨t, ht, hprev, hnext⟩ := h.slot j (by simp [hjb])
      rw [before_append_right hb hjb] at hprev
      rw [after_append_right (by simp [hm, hjf])] at hnext
      rw [splice, getElem?_setPrev, getElem?_setNext,
        if_neg fun hl => hjf (List.mem_of_getLast? hl), getElem?_of_slot? ht, Option.map_some,
        Option.map_some, Slot.linkedIn_of_mem (by simp [hjb]), before_append_right hb hjb,
        after_append_right (by simp [hm', hjf]), ← hnext]
      by_cases hl : back.head? = some j
      · rw [if_pos hl, if_pos hl]
      · rw [if_neg hl] at hprev
        rw [if_neg hl, if_neg hl, ← hprev]
    · have hj : j ∉ front ++ mid' ++ back := by simp [hjf, hm', hjb]
      rw [getElem?_splice_of_notMem d mid' hjf hjb]
      cases d.slots[j]? with
      | none => rfl
      | some t => rw [Option.map_some, Slot.linkedIn_of_notMem hj]

theorem head_splice (h : d.Linked (front ++ mid ++ back)) (mid' : List Nat) :
    (d.splice front mid' back).head = (front ++ mid' ++ back).head? := by
  have hhead := h.head
  unfold splice setPrev setNext
  cases front with
  | nil => cases back.head? <;> rfl
  | cons x xs =>
      cases back.head? <;> simpa [List.getLast?_cons, modify] using hhead

theorem tail_splice (h : d.Linked (front ++ mid ++ back)) (mid' : List Nat) :
    (d.splice front mid' back).tail = (front ++ mid' ++ back).getLast? := by
  have htail := h.tail
  unfold splice setPrev setNext
  cases back with
  | nil => simp
  | cons x xs =>
      rw [List.getLast?_append_cons] at htail ⊢
      cases front.getLast? <;> exact htail

/-- A deque stays linked when a slot that is no node changes. -/
theorem modify_of_notMem (h : d.Linked nodes) (hi : i ∉ nodes) (f : Slot → Slot) :
    (d.modify i f).Linked nodes := by
  refine h.congr (fun j hj => ?_) rfl rfl rfl
  have hij : i ≠ j := fun hij => hi (hij ▸ hj)
  rw [getElem?_modify, if_neg hij]

/-! ## Taking a node out -/

/-- The neighbours of a node in the middle. -/
theorem slot_middle (h : d.Linked (front ++ i :: back)) :
    ∃ s, d.slot? i = some s ∧ s.prev = front.getLast? ∧ s.next = back.head? := by
  obtain ⟨hif, hib⟩ : i ∉ front ∧ i ∉ back := by
    simpa using (List.nodup_cons.mp (List.nodup_middle.mp h.nodup)).1
  obtain ⟨s, hs, hprev, hnext⟩ := h.slot i (by simp)
  exact ⟨s, hs, hprev.trans (before_middle hib), hnext.trans (after_middle hif)⟩

/-- A node that is taken out leaves its neighbours side by side. -/
theorem unlink?_eq (h : d.Linked (front ++ i :: back)) :
    d.unlink? i = some ((d.modify i Slot.detach).relink (front ++ back)) := by
  have h' : d.Linked (front ++ [i] ++ back) := by simpa using h
  obtain ⟨hif, hib⟩ : i ∉ front ∧ i ∉ back := by
    simpa using (List.nodup_cons.mp (List.nodup_middle.mp h.nodup)).1
  obtain ⟨s, hs, hprev, hnext⟩ := h.slot_middle
  have hnode : ∀ j ∈ front ++ back, ∃ t, d.slot? j = some t := fun j hj => by
    obtain ⟨t, ht, -, -⟩ := h.slot j (by simp only [List.mem_append, List.mem_cons] at hj ⊢; tauto)
    exact ⟨t, ht⟩
  have hpos : 0 < d.size := by
    rw [h.size, List.length_append, List.length_cons]
    omega
  have hunlink : d.unlink? i =
      (d.splice? front [] back).bind fun d => (d.update? i Slot.detach).bind shrink? := by
    rw [splice?, Option.bind_assoc, List.nil_append, List.append_nil, ← hprev, ← hnext]
    unfold unlink?
    rw [hs, Option.bind_eq_bind, Option.bind_some]
    cases s.prev <;> cases s.next <;> rfl
  have hi : (d.splice front [] back).slot? i = some s :=
    slot?_of_getElem? ((getElem?_splice_of_notMem d [] hif hib).trans (getElem?_of_slot? hs))
      (live_of_slot? hs)
  rw [hunlink, splice?_eq_some [] hnode, Option.bind_some, update?_eq_modify hi, Option.bind_some,
    shrink?, if_pos (by simpa using hpos), Option.some.injEq]
  refine eq_relink (fun j => ?_) (by simp) ?_ ?_ (by simp [h.size])
  · rw [getElem?_modify, getElem?_modify]
    by_cases hij : i = j
    · subst hij
      rw [if_pos rfl, if_pos rfl, getElem?_splice_of_notMem d [] hif hib, getElem?_of_slot? hs,
        Option.map_some, Option.map_some, Slot.linkedIn_of_notMem (by simp [hif, hib])]
    · rw [if_neg hij, if_neg hij, h'.getElem?_splice [] (by simpa using Ne.symm hij) (by simp),
        List.append_nil]
  · simpa using h'.head_splice []
  · simpa using h'.tail_splice []

end Linked

/-! ## A node that was taken out -/

theorem slot?_relink_detach (hs : d.slot? i = some s) (hi : i ∉ nodes) :
    ((d.modify i Slot.detach).relink nodes).slot? i = some s.detach := by
  have hlive : s.live = true := live_of_slot? hs
  refine slot?_of_getElem? ?_ hlive
  rw [getElem?_relink, getElem?_modify, if_pos rfl, getElem?_of_slot? hs, Option.map_some,
    Option.map_some, Slot.linkedIn_of_notMem hi]

/-- What remains is linked. -/
theorem Linked.relink_detach (h : d.Linked (front ++ i :: back)) :
    ((d.modify i Slot.detach).relink (front ++ back)).Linked (front ++ back) := by
  refine linked_relink (List.nodup_cons.mp (List.nodup_middle.mp h.nodup)).2 fun j hj => ?_
  obtain ⟨t, ht, -, -⟩ := h.slot j (by simp only [List.mem_append, List.mem_cons] at hj ⊢; tauto)
  exact slot?_modify (by intro; rfl) i ⟨t, ht⟩

/-- Once the node is back in the list, it does not matter that it was taken out. -/
theorem relink_relink_detach {nodes' : List Nat} (hi : i ∈ nodes') (h : ∀ j ∈ nodes, j ∈ nodes') :
    ((d.modify i Slot.detach).relink nodes).relink nodes' = d.relink nodes' := by
  rw [relink_relink h]
  refine eq_relink (fun j => ?_) rfl rfl rfl rfl
  rw [getElem?_relink, getElem?_modify]
  by_cases hij : i = j
  · subst hij
    rw [if_pos rfl, Option.map_map]
    congr 1
    funext t
    rw [Function.comp_apply, Slot.linkedIn_of_mem hi, Slot.linkedIn_of_mem hi, Slot.detach]
  · rw [if_neg hij]

namespace Linked

/-! ## Putting a node in -/

/-- A node that is put between two parts of the list, and names its new neighbours already. -/
theorem splice?_eq (h : d.Linked (front ++ back)) (hi : i ∉ front ++ back)
    (hs : d.slot? i = some s) (f : Slot → Slot)
    (hf : f s = { s with prev := front.getLast?, next := back.head? }) :
    ((d.modify i f).splice? front [i] back).bind grow? =
      some (d.relink (front ++ i :: back)) := by
  have hlive : (f s).live = s.live := by rw [hf]
  obtain ⟨hif, hib⟩ : i ∉ front ∧ i ∉ back := by simpa using hi
  have h' : (d.modify i f).Linked (front ++ [] ++ back) := by simpa using h.modify_of_notMem hi f
  have hnode : ∀ j ∈ front ++ back, ∃ t, (d.modify i f).slot? j = some t := fun j hj => by
    obtain ⟨t, ht, -, -⟩ := h'.slot j (by simpa using hj)
    exact ⟨t, ht⟩
  have hn : (front ++ i :: back).Nodup := List.nodup_middle.mpr (List.nodup_cons.mpr ⟨hi, h.nodup⟩)
  have hroom : (front ++ back).length < d.slots.size := by
    have hall : ∀ j ∈ front ++ i :: back, ∃ t, d.slot? j = some t := fun j hj => by
      by_cases hij : j = i
      · exact ⟨s, hij ▸ hs⟩
      · obtain ⟨t, ht, -, -⟩ := h.slot j (by simpa [hij] using hj)
        exact ⟨t, ht⟩
    have hle := (linked_relink hn hall).length_le
    simp only [List.length_append, List.length_cons, size_slots_relink] at hle ⊢
    omega
  rw [splice?_eq_some [i] hnode, Option.bind_some, grow?, if_pos (by simpa [h.size] using hroom),
    Option.some.injEq]
  refine eq_relink (fun j => ?_) (by simp) ?_ ?_ (by simp [h.size]; omega)
  · by_cases hij : i = j
    · subst hij
      rw [getElem?_splice_of_notMem _ [i] hif hib, getElem?_modify, if_pos rfl,
        getElem?_of_slot? hs, Option.map_some, Option.map_some, Slot.linkedIn_of_mem (by simp), hf,
        before_middle hib, after_middle hif]
    · rw [h'.getElem?_splice [i] (by simp) (by simpa using Ne.symm hij), getElem?_modify,
        if_neg hij, List.append_assoc]
      rfl
  · simpa using h'.head_splice [i]
  · simpa using h'.tail_splice [i]

/-- A node can be put in after every node. -/
theorem linkAfter?_eq {a : Nat} (h : d.Linked (front ++ a :: back)) (hi : i ∉ front ++ a :: back)
    (hs : d.slot? i = some s) : d.linkAfter? a i = some (d.relink (front ++ a :: i :: back)) := by
  obtain ⟨t, ht, -, hnext⟩ := h.slot_middle
  have h' : d.Linked ((front ++ [a]) ++ back) := by simpa using h
  have hins := h'.splice?_eq (by simpa using hi) hs
    (fun s => { s with prev := some a, next := back.head? }) (by simp)
  rw [splice?, List.getLast?_concat, List.getLast?_concat, Option.bind_assoc,
    List.append_assoc] at hins
  refine Eq.trans ?_ hins
  unfold linkAfter?
  rw [ht, Option.bind_eq_bind, Option.bind_some, update?_eq_modify hs, Option.bind_eq_bind,
    Option.bind_some, hnext]
  cases back.head? <;> rfl

/-- A node without neighbours can be put in as the first. -/
theorem linkFront?_eq (h : d.Linked nodes) (hi : i ∉ nodes) (hs : d.slot? i = some s)
    (hprev : s.prev = none) : d.linkFront? i = some (d.relink (i :: nodes)) := by
  have h' : d.Linked ([] ++ nodes) := h
  have hins := h'.splice?_eq hi hs (fun s => { s with next := nodes.head? }) (by simp [← hprev])
  rw [splice?, Option.bind_assoc] at hins
  refine Eq.trans ?_ hins
  unfold linkFront?
  dsimp only
  rw [update?_eq_modify hs, Option.bind_eq_bind, Option.bind_some, h.head]
  cases hhead : nodes.head? with
  | none => rfl
  | some x =>
      obtain ⟨t, ht, -, -⟩ := h.slot x (List.mem_of_head? hhead)
      let e := d.modify i fun s => { s with next := some x }
      obtain ⟨u, hu⟩ : ∃ u, e.slot? x = some u := slot?_modify (by intro; rfl) i ⟨t, ht⟩
      have hu' : slot? { e with head := some i } x = some u := hu
      -- The head is set after the old first node here, and before it in a splice.
      show (e.update? x fun s => { s with prev := some i }).bind
          (fun e => grow? { e with head := some i }) =
        (update? { e with head := some i } x fun s => { s with prev := some i }).bind grow?
      rw [update?_eq_modify hu, update?_eq_modify hu']
      rfl

/-- A node without neighbours can be put in as the last. -/
theorem linkBack?_eq (h : d.Linked nodes) (hi : i ∉ nodes) (hs : d.slot? i = some s)
    (hprev : s.prev = none) : d.linkBack? i = some (d.relink (nodes ++ [i])) := by
  unfold linkBack?
  rw [h.tail]
  rcases List.eq_nil_or_concat' nodes with rfl | ⟨front, a, rfl⟩
  · exact h.linkFront?_eq hi hs hprev
  · rw [List.getLast?_concat, List.append_assoc]
    exact h.linkAfter?_eq hi hs

/-! ## Moving a node -/

/-- A node moves behind another one. -/
theorem linkAfter?_relink_detach {front' back' : List Nat} {a : Nat}
    (h : d.Linked (front ++ i :: back)) (hsplit : front ++ back = front' ++ a :: back') :
    ((d.modify i Slot.detach).relink (front ++ back)).linkAfter? a i =
      some (d.relink (front' ++ a :: i :: back')) := by
  obtain ⟨s, hs, -, -⟩ := h.slot_middle
  have hi : i ∉ front ++ back := (List.nodup_cons.mp (List.nodup_middle.mp h.nodup)).1
  have hrest := h.relink_detach
  rw [hsplit] at hi hrest ⊢
  rw [hrest.linkAfter?_eq hi (slot?_relink_detach hs hi), relink_relink_detach (by simp)]
  intro j hj
  simp only [List.mem_append, List.mem_cons] at hj ⊢
  tauto

/-- A node moves to the front. -/
theorem linkFront?_relink_detach (h : d.Linked (front ++ i :: back)) :
    ((d.modify i Slot.detach).relink (front ++ back)).linkFront? i =
      some (d.relink (i :: (front ++ back))) := by
  obtain ⟨s, hs, -, -⟩ := h.slot_middle
  have hi : i ∉ front ++ back := (List.nodup_cons.mp (List.nodup_middle.mp h.nodup)).1
  rw [h.relink_detach.linkFront?_eq hi (slot?_relink_detach hs hi) rfl,
    relink_relink_detach List.mem_cons_self fun j hj => List.mem_cons_of_mem i hj]

end Linked

end DequeMachine.Deque
