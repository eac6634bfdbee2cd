import DequeMachine.Deque.Operation
import DequeMachine.Proofs.Deque.Surgery

/-!
# DequeMachine.Proofs.Deque.Detached

Nodes on their way out of the list and back into it, at any place.

* `Detached d i`: the slot `i` is a node without neighbours.
* `Relinks nodes d e`: only the links of the slots `nodes` differ, and the ends of the list.
* `Linked.unlink?`: a node is taken out, and put back where it was.
* `Linked.linkAfter?` and `Linked.linkFront?`: a node is put in, and taken out again.
* `unlink?_linkAfter?_linkFront?` says all this of every linked deque, whatever its other slots are.
-/

namespace DequeMachine

/-- The neighbours of a slot do not matter once it has none. -/
theorem Slot.detach_linkedIn (nodes : List Nat) (i : Nat) (s : Slot) :
    (s.linkedIn nodes i).detach = s.detach := by
  simp [detach]

namespace Deque

variable {d e : Deque} {nodes nodes' front back : List Nat} {i a : Nat}

/-- The slot `i` is a node without neighbours. -/
def Detached (d : Deque) (i : Nat) : Prop :=
  ∃ s, d.slot? i = some s ∧ s.prev = none ∧ s.next = none

/-- Two deques differ in nothing but the links of the slots `nodes`, the ends of the list and the
number of nodes. -/
structure Relinks (nodes : List Nat) (d e : Deque) : Prop where
  free : e.free = d.free
  /-- Each slot has the value that it had, and is a node if it was one. -/
  slots : e.slots.map Slot.detach = d.slots.map Slot.detach
  /-- A slot that is none of `nodes` has the links that it had. -/
  others : ∀ j ∉ nodes, e.slots[j]? = d.slots[j]?

/-! ## What a change of links keeps -/

theorem relinks_relink (d : Deque) (nodes : List Nat) : Relinks nodes d (d.relink nodes) where
  free := rfl
  slots := by
    refine Array.ext_getElem? fun j => ?_
    simp [getElem?_relink, Function.comp_def, Slot.detach_linkedIn]
  others j hj := by
    rw [getElem?_relink]
    cases d.slots[j]? with
    | none => rfl
    | some s => rw [Option.map_some, Slot.linkedIn_of_notMem hj]

theorem relinks_detach (d : Deque) (i : Nat) : Relinks [i] d (d.modify i Slot.detach) where
  free := rfl
  slots := by
    refine Array.ext_getElem? fun j => ?_
    rw [Array.getElem?_map, getElem?_modify, Array.getElem?_map]
    split
    · exact Option.map_map Slot.detach Slot.detach d.slots[j]?
    · rfl
  others j hj := by
    rw [getElem?_modify, if_neg fun hij => hj (List.mem_singleton.mpr hij.symm)]

theorem Relinks.trans {c : Deque} {all : List Nat} (h : Relinks nodes c d)
    (h' : Relinks nodes' d e) (hn : ∀ j ∈ nodes, j ∈ all) (hn' : ∀ j ∈ nodes', j ∈ all) :
    Relinks all c e where
  free := h'.free.trans h.free
  slots := h'.slots.trans h.slots
  others j hj := (h'.others j (mt (hn' j) hj)).trans (h.others j (mt (hn j) hj))

/-- The links are as they were before a node without neighbours came in. -/
theorem Linked.relink_detach_relink (h : d.Linked nodes) (hd : d.Detached i)
    (hm : ∀ j, j ∈ nodes' ↔ j = i ∨ j ∈ nodes) :
    ((d.relink nodes').modify i Slot.detach).relink nodes = d := by
  obtain ⟨s, hs, hprev, hnext⟩ := hd
  have hsame : ((d.relink nodes').modify i Slot.detach).relink nodes = d.relink nodes := by
    refine eq_relink (fun j => ?_) rfl rfl rfl rfl
    rw [getElem?_relink, getElem?_modify, getElem?_relink]
    by_cases hij : i = j
    · subst hij
      have hdetach : (s.linkedIn nodes' i).detach = s := by
        rw [Slot.detach_linkedIn]
        cases s
        obtain rfl := hprev
        obtain rfl := hnext
        rfl
      rw [if_pos rfl, getElem?_of_slot? hs]
      simp [hdetach]
    · rw [if_neg hij, Option.map_map]
      congr 1
      funext t
      by_cases hj : j ∈ nodes
      · have hj' : j ∈ nodes' := (hm j).mpr (.inr hj)
        simp [Slot.linkedIn, hj, hj']
      · have hj' : j ∉ nodes' := fun hj' => ((hm j).mp hj').elim (hij ·.symm) hj
        simp [Slot.linkedIn, hj, hj']
  exact hsame.trans h.relink_eq

namespace Linked

/-! ## Out and in again -/

/-- A node leaves the list at any place.  Put after the node that was before it, or in front if
there was none, it is back where it was. -/
theorem unlink? (h : d.Linked (front ++ i :: back)) :
    ∃ e, d.unlink? i = some e ∧ e.Linked (front ++ back) ∧ e.Detached i ∧
      Relinks (front ++ i :: back) d e ∧
      (match front.getLast? with
        | some p => e.linkAfter? p i
        | none => e.linkFront? i) = some d := by
  obtain ⟨s, hs, -, -⟩ := h.slot_middle
  have hi : i ∉ front ++ back := (List.nodup_cons.mp (List.nodup_middle.mp h.nodup)).1
  refine ⟨_, h.unlink?_eq, h.relink_detach, ⟨_, slot?_relink_detach hs hi, rfl, rfl⟩, ?_, ?_⟩
  · refine (relinks_detach d i).trans (relinks_relink _ _) (by simp) fun j hj => ?_
    simp only [List.mem_append, List.mem_cons] at hj ⊢
    tauto
  · rcases List.eq_nil_or_concat' front with rfl | ⟨init, p, rfl⟩
    · exact h.linkFront?_relink_detach.trans (congrArg some h.relink_eq)
    · have h' : d.Linked (init ++ p :: i :: back) := by simpa using h
      have hsplit : init ++ [p] ++ back = init ++ p :: back := (List.append_cons init p back).symm
      rw [List.getLast?_concat]
      exact (h.linkAfter?_relink_detach hsplit).trans (congrArg some h'.relink_eq)

/-! ## In and out again -/

/-- The order with a node more: it is linked, and without the node it is what it was. -/
theorem relink_middle (h : d.Linked (front ++ back)) (hd : d.Detached i) (hi : i ∉ front ++ back) :
    (d.relink (front ++ i :: back)).Linked (front ++ i :: back) ∧
      Relinks (front ++ i :: back) d (d.relink (front ++ i :: back)) ∧
      (d.relink (front ++ i :: back)).unlink? i = some d := by
  have hm : ∀ j, j ∈ front ++ i :: back ↔ j = i ∨ j ∈ front ++ back := fun j => by
    simp only [List.mem_append, List.mem_cons]
    tauto
  have hn : (front ++ i :: back).Nodup := List.nodup_middle.mpr (List.nodup_cons.mpr ⟨hi, h.nodup⟩)
  have hnode : ∀ j ∈ front ++ i :: back, ∃ s, d.slot? j = some s := fun j hj => by
    rcases (hm j).mp hj with rfl | hj
    · obtain ⟨s, hs, -, -⟩ := hd
      exact ⟨s, hs⟩
    · obtain ⟨s, hs, -, -⟩ := h.slot j hj
      exact ⟨s, hs⟩
  have hlinked := linked_relink hn hnode
  refine ⟨hlinked, relinks_relink d _, ?_⟩
  rw [hlinked.unlink?_eq, h.relink_detach_relink hd hm]

/-- A node without neighbours comes in after any node. -/
theorem linkAfter? (h : d.Linked (front ++ a :: back)) (hd : d.Detached i)
    (hi : i ∉ front ++ a :: back) :
    ∃ e, d.linkAfter? a i = some e ∧ e.Linked (front ++ a :: i :: back) ∧
      Relinks (front ++ a :: i :: back) d e ∧ e.unlink? i = some d := by
  have ⟨s, hs, _, _⟩ := hd
  have hlink := h.linkAfter?_eq hi hs
  rw [List.append_cons] at h hi hlink ⊢
  exact ⟨_, hlink, h.relink_middle hd hi⟩

/-- A node without neighbours comes in before all nodes. -/
theorem linkFront? (h : d.Linked nodes) (hd : d.Detached i) (hi : i ∉ nodes) :
    ∃ e, d.linkFront? i = some e ∧ e.Linked (i :: nodes) ∧ Relinks (i :: nodes) d e ∧
      e.unlink? i = some d := by
  have ⟨s, hs, hprev, _⟩ := hd
  have h' : d.Linked ([] ++ nodes) := h
  exact ⟨_, h.linkFront?_eq hi hs hprev, h'.relink_middle hd hi⟩

end Linked

/-! ## Every linked deque -/

/-- At every place of the list a node can be taken out, which leaves it without neighbours, and a
node without neighbours can be put in, after another one or in front of all.  No check fails, the
list has a node less or more and is linked, and nothing else changes.  To put a node back where it
was, and to take out one that was put in, restores the deque. -/
theorem unlink?_linkAfter?_linkFront? (d : Deque) (i : Nat) :
    (∀ front back, d.Linked (front ++ i :: back) →
      ∃ e, d.unlink? i = some e ∧ e.Linked (front ++ back) ∧ e.Detached i ∧
        Relinks (front ++ i :: back) d e ∧
        (match front.getLast? with
          | some p => e.linkAfter? p i
          | none => e.linkFront? i) = some d) ∧
    (d.Detached i →
      (∀ front a back, i ∉ front ++ a :: back → d.Linked (front ++ a :: back) →
        ∃ e, d.linkAfter? a i = some e ∧ e.Linked (front ++ a :: i :: back) ∧
          Relinks (front ++ a :: i :: back) d e ∧ e.unlink? i = some d) ∧
      ∀ nodes, i ∉ nodes → d.Linked nodes →
        ∃ e, d.linkFront? i = some e ∧ e.Linked (i :: nodes) ∧ Relinks (i :: nodes) d e ∧
          e.unlink? i = some d) :=
  ⟨fun _ _ h => h.unlink?, fun hd =>
    ⟨fun _ _ _ hi h => h.linkAfter? hd hi, fun _ hi h => h.linkFront? hd hi⟩⟩

/-- The middle one of three nodes, in a deque with a fourth slot that is free. -/
theorem unlink?_linkAfter?_linkFront?_three :
    let d := applyAll 4 ∅ [.pushBack 5, .pushBack 6, .pushBack 7, .pushFront 8, .popFront]
    ∃ e, d.Linked [0, 1, 2] ∧ d.unlink? 1 = some e ∧ e.Linked [0, 2] ∧ e.Detached 1 ∧
      e.linkAfter? 0 1 = some d ∧
      (∃ last, e.linkAfter? 2 1 = some last ∧ last.Linked [0, 2, 1] ∧ last.unlink? 1 = some e) ∧
      ∃ first, e.linkFront? 1 = some first ∧ first.Linked [1, 0, 2] ∧ first.free = d.free := by
  intro d
  have hd : d.Linked ([0] ++ 1 :: [2]) := by
    refine ⟨by decide, rfl, rfl, rfl, fun i hi => ?_⟩
    simp only [List.mem_append, List.mem_cons, List.not_mem_nil, or_false] at hi
    rcases hi with rfl | rfl | rfl
    iterate 3 exact ⟨_, rfl, rfl, rfl⟩
  obtain ⟨e, hout, he, hdetached, hkeeps, hback⟩ := (unlink?_linkAfter?_linkFront? d 1).1 [0] [2] hd
  obtain ⟨hafter, hfront⟩ := (unlink?_linkAfter?_linkFront? e 1).2 hdetached
  obtain ⟨last, hlast, hlinked, -, hundo⟩ := hafter [0] 2 [] (by decide) he
  obtain ⟨first, hfirst, hlinked', hkeeps', -⟩ := hfront [0, 2] (by decide) he
  exact ⟨e, hd, hout, he, hdetached, hback, ⟨last, hlast, hlinked, hundo⟩,
    first, hfirst, hlinked', hkeeps'.free.trans hkeeps.free⟩

end Deque

end DequeMachine
