import DequeMachine.Deque.Consistency
import DequeMachine.Deque.View
import DequeMachine.Proofs.Deque.Surgery

/-!
# DequeMachine.Proofs.Deque.View

What a linked deque shows: its values are those of its nodes, in their order, and its links are
consistent.
-/

namespace DequeMachine.Deque

variable {d : Deque} {nodes front back : List Nat}

namespace Linked

/- Both walks along the links are followed by induction on the nodes `back` that are still ahead.
The nodes `front` that lie behind name the node that each of them has to name as the one before. -/

theorem valuesFrom?_eq (h : d.Linked (front ++ back)) (seen : List Value) {fuel : Nat}
    (hfuel : back.length ≤ fuel) :
    d.valuesFrom? fuel back.head? seen = some (seen.reverse ++ back.map d.valueAt) := by
  induction back generalizing front seen fuel with
  | nil => cases fuel <;> simp [valuesFrom?]
  | cons i rest ih =>
      obtain ⟨s, hs, -, hnext⟩ := h.slot_middle
      have h' : d.Linked ((front ++ [i]) ++ rest) := by simpa using h
      cases fuel with
      | zero => simp at hfuel
      | succ fuel =>
          rw [List.head?_cons, valuesFrom?, hs]
          simp only [hnext]
          rw [ih h' _ (by simpa using hfuel), ← valueAt_of_slot? hs]
          simp

theorem linkedFrom_eq_true (h : d.Linked (front ++ back)) :
    d.linkedFrom back.length front.getLast? back.head? = true := by
  induction back generalizing front with
  | nil => simp [linkedFrom, h.tail]
  | cons i rest ih =>
      obtain ⟨s, hs, hprev, hnext⟩ := h.slot_middle
      have h' : d.Linked ((front ++ [i]) ++ rest) := by simpa using h
      have hrest := ih h'
      rw [List.getLast?_concat] at hrest
      simp [linkedFrom, hs, hprev, hnext, hrest]

/-- The walk from the head passes the nodes in their order and ends. -/
theorem values?_eq (h : d.Linked nodes) : d.values? = some (nodes.map d.valueAt) := by
  have h' : d.Linked ([] ++ nodes) := h
  rw [values?, h.head, h'.valuesFrom?_eq [] h.length_le]
  rfl

theorem isConsistent_eq_true (h : d.Linked nodes) : d.isConsistent = true := by
  have h' : d.Linked ([] ++ nodes) := h
  rw [isConsistent, h.head, h.size]
  exact h'.linkedFrom_eq_true

theorem isEmpty_eq (h : d.Linked nodes) : d.isEmpty = nodes.isEmpty := by
  rw [isEmpty, h.head]
  cases nodes <;> rfl

theorem front?_eq (h : d.Linked nodes) : d.front? = (nodes.map d.valueAt).head? := by
  unfold front?
  rw [h.head]
  cases nodes with
  | nil => rfl
  | cons i rest =>
      obtain ⟨s, hs, -, -⟩ := h.slot i List.mem_cons_self
      simp [hs, valueAt_of_slot? hs]

theorem second?_eq (h : d.Linked nodes) : d.second? = (nodes.map d.valueAt)[1]? := by
  unfold second?
  rw [h.head]
  match nodes, h with
  | [], _ => rfl
  | [i], h =>
      obtain ⟨s, hs, -, hnext⟩ := (show d.Linked ([] ++ i :: []) from h).slot_middle
      simp [hs, hnext]
  | i :: j :: rest, h =>
      obtain ⟨s, hs, -, hnext⟩ := (show d.Linked ([] ++ i :: j :: rest) from h).slot_middle
      obtain ⟨t, ht, -, -⟩ := h.slot j (by simp)
      simp [hs, hnext, ht, valueAt_of_slot? ht]

theorem back?_eq (h : d.Linked nodes) : d.back? = (nodes.map d.valueAt).getLast? := by
  unfold back?
  rw [h.tail, List.getLast?_map]
  cases hlast : nodes.getLast? with
  | none => rfl
  | some t =>
      obtain ⟨s, hs, -, -⟩ := h.slot t (List.mem_of_getLast? hlast)
      simp [hs, valueAt_of_slot? hs]

end Linked

end DequeMachine.Deque
