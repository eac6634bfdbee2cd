import DequeMachine.Proofs.Deque.Layout.Operation
import Mathlib.Order.Bounds.Basic

/-!
# DequeMachine.Proofs.Deque.Peak

How many slots a deque has: as many as it ever had nodes at once since it was last cleared.

* `Layout.length_values_apply` is the step: an operation adds a slot only if the nodes fill all.
* `size_slots_isGreatest` is the run, by induction on the series of operations from its end.
-/

namespace DequeMachine.Deque

variable {limit : Nat} {ops : List Op} {op : Op}

/-- The numbers of nodes that a deque has had since it was last cleared, or else since it was made,
up to the end of a series of operations. -/
def sizesSinceClear (limit : Nat) (ops : List Op) : Set Nat :=
  {n | ∃ past rest, past ++ rest = ops ∧ Op.clear ∉ rest ∧ (applyAll limit ∅ past).size = n}

/-! ## One operation -/

namespace Layout

theorem length_values_pushFront (l : Layout) (v : Value) :
    (l.pushFront v).values.length = max (l.pushFront v).nodes.length l.values.length := by
  have hafter := (l.pushFront v).length_eq
  have hbefore := l.length_eq
  rw [nodes_pushFront, free_pushFront, List.length_cons, List.length_tail] at hafter
  rw [nodes_pushFront, List.length_cons]
  omega

theorem length_values_combineFront (l : Layout) (f : Value → Value → Value) :
    (l.combineFront f).values.length = l.values.length := by
  unfold combineFront
  split
  · rw [overwrite, List.length_set, values_popFront]
  · rfl

/-- An operation that does not clear keeps all slots, and adds one only for the nodes. -/
theorem length_values_apply (limit : Nat) (l : Layout) (h : op ≠ .clear) :
    (l.apply limit op).2.values.length =
      max (l.apply limit op).2.nodes.length l.values.length := by
  have hkeep (e : Layout) (he : e.values.length = l.values.length) :
      e.values.length = max e.nodes.length l.values.length := by
    have hlength := e.length_eq
    omega
  cases op with
  | pushFront v =>
      rw [apply]
      split
      · exact l.length_values_pushFront v
      · exact hkeep l rfl
  | pushBack v =>
      rw [apply]
      split
      · have hnodes : (l.pushBack v).nodes.length = (l.pushFront v).nodes.length :=
          (l.perm_pushFront v).length_eq
        rw [hnodes]
        exact l.length_values_pushFront v
      · exact hkeep l rfl
  | popFront => exact hkeep _ (by rw [apply, values_popFront])
  | combineFront f => exact hkeep _ (l.length_values_combineFront f)
  | swapFront => exact hkeep _ rfl
  | rotateLeft => exact hkeep _ rfl
  | rotateRight => exact hkeep _ rfl
  | clear => exact absurd rfl h

end Layout

theorem applyAll_concat (limit : Nat) (d : Deque) (ops : List Op) (op : Op) :
    applyAll limit d (ops ++ [op]) = (op.apply limit (applyAll limit d ops)).2 := by
  rw [applyAll, List.foldl_append]
  rfl

theorem size_slots_concat (h : op ≠ .clear) :
    (applyAll limit ∅ (ops ++ [op])).slots.size =
      max (applyAll limit ∅ (ops ++ [op])).size (applyAll limit ∅ ops).slots.size := by
  obtain ⟨l, hl⟩ := exists_applyAll_eq_deque limit ops
  rw [applyAll_concat, hl, l.apply_deque, Layout.size_slots_deque, Layout.size_slots_deque]
  exact l.length_values_apply limit h

/-! ## A series of operations -/

theorem sizesSinceClear_nil (limit : Nat) : sizesSinceClear limit [] = {0} := by
  ext n
  constructor
  · rintro ⟨past, rest, hops, -, rfl⟩
    obtain ⟨rfl, -⟩ := List.append_eq_nil_iff.mp hops
    rfl
  · rintro rfl
    exact ⟨[], [], rfl, List.not_mem_nil, rfl⟩

/-- The last operation makes one size more, and if it clears the earlier ones are forgotten. -/
theorem mem_sizesSinceClear_concat {n : Nat} :
    n ∈ sizesSinceClear limit (ops ++ [op]) ↔
      n = (applyAll limit ∅ (ops ++ [op])).size ∨ op ≠ .clear ∧ n ∈ sizesSinceClear limit ops := by
  constructor
  · rintro ⟨past, rest, hops, hrest, rfl⟩
    rcases List.eq_nil_or_concat' rest with rfl | ⟨init, last, rfl⟩
    · rw [List.append_nil] at hops
      exact .inl (by rw [hops])
    · rw [← List.append_assoc] at hops
      obtain ⟨hinit, rfl⟩ := List.append_singleton_inj.mp hops
      simp only [List.mem_append, List.mem_singleton, not_or] at hrest
      exact .inr ⟨Ne.symm hrest.2, past, init, hinit, hrest.1, rfl⟩
  · rintro (rfl | ⟨hop, past, rest, rfl, hrest, rfl⟩)
    · exact ⟨ops ++ [op], [], List.append_nil _, List.not_mem_nil, rfl⟩
    · refine ⟨past, rest ++ [op], (List.append_assoc _ _ _).symm, ?_, rfl⟩
      simp [hrest, Ne.symm hop]

/-- The number of slots is the largest number of nodes since the deque was last cleared, or else
since it was made. -/
theorem size_slots_isGreatest (limit : Nat) (ops : List Op) :
    IsGreatest (sizesSinceClear limit ops) (applyAll limit ∅ ops).slots.size := by
  induction ops using List.reverseRecOn with
  | nil =>
      rw [sizesSinceClear_nil]
      exact isGreatest_singleton
  | append_singleton ops op ih =>
      by_cases hop : op = .clear
      · have hsizes : sizesSinceClear limit (ops ++ [op]) = {0} := by
          ext n
          rw [mem_sizesSinceClear_concat, hop, applyAll_concat]
          simp [Op.apply, clear, empty]
        rw [hsizes, hop, applyAll_concat]
        exact isGreatest_singleton
      · have hsizes : sizesSinceClear limit (ops ++ [op]) =
            insert (applyAll limit ∅ (ops ++ [op])).size (sizesSinceClear limit ops) := by
          ext n
          rw [mem_sizesSinceClear_concat, and_iff_right hop, Set.mem_insert_iff]
        rw [hsizes, size_slots_concat hop]
        exact ih.insert _

end DequeMachine.Deque
