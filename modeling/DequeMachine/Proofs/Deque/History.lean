import DequeMachine.Proofs.Deque.Refinement

/-!
# DequeMachine.Proofs.Deque.History

What holds of a deque after every series of operations on the empty one.

* `applyAll_wellFormed`: its nodes are linked in both directions and its other slots are free.
* `applyAll_shows`: from outside it is a plain list of at most `limit` values.
-/

namespace DequeMachine.Deque

/-- No check fails on the way, the nodes and the free slots make up all slots, of which there are at
most `limit`, and the links are consistent. -/
theorem applyAll_wellFormed (limit : Nat) (ops : List Op) :
    attemptAll? limit ∅ ops = some (applyAll limit ∅ ops) ∧
      ∃ nodes, (applyAll limit ∅ ops).WellFormed nodes ∧
        (applyAll limit ∅ ops).slots.size = nodes.length + (applyAll limit ∅ ops).free.length ∧
        (applyAll limit ∅ ops).slots.size ≤ limit ∧
        (applyAll limit ∅ ops).isConsistent = true := by
  have hempty := Holds.empty limit
  obtain ⟨nodes, hd, hl, -⟩ := hempty.applyAll ops
  exact ⟨hempty.attemptAll? ops, nodes, hd, hd.size_slots, hl, hd.linked.isConsistent_eq_true⟩

/-- The answers and the views are those of a plain list.  A push without room changes nothing, and
after a `clear` there is room for `limit` values. -/
theorem applyAll_shows (limit : Nat) (ops : List Op) :
    replies limit ∅ ops = BoundedList.replies limit [] ops ∧
      (applyAll limit ∅ ops).Shows (BoundedList.applyAll limit [] ops) ∧
      (∀ op : Op, (op.apply limit (applyAll limit ∅ ops)).1 = .stored false →
        (op.apply limit (applyAll limit ∅ ops)).2 = applyAll limit ∅ ops) ∧
      ∀ pushes : List Op, (∀ op ∈ pushes, op.isPush = true) → pushes.length ≤ limit →
        replies limit (Op.clear.apply limit (applyAll limit ∅ ops)).2 pushes =
          List.replicate pushes.length (.stored true) := by
  have hempty := Holds.empty limit
  have hd := hempty.applyAll ops
  refine ⟨hempty.replies ops, hd.shows, fun op => hd.apply_eq_self, fun pushes hpush hroom => ?_⟩
  rw [(hd.apply .clear).2.replies pushes]
  exact BoundedList.replies_pushes hpush (by simpa [BoundedList.apply] using hroom)

/-- A deque of two slots after three pushes, the last of which fails; then a rotation. -/
theorem applyAll_shows_two :
    (replies 2 ∅ [.pushFront 1, .pushBack 2, .pushBack 3, .rotateLeft] =
        [.stored true, .stored true, .stored false, .moved] ∧
      (applyAll 2 ∅ [.pushFront 1, .pushBack 2]).values? = some [1, 2]) ∧
      (Op.pushBack 3).apply 2 (applyAll 2 ∅ [.pushFront 1, .pushBack 2]) =
        (.stored false, applyAll 2 ∅ [.pushFront 1, .pushBack 2]) ∧
      replies 2 (Op.clear.apply 2 (applyAll 2 ∅ [.pushFront 1, .pushBack 2])).2
        [.pushBack 3, .pushFront 4] = [.stored true, .stored true] := by
  have hall := applyAll_shows 2 [.pushFront 1, .pushBack 2]
  have hreplies := (applyAll_shows 2 [.pushFront 1, .pushBack 2, .pushBack 3, .rotateLeft]).1
  have hreply : ((Op.pushBack 3).apply 2 (applyAll 2 ∅ [.pushFront 1, .pushBack 2])).1 =
      .stored false := by
    decide
  exact ⟨⟨hreplies.trans (by decide), hall.2.1.values?.trans (by decide)⟩,
    Prod.ext hreply (hall.2.2.1 (.pushBack 3) hreply),
    hall.2.2.2 [.pushBack 3, .pushFront 4] (by simp [Op.isPush]) (by decide)⟩

end DequeMachine.Deque
