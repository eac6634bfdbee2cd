import DequeMachine.Proofs.Deque.Layout.Operation

/-!
# DequeMachine.Proofs.Deque.Laws

Series of operations that come to the same, on every deque that operations can make of the empty
one.  To be the same is to have the same slots, links and all, the same free slots in the same order
and the same ends.

* `combineFront_eq_pushFront`: to combine is to remove two values and to insert one.
* `rotations_cancel`: rotations and exchanges undo each other, and a value may as well be inserted
  at the other end and moved.

Both are equations between layouts.
-/

namespace DequeMachine.Deque

variable {m : Type → Type} [Monad m] {d : Deque}

/-! ## Combining with effects -/

/-- `combineFront?` with a function that may do more than answer, such as count its calls. -/
def combineFrontM? (f : Value → Value → m Value) (d : Deque) : m (Option (Bool × Deque)) :=
  match d.frontPair? with
  | none => pure none
  | some none => pure (some (false, d))
  | some (some (i, j)) =>
    match d.slot? i, d.slot? j with
    | some first, some second => do
      let v ← f second.value first.value
      return do
        let d ← d.unlink? i
        let d ← d.release? i
        let d ← d.update? j fun s => { s with value := v }
        return (true, d)
    | _, _ => pure none

/-- A function without effects. -/
theorem combineFrontM?_pure (f : Value → Value → Value) (d : Deque) :
    Id.run (d.combineFrontM? fun second first => pure (f second first)) = d.combineFront? f := by
  unfold combineFrontM? combineFront?
  cases d.frontPair? with
  | none => rfl
  | some pair? =>
      cases pair? with
      | none => rfl
      | some pair => cases hi : d.slot? pair.1 <;> cases hj : d.slot? pair.2 <;> simp [hi, hj]

namespace Layout

variable {l : Layout} {i j : Nat} {nodes : List Nat}

theorem combineFrontM?_of_short (h : l.nodes.length < 2) (f : Value → Value → m Value) :
    l.deque.combineFrontM? f = pure (some (false, l.deque)) := by
  rw [combineFrontM?, l.deque_holds.frontPair?_short (by simpa using h)]

/-- The function is called once, and its answer is what is stored. -/
theorem combineFrontM?_of_two (h : l.nodes = i :: j :: nodes) (f : Value → Value → m Value) :
    l.deque.combineFrontM? f = do
      let v ← f (l.value j) (l.value i)
      return some (true, (l.popFront.overwrite j v).deque) := by
  have hwell : l.deque.WellFormed (i :: j :: nodes) := h ▸ l.deque_wellFormed
  have hpair : l.deque.frontPair? = some (some (i, j)) := hwell.linked.frontPair?_eq
  obtain ⟨first, hi, -, -⟩ := hwell.linked.slot i (by simp)
  obtain ⟨second, hj, -, -⟩ := hwell.linked.slot j (by simp)
  -- What is left to do once the value is known has no effects.
  have hrest (v : Value) := combineFrontM?_pure (fun _ _ => v) l.deque
  simp only [combineFrontM?, hpair, hi, hj, combineFront?_deque, combineFront_of_two h] at hrest ⊢
  rw [← valueAt_of_slot? hi, ← valueAt_of_slot? hj, valueAt_deque, valueAt_deque]
  refine congrArg (f (l.value j) (l.value i) >>= ·) (funext fun v => congrArg pure ?_)
  simpa [h] using hrest v

/-! ## Removing and inserting -/

/-- The slot that was freed last is the one that the next node takes. -/
theorem pushFront_popFront (h : l.nodes = i :: nodes) (v : Value) :
    l.popFront.pushFront v = l.overwrite i v := by
  obtain ⟨_, free, values, perm⟩ := l
  obtain rfl := h
  rfl

theorem hasRoom_popFront (h : l.nodes = i :: nodes) (limit : Nat) :
    l.popFront.hasRoom limit = true := by
  simp [hasRoom, free_popFront h]

/-! ## Moving nodes -/

theorem swapFront_swapFront (l : Layout) : l.swapFront.swapFront = l :=
  Layout.ext (BoundedList.swapFront_swapFront l.nodes) rfl rfl

theorem rotateRight_rotateLeft : Function.LeftInverse rotateRight rotateLeft := fun l =>
  Layout.ext (BoundedList.rotateRight_rotateLeft l.nodes) rfl rfl

theorem rotateLeft_rotateRight : Function.LeftInverse rotateLeft rotateRight := fun l =>
  Layout.ext (BoundedList.rotateLeft_rotateRight l.nodes) rfl rfl

/-- A new last node is a new first node that moved. -/
theorem rotateLeft_pushFront (l : Layout) (v : Value) :
    (l.pushFront v).rotateLeft = l.pushBack v := by
  refine Layout.ext ?_ rfl rfl
  change BoundedList.rotateLeft (l.pushFront v).nodes = l.nodes ++ [l.vacancy]
  rw [nodes_pushFront, BoundedList.rotateLeft]

theorem iterate_rotateLeft (k : Nat) (l : Layout) :
    rotateLeft^[k] l = l.reorder (l.nodes.rotate k) (List.rotate_perm l.nodes k) := by
  induction k with
  | zero => exact Layout.ext (List.rotate_zero l.nodes).symm rfl rfl
  | succ k ih =>
      rw [Function.iterate_succ_apply', ih]
      refine Layout.ext ?_ rfl rfl
      change BoundedList.rotateLeft (l.nodes.rotate k) = l.nodes.rotate (k + 1)
      rw [BoundedList.rotateLeft_eq_rotate, List.rotate_rotate]

theorem iterate_rotateLeft_length (l : Layout) : rotateLeft^[l.nodes.length] l = l := by
  rw [iterate_rotateLeft]
  exact Layout.ext (List.rotate_length l.nodes) rfl rfl

theorem iterate_rotateRight_length (l : Layout) : rotateRight^[l.nodes.length] l = l := by
  have h := rotateRight_rotateLeft.iterate l.nodes.length l
  rwa [iterate_rotateLeft_length] at h

theorem values?_deque (l : Layout) : l.deque.values? = some (l.nodes.map l.value) := by
  rw [l.deque_wellFormed.linked.values?_eq]
  exact congrArg some (List.map_congr_left fun i _ => l.valueAt_deque i)

theorem iterate_rotateLeft_deque (k : Nat) (l : Layout) :
    Deque.rotateLeft^[k] l.deque = (rotateLeft^[k] l).deque :=
  (Function.Semiconj.iterate_right (fun l => (rotateLeft_deque l).symm) k l).symm

theorem iterate_rotateRight_deque (k : Nat) (l : Layout) :
    Deque.rotateRight^[k] l.deque = (rotateRight^[k] l).deque :=
  (Function.Semiconj.iterate_right (fun l => (rotateRight_deque l).symm) k l).symm

end Layout

/-! ## Every deque that operations make -/

/-- On two values or more, to combine is to remove the first two and to insert what the function
makes of them, which always finds room; the function is called once.  On fewer, nothing changes and
the function is not called. -/
theorem combineFront_eq_pushFront (limit limit' : Nat) (ops : List Op) :
    let d := applyAll limit ∅ ops
    (2 ≤ d.size → ∃ first second d₁ d₂,
      d.popFront = (some first, d₁) ∧ d₁.popFront = (some second, d₂) ∧
        (∀ v, (d₂.pushFront limit' v).1 = true) ∧
        (∀ f : Value → Value → Value, d.combineFront f = d₂.pushFront limit' (f second first)) ∧
        ∀ {m : Type → Type} [Monad m] (f : Value → Value → m Value),
          d.combineFrontM? f = do return some (d₂.pushFront limit' (← f second first))) ∧
    (d.size < 2 →
      (∀ f : Value → Value → Value, d.combineFront f = (false, d)) ∧
        ∀ {m : Type → Type} [Monad m] (f : Value → Value → m Value),
          d.combineFrontM? f = pure (some (false, d))) := by
  intro d
  obtain ⟨l, hl⟩ := exists_applyAll_eq_deque limit ops
  have hd : d = l.deque := hl
  have hsize : d.size = l.nodes.length := by rw [hd]; rfl
  rw [hsize, hd]
  refine ⟨fun htwo => ?_, fun hshort => ⟨fun f => ?_, fun f => l.combineFrontM?_of_short hshort f⟩⟩
  · obtain ⟨i, j, nodes, h⟩ := Layout.exists_two htwo
    have hrest : l.popFront.nodes = j :: nodes := by rw [l.nodes_popFront, h, List.tail_cons]
    have hpush (v : Value) : l.popFront.popFront.deque.pushFront limit' v =
        (true, (l.popFront.overwrite j v).deque) := by
      rw [Layout.pushFront_deque, if_pos (Layout.hasRoom_popFront hrest limit'),
        Layout.pushFront_popFront hrest]
    refine ⟨l.value i, l.value j, l.popFront.deque, l.popFront.popFront.deque, ?_, ?_,
      fun v => by rw [hpush], fun f => ?_, fun f => ?_⟩
    · rw [l.popFront_deque, h]
      rfl
    · rw [l.popFront.popFront_deque, hrest, ← l.value_popFront j]
      rfl
    · rw [l.combineFront_deque, Layout.combineFront_of_two h, decide_eq_true htwo, hpush]
    · simp only [hpush, Layout.combineFrontM?_of_two h]
  · rw [l.combineFront_deque, Layout.combineFront_of_short hshort,
      decide_eq_false (Nat.not_le_of_lt hshort)]

/-- Two values are combined, and one value is left alone. -/
theorem combineFront_eq_pushFront_two :
    (2 ≤ (applyAll 2 ∅ [.pushFront 1, .pushBack 2]).size ∧ ∃ first second d₁ d₂,
      (applyAll 2 ∅ [.pushFront 1, .pushBack 2]).popFront = (some first, d₁) ∧
        d₁.popFront = (some second, d₂) ∧
        (applyAll 2 ∅ [.pushFront 1, .pushBack 2]).combineFront (· - ·) =
          d₂.pushFront 0 (second - first)) ∧
    (applyAll 2 ∅ [.pushFront 1]).size < 2 ∧
      (applyAll 2 ∅ [.pushFront 1]).combineFront (· - ·) =
        (false, applyAll 2 ∅ [.pushFront 1]) := by
  have htwo : 2 ≤ (applyAll 2 ∅ [.pushFront 1, .pushBack 2]).size := by decide
  have hshort : (applyAll 2 ∅ [.pushFront 1]).size < 2 := by decide
  obtain ⟨first, second, d₁, d₂, hfirst, hsecond, -, hcombine, -⟩ :=
    (combineFront_eq_pushFront 2 0 [.pushFront 1, .pushBack 2]).1 htwo
  exact ⟨⟨htwo, first, second, d₁, d₂, hfirst, hsecond, hcombine (· - ·)⟩, hshort,
    ((combineFront_eq_pushFront 2 0 [.pushFront 1]).2 hshort).1 (· - ·)⟩

/-- Rotations undo each other, and so do two exchanges, and as many rotations in one direction as
there are nodes.  Any number of rotations shifts the values in a circle.  Where there is room, a
value may as well be inserted at the other end and moved. -/
theorem rotations_cancel (limit limit' : Nat) (ops : List Op) :
    let d := applyAll limit ∅ ops
    d.rotateLeft.rotateRight = d ∧ d.rotateRight.rotateLeft = d ∧ d.swapFront.2.swapFront.2 = d ∧
      rotateLeft^[d.size] d = d ∧ rotateRight^[d.size] d = d ∧
      (∃ vs, d.values? = some vs ∧ ∀ k, (rotateLeft^[k] d).values? =
        some (vs.drop (k % d.size) ++ vs.take (k % d.size))) ∧
      ∀ v, (d.pushFront limit' v).1 = (d.pushBack limit' v).1 ∧
        ((d.pushFront limit' v).1 = true →
          (d.pushBack limit' v).2 = (d.pushFront limit' v).2.rotateLeft ∧
            (d.pushFront limit' v).2 = (d.pushBack limit' v).2.rotateRight) := by
  intro d
  obtain ⟨l, hl⟩ := exists_applyAll_eq_deque limit ops
  have hd : d = l.deque := hl
  have hsize : d.size = l.nodes.length := by rw [hd]; rfl
  rw [hsize, hd]
  refine ⟨?_, ?_, ?_, ?_, ?_, ⟨_, l.values?_deque, fun k => ?_⟩, fun v => ?_⟩
  · rw [l.rotateLeft_deque, Layout.rotateRight_deque, Layout.rotateRight_rotateLeft]
  · rw [l.rotateRight_deque, Layout.rotateLeft_deque, Layout.rotateLeft_rotateRight]
  · rw [l.swapFront_deque, Layout.swapFront_deque, l.swapFront_swapFront]
  · rw [Layout.iterate_rotateLeft_deque, l.iterate_rotateLeft_length]
  · rw [Layout.iterate_rotateRight_deque, l.iterate_rotateRight_length]
  · have hvalues : (l.nodes.rotate k).map l.value =
        (l.nodes.map l.value).drop (k % l.nodes.length) ++
          (l.nodes.map l.value).take (k % l.nodes.length) := by
      rw [List.map_rotate, List.rotate_eq_drop_append_take_mod, List.length_map]
    rw [Layout.iterate_rotateLeft_deque, Layout.values?_deque, Layout.iterate_rotateLeft]
    exact congrArg some hvalues
  · rw [l.pushFront_deque, l.pushBack_deque]
    by_cases hroom : l.hasRoom limit' = true
    · rw [if_pos hroom, if_pos hroom]
      refine ⟨rfl, fun _ => ⟨?_, ?_⟩⟩
      · rw [Layout.rotateLeft_deque, l.rotateLeft_pushFront]
      · rw [Layout.rotateRight_deque, ← l.rotateLeft_pushFront, Layout.rotateRight_rotateLeft]
    · rw [if_neg hroom, if_neg hroom]
      exact ⟨rfl, fun h => absurd h Bool.false_ne_true⟩

/-- Into a deque of one node that has room for another. -/
theorem rotations_cancel_push :
    ((applyAll 2 ∅ [.pushFront 1]).pushFront 2 5).1 = true ∧
      ((applyAll 2 ∅ [.pushFront 1]).pushBack 2 5).2 =
        ((applyAll 2 ∅ [.pushFront 1]).pushFront 2 5).2.rotateLeft ∧
      ((applyAll 2 ∅ [.pushFront 1]).pushFront 2 5).2 =
        ((applyAll 2 ∅ [.pushFront 1]).pushBack 2 5).2.rotateRight := by
  have hpush : ((applyAll 2 ∅ [.pushFront 1]).pushFront 2 5).1 = true := by decide
  obtain ⟨-, -, -, -, -, -, hall⟩ := rotations_cancel 2 2 [.pushFront 1]
  exact ⟨hpush, (hall 5).2 hpush⟩

end DequeMachine.Deque
