import DequeMachine.Proofs.Deque.View

/-!
# DequeMachine.Proofs.Deque.Consistency

The check of the links, on every deque, also on one that no operations make: links may run in
circles, cross each other or lead nowhere.

* `Walk` is the check as a loop that nothing bounds but its own tests.  `exists_walk` and
  `Walk.unique` say that it always ends, after at most as many slots as the deque counts nodes, and
  with the verdict of `isConsistent`.
* `LinkedUpTo` says that the nodes passed so far are linked and distinct.  The walk does not keep
  the nodes it has passed.  That it cannot come back to one of them follows from the names of the
  nodes before: `LinkedUpTo.notMem`.
* `isConsistent_eq_true_iff` puts both together.
-/

namespace DequeMachine.Deque

open Neighbours

variable {d : Deque} {nodes front : List Nat} {before current : Option Nat} {i : Nat} {s : Slot}

/-! ## The walk -/

/-- The check after it has passed `count` nodes, the last of which is `before`, where the links lead
to `current`: it looks at the slots `visited` and ends with a verdict. -/
inductive Walk (d : Deque) :
    (count : Nat) → (before current : Option Nat) → (visited : List Nat) → (verdict : Bool) → Prop
  /-- The links have come to an end. -/
  | ended {count : Nat} {before : Option Nat} :
      Walk d count before none [] (count == d.size && before == d.tail)
  /-- There are more nodes than the deque counts. -/
  | tooLong {count i : Nat} {before : Option Nat} :
      d.size ≤ count → Walk d count before (some i) [] false
  /-- A link leads to a slot that is no node. -/
  | astray {count i : Nat} {before : Option Nat} :
      count < d.size → d.slot? i = none → Walk d count before (some i) [i] false
  /-- A node names another one before it. -/
  | crossed {count i : Nat} {before : Option Nat} {s : Slot} :
      count < d.size → d.slot? i = some s → s.prev ≠ before → Walk d count before (some i) [i] false
  /-- A node names the one before it, and the walk goes on. -/
  | passed {count i : Nat} {before : Option Nat} {s : Slot} {visited : List Nat} {verdict : Bool} :
      count < d.size → d.slot? i = some s → s.prev = before →
        Walk d (count + 1) (some i) s.next visited verdict →
        Walk d count before (some i) (i :: visited) verdict

/-- The walk ends, and looks at no more slots than there can be nodes ahead. -/
theorem exists_walk {remaining count : Nat} (h : count + remaining = d.size)
    (before current : Option Nat) :
    ∃ visited, visited.length ≤ remaining ∧
      d.Walk count before current visited (d.linkedFrom remaining before current) := by
  induction remaining generalizing count before current with
  | zero =>
      refine ⟨[], Nat.le_refl 0, ?_⟩
      cases current with
      | none =>
          have hend : (0 == 0 && before == d.tail) = (count == d.size && before == d.tail) := by
            simp [← h]
          rw [linkedFrom, hend]
          exact .ended
      | some i => exact .tooLong (Nat.le_of_eq h.symm)
  | succ remaining ih =>
      have hcount : count < d.size := by omega
      cases current with
      | none =>
          have hend : (remaining + 1 == 0 && before == d.tail) =
              (count == d.size && before == d.tail) := by
            simp [Nat.ne_of_lt hcount]
          refine ⟨[], Nat.zero_le _, ?_⟩
          rw [linkedFrom, hend]
          exact .ended
      | some i =>
          rw [linkedFrom]
          cases hs : d.slot? i with
          | none => exact ⟨[i], by simp, .astray hcount hs⟩
          | some s =>
              by_cases hprev : s.prev = before
              · have hrest : count + 1 + remaining = d.size := by omega
                obtain ⟨visited, hlength, hwalk⟩ := ih hrest (some i) s.next
                refine ⟨i :: visited, by simpa using hlength, ?_⟩
                simpa [hprev] using Walk.passed hcount hs hprev hwalk
              · have hcheck : (s.prev == before) = false := by simpa using hprev
                refine ⟨[i], by simp, ?_⟩
                simpa [hcheck] using Walk.crossed hcount hs hprev

/-- The walk has no choice. -/
theorem Walk.unique {count : Nat} {visited visited' : List Nat} {verdict verdict' : Bool}
    (h : d.Walk count before current visited verdict)
    (h' : d.Walk count before current visited' verdict') :
    visited' = visited ∧ verdict' = verdict := by
  induction h generalizing visited' with
  | ended =>
      cases h'
      exact ⟨rfl, rfl⟩
  | tooLong hcount =>
      cases h' with
      | tooLong => exact ⟨rfl, rfl⟩
      | astray hlt | crossed hlt | passed hlt => exact absurd hlt (Nat.not_lt.mpr hcount)
  | astray hlt hs =>
      cases h' with
      | tooLong hcount => exact absurd hlt (Nat.not_lt.mpr hcount)
      | astray => exact ⟨rfl, rfl⟩
      | crossed _ hs' | passed _ hs' => simp [hs] at hs'
  | crossed hlt hs hprev =>
      cases h' with
      | tooLong hcount => exact absurd hlt (Nat.not_lt.mpr hcount)
      | astray _ hs' => simp [hs] at hs'
      | crossed => exact ⟨rfl, rfl⟩
      | passed _ hs' hprev' =>
          obtain rfl := Option.some.inj (hs.symm.trans hs')
          exact absurd hprev' hprev
  | passed hlt hs hprev _ ih =>
      cases h' with
      | tooLong hcount => exact absurd hlt (Nat.not_lt.mpr hcount)
      | astray _ hs' => simp [hs] at hs'
      | crossed _ hs' hprev' =>
          obtain rfl := Option.some.inj (hs.symm.trans hs')
          exact absurd hprev hprev'
      | passed _ hs' _ hwalk =>
          obtain rfl := Option.some.inj (hs.symm.trans hs')
          obtain ⟨rfl, rfl⟩ := ih hwalk
          exact ⟨rfl, rfl⟩

/-! ## The nodes passed so far -/

/-- The slots `front` are linked to each other from the head on, and the last of them to
`current`. -/
structure LinkedUpTo (d : Deque) (front : List Nat) (current : Option Nat) : Prop where
  nodup : front.Nodup
  head : d.head = (front ++ current.toList).head?
  slot : ∀ i ∈ front, ∃ s, d.slot? i = some s ∧ s.prev = Neighbours.before i front ∧
    s.next = after i (front ++ current.toList)

namespace LinkedUpTo

theorem start (d : Deque) : d.LinkedUpTo [] d.head where
  nodup := List.nodup_nil
  head := by cases d.head <;> rfl
  slot i hi := absurd hi List.not_mem_nil

/-- A slot that names the last node before it has not been passed: it would be the first node, which
names none, or follow another node than the last. -/
theorem notMem (h : d.LinkedUpTo front current) (hs : d.slot? i = some s)
    (hprev : s.prev = front.getLast?) : i ∉ front := by
  intro hi
  obtain ⟨t, ht, hbefore, -⟩ := h.slot i hi
  obtain rfl := Option.some.inj (hs.symm.trans ht)
  exact before_ne_getLast? h.nodup hi (hbefore.symm.trans hprev)

/-- The walk passes one node more. -/
theorem pass (h : d.LinkedUpTo front (some i)) (hs : d.slot? i = some s)
    (hprev : s.prev = front.getLast?) : d.LinkedUpTo (front ++ [i]) s.next := by
  have hi := h.notMem hs hprev
  refine ⟨List.nodup_middle.mpr ?_, ?_, fun j hj => ?_⟩
  · simpa using ⟨hi, h.nodup⟩
  · rw [h.head]
    cases front <;> rfl
  · by_cases hij : j = i
    · subst hij
      refine ⟨s, hs, ?_, ?_⟩
      · rw [before_concat_self, hprev]
      · rw [List.append_assoc, List.singleton_append, after_middle hi]
        cases s.next <;> rfl
    · have hj' : j ∈ front := by simpa [hij] using hj
      obtain ⟨t, ht, hbefore, hafter⟩ := h.slot j hj'
      refine ⟨t, ht, ?_, ?_⟩
      · rw [hbefore, before_append_left (by simpa using hij)]
      · rw [hafter, List.append_assoc, after_append_left h.nodup hj', after_append_left h.nodup hj']
        rfl

/-- Once the links have come to an end, all nodes are linked. -/
theorem linked (h : d.LinkedUpTo nodes none) (hsize : d.size = nodes.length)
    (htail : d.tail = nodes.getLast?) : d.Linked nodes where
  nodup := h.nodup
  head := by simpa using h.head
  tail := htail
  size := hsize
  slot := by simpa using h.slot

/-- A walk that ends well has passed linked nodes. -/
theorem exists_linked {remaining : Nat} (h : d.LinkedUpTo front current)
    (hsize : d.size = front.length + remaining)
    (hcheck : d.linkedFrom remaining front.getLast? current = true) : ∃ nodes, d.Linked nodes := by
  induction remaining generalizing front current with
  | zero =>
      cases current with
      | none =>
          have htail : front.getLast? = d.tail := by simpa [linkedFrom] using hcheck
          exact ⟨front, h.linked hsize htail.symm⟩
      | some i => simp [linkedFrom] at hcheck
  | succ remaining ih =>
      cases current with
      | none => simp [linkedFrom] at hcheck
      | some i =>
          rw [linkedFrom] at hcheck
          cases hs : d.slot? i with
          | none => simp [hs] at hcheck
          | some s =>
              obtain ⟨hprev, hrest⟩ : s.prev = front.getLast? ∧
                  d.linkedFrom remaining (some i) s.next = true := by simpa [hs] using hcheck
              refine ih (h.pass hs hprev) ?_ ?_
              · rw [hsize, List.length_append, List.length_singleton]
                omega
              · rwa [List.getLast?_concat]

end LinkedUpTo

/-- The check accepts exactly the deques whose nodes are linked, whatever the slots, the ends and the
number of nodes are.  As a loop, it always ends with the same verdict, after it has looked at no
more slots than the deque counts nodes. -/
theorem isConsistent_eq_true_iff (d : Deque) :
    (d.isConsistent = true ↔ ∃ nodes, d.Linked nodes) ∧
      ∃ visited, visited.length ≤ d.size ∧
        ∀ visited' verdict, d.Walk 0 none d.head visited' verdict ↔
          visited' = visited ∧ verdict = d.isConsistent := by
  obtain ⟨visited, hlength, hwalk⟩ := exists_walk (Nat.zero_add d.size) none d.head
  refine ⟨⟨fun hcheck => ?_, ?_⟩, visited, hlength, fun visited' verdict => ⟨hwalk.unique, ?_⟩⟩
  · exact (LinkedUpTo.start d).exists_linked (by simp) hcheck
  · rintro ⟨nodes, hnodes⟩
    exact hnodes.isConsistent_eq_true
  · rintro ⟨rfl, rfl⟩
    exact hwalk

/-- A node that comes after itself, and one that names itself as the one before. -/
example :
    isConsistent ⟨#[⟨7, none, some 0, true⟩], [], some 0, some 0, 1⟩ = false ∧
      isConsistent ⟨#[⟨7, some 0, none, true⟩], [], some 0, some 0, 1⟩ = false :=
  ⟨rfl, rfl⟩

end DequeMachine.Deque
