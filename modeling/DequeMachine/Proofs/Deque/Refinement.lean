import DequeMachine.Proofs.Deque.Operation
import DequeMachine.Proofs.Deque.View

/-!
# DequeMachine.Proofs.Deque.Refinement

A deque is, from outside, a plain list of values with a capacity.

* `Holds limit d vs` relates a deque of at most `limit` slots to the list of its values.
* Each operation preserves it: the checked form succeeds, answers what the list answers, and leaves
  a deque that holds the new list.
* `Holds.attempt?` puts the operations together, and `Holds.applyAll`, `Holds.attemptAll?` and
  `Holds.replies` follow a series of them.
-/

namespace DequeMachine.Deque

variable {d e : Deque} {nodes : List Nat} {vs : List Value} {limit : Nat}

/-- A well-formed deque of at most `limit` slots, whose nodes have the values `vs` from head to
tail. -/
def Holds (limit : Nat) (d : Deque) (vs : List Value) : Prop :=
  ∃ nodes, d.WellFormed nodes ∧ d.slots.size ≤ limit ∧ nodes.map d.valueAt = vs

/-- Every view of a deque is that of the list `vs`. -/
structure Shows (d : Deque) (vs : List Value) : Prop where
  values? : d.values? = some vs
  size : d.size = vs.length
  isEmpty : d.isEmpty = vs.isEmpty
  front? : d.front? = vs.head?
  second? : d.second? = vs[1]?
  back? : d.back? = vs.getLast?

namespace Holds

theorem empty (limit : Nat) : (∅ : Deque).Holds limit [] :=
  ⟨[], .empty, Nat.zero_le limit, rfl⟩

theorem shows (h : d.Holds limit vs) : d.Shows vs := by
  obtain ⟨nodes, hd, -, rfl⟩ := h
  exact {
    values? := hd.linked.values?_eq
    size := by rw [hd.linked.size, List.length_map]
    isEmpty := by rw [hd.linked.isEmpty_eq, List.isEmpty_map]
    front? := hd.linked.front?_eq
    second? := hd.linked.second?_eq
    back? := hd.linked.back?_eq }

/-! ## Inserting -/

theorem vacancy?_eq_none_iff (h : d.Holds limit vs) :
    d.vacancy? limit = none ↔ vs.length = limit := by
  obtain ⟨nodes, hd, hl, rfl⟩ := h
  rw [hd.vacancy?_eq_none_iff hl, List.length_map]

theorem pushFront?_full (h : d.Holds limit vs) (hfull : vs.length = limit) (v : Value) :
    d.pushFront? limit v = some (false, d) := by
  rw [pushFront?, h.vacancy?_eq_none_iff.mpr hfull]

theorem pushBack?_full (h : d.Holds limit vs) (hfull : vs.length = limit) (v : Value) :
    d.pushBack? limit v = some (false, d) := by
  rw [pushBack?, h.vacancy?_eq_none_iff.mpr hfull]

/-- The next vacancy becomes a node, anywhere among the nodes. -/
theorem occupy {i : Nat} {nodes' : List Nat} (hd : d.WellFormed nodes) (hl : d.slots.size ≤ limit)
    (hv : d.vacancy? limit = some i) (v : Value) (hn : nodes'.Nodup)
    (hm : ∀ j, j ∈ nodes' ↔ j ∈ i :: nodes) :
    ((d.occupy v).relink nodes').Holds limit (nodes'.map (d.occupy v).valueAt) := by
  refine ⟨nodes', (hd.partitioned.occupy hv v).relink hn hm, ?_, by simp⟩
  rw [size_slots_relink]
  exact hd.partitioned.size_slots_occupy_le hl hv v

theorem pushFront? (h : d.Holds limit vs) (hroom : vs.length ≠ limit) (v : Value) :
    ∃ e, d.pushFront? limit v = some (true, e) ∧ e.Holds limit (v :: vs) := by
  obtain ⟨i, hv⟩ := Option.ne_none_iff_exists'.mp (mt h.vacancy?_eq_none_iff.mp hroom)
  obtain ⟨nodes, hd, hl, rfl⟩ := h
  have hn : (i :: nodes).Nodup :=
    List.nodup_cons.mpr ⟨(hd.partitioned.vacancy? hv).1, hd.linked.nodup⟩
  have hvs := hd.partitioned.map_valueAt_occupy hv v
  have he := occupy hd hl hv v hn fun _ => Iff.rfl
  rw [List.map_cons, hvs, hd.partitioned.valueAt_occupy hv, if_pos rfl] at he
  exact ⟨_, hd.pushFront?_eq hv v, he⟩

theorem pushBack? (h : d.Holds limit vs) (hroom : vs.length ≠ limit) (v : Value) :
    ∃ e, d.pushBack? limit v = some (true, e) ∧ e.Holds limit (vs ++ [v]) := by
  obtain ⟨i, hv⟩ := Option.ne_none_iff_exists'.mp (mt h.vacancy?_eq_none_iff.mp hroom)
  obtain ⟨nodes, hd, hl, rfl⟩ := h
  have hn : (nodes ++ [i]).Nodup :=
    List.nodup_middle.mpr (List.nodup_cons.mpr
      ⟨by simpa using (hd.partitioned.vacancy? hv).1, by simpa using hd.linked.nodup⟩)
  have hvs := hd.partitioned.map_valueAt_occupy hv v
  have he := occupy hd hl hv v hn fun j => by simp [or_comm]
  rw [List.map_append, List.map_singleton, hvs, hd.partitioned.valueAt_occupy hv, if_pos rfl] at he
  exact ⟨_, hd.pushBack?_eq hv v, he⟩

/-! ## Removing and combining -/

theorem popFront?_nil (h : d.Holds limit []) : d.popFront? = some (none, d) := by
  obtain ⟨nodes, hd, -, hvs⟩ := h
  obtain rfl := List.map_eq_nil_iff.mp hvs
  rw [Deque.popFront?, hd.linked.head]
  rfl

theorem popFront?_cons {v : Value} (h : d.Holds limit (v :: vs)) :
    ∃ e, d.popFront? = some (some v, e) ∧ e.Holds limit vs := by
  obtain ⟨nodes, hd, hl, hvs⟩ := h
  obtain ⟨i, rest, rfl, rfl, rfl⟩ := List.map_eq_cons_iff.mp hvs
  have hi : i ∉ rest := (List.nodup_cons.mp hd.linked.nodup).1
  refine ⟨_, hd.linked.popFront?_eq, rest, ?_, ?_, ?_⟩
  · exact (hd.partitioned.vacate hi).relink (List.nodup_cons.mp hd.linked.nodup).2 fun _ => Iff.rfl
  · simpa [vacate] using hl
  · simp [valueAt_vacate]

theorem frontPair?_short (h : d.Holds limit vs) (hshort : vs.length < 2) :
    d.frontPair? = some none := by
  obtain ⟨nodes, hd, -, rfl⟩ := h
  rw [hd.linked.frontPair?_eq]
  match nodes, hshort with
  | [], _ => rfl
  | [_], _ => rfl

theorem combineFront?_short (h : d.Holds limit vs) (hshort : vs.length < 2)
    (f : Value → Value → Value) : d.combineFront? f = some (false, d) := by
  rw [Deque.combineFront?, h.frontPair?_short hshort]
  rfl

theorem combineFront? {first second : Value} (h : d.Holds limit (first :: second :: vs))
    (f : Value → Value → Value) :
    ∃ e, d.combineFront? f = some (true, e) ∧ e.Holds limit (f second first :: vs) := by
  obtain ⟨nodes, hd, hl, hvs⟩ := h
  obtain ⟨i, tail, rfl, rfl, htail⟩ := List.map_eq_cons_iff.mp hvs
  obtain ⟨j, rest, rfl, rfl, rfl⟩ := List.map_eq_cons_iff.mp htail
  obtain ⟨hi, hn⟩ := List.nodup_cons.mp hd.linked.nodup
  have hvac := (hd.partitioned.vacate hi).relink hn fun _ => Iff.rfl
  obtain ⟨s, hs, -, -⟩ := hvac.linked.slot j List.mem_cons_self
  refine ⟨_, hd.linked.combineFront?_eq f, j :: rest, hvac.setValue List.mem_cons_self _, ?_, ?_⟩
  · simpa [setValue, vacate] using hl
  · rw [List.map_cons, valueAt_setValue hs, if_pos rfl]
    congr 1
    refine List.map_congr_left fun k hk => ?_
    have hjk : j ≠ k := fun hjk => (List.nodup_cons.mp hn).1 (hjk ▸ hk)
    rw [valueAt_setValue hs, if_neg hjk, valueAt_relink, valueAt_vacate]

/-! ## Moving nodes -/

/-- Linking the nodes in another order orders the values likewise. -/
theorem relink {nodes' : List Nat} (hd : d.WellFormed nodes) (hl : d.slots.size ≤ limit)
    (hperm : nodes'.Perm nodes) : (d.relink nodes').Holds limit (nodes'.map d.valueAt) := by
  have hn : nodes'.Nodup := hperm.nodup_iff.mpr hd.linked.nodup
  exact ⟨nodes', hd.partitioned.relink hn fun _ => hperm.mem_iff, by rwa [size_slots_relink],
    by simp⟩

theorem swapFront?_short (h : d.Holds limit vs) (hshort : vs.length < 2) :
    d.swapFront? = some (false, d) := by
  rw [Deque.swapFront?, h.frontPair?_short hshort]
  rfl

theorem swapFront? {first second : Value} (h : d.Holds limit (first :: second :: vs)) :
    ∃ e, d.swapFront? = some (true, e) ∧ e.Holds limit (second :: first :: vs) := by
  obtain ⟨nodes, hd, hl, hvs⟩ := h
  obtain ⟨i, tail, rfl, rfl, htail⟩ := List.map_eq_cons_iff.mp hvs
  obtain ⟨j, rest, rfl, rfl, rfl⟩ := List.map_eq_cons_iff.mp htail
  exact ⟨_, hd.linked.swapFront?_eq, relink hd hl (.swap i j rest)⟩

theorem rotateLeft? (h : d.Holds limit vs) :
    ∃ e, d.rotateLeft? = some e ∧ e.Holds limit (BoundedList.rotateLeft vs) := by
  obtain ⟨nodes, hd, hl, rfl⟩ := h
  rw [BoundedList.rotateLeft_map]
  exact ⟨_, hd.linked.rotateLeft?_eq, relink hd hl (BoundedList.rotateLeft_perm nodes)⟩

theorem rotateRight? (h : d.Holds limit vs) :
    ∃ e, d.rotateRight? = some e ∧ e.Holds limit (BoundedList.rotateRight vs) := by
  obtain ⟨nodes, hd, hl, rfl⟩ := h
  rw [BoundedList.rotateRight_map]
  exact ⟨_, hd.linked.rotateRight?_eq, relink hd hl (BoundedList.rotateRight_perm nodes)⟩

end Holds

/-! ## Operations as data -/

namespace Op

/-- The checked form of an operation. -/
def attempt? (limit : Nat) (d : Deque) : Op → Option (Reply × Deque)
  | pushFront v => (d.pushFront? limit v).map fun (done, d) => (.stored done, d)
  | pushBack v => (d.pushBack? limit v).map fun (done, d) => (.stored done, d)
  | popFront => d.popFront?.map fun (v?, d) => (.removed v?, d)
  | combineFront f => (d.combineFront? f).map fun (done, d) => (.changed done, d)
  | swapFront => d.swapFront?.map fun (done, d) => (.changed done, d)
  | rotateLeft => d.rotateLeft?.map fun d => (.moved, d)
  | rotateRight => d.rotateRight?.map fun d => (.moved, d)
  | clear => let (count, d) := d.clear; some (.cleared count, d)

theorem apply_eq_of_attempt? {op : Op} {result : Reply × Deque}
    (h : op.attempt? limit d = some result) : op.apply limit d = result := by
  cases op with
  | clear => exact Option.some.inj h
  | pushFront v | pushBack v | popFront | combineFront f | swapFront | rotateLeft | rotateRight =>
      obtain ⟨_, hd, rfl⟩ := Option.map_eq_some_iff.mp h
      simp [Op.apply, Deque.pushFront, Deque.pushBack, Deque.popFront, Deque.combineFront,
        Deque.swapFront, Deque.rotateLeft, Deque.rotateRight, hd]

end Op

/-- The checked form of a series of operations. -/
def attemptAll? (limit : Nat) (d : Deque) : List Op → Option Deque
  | [] => some d
  | op :: ops => (op.attempt? limit d).bind fun (_, d) => attemptAll? limit d ops

/-- The answers of a series of operations. -/
def replies (limit : Nat) (d : Deque) : List Op → List Reply
  | [] => []
  | op :: ops => (op.apply limit d).1 :: replies limit (op.apply limit d).2 ops

namespace Holds

/-- No check fails in an operation.  It answers what the list answers, and leaves what the list
leaves. -/
theorem attempt? (h : d.Holds limit vs) (op : Op) :
    ∃ e, op.attempt? limit d = some ((BoundedList.apply limit vs op).1, e) ∧
      e.Holds limit (BoundedList.apply limit vs op).2 := by
  cases op with
  | pushFront v =>
      by_cases hfull : vs.length = limit
      · simp [Op.attempt?, BoundedList.apply, h.pushFront?_full hfull v, hfull, h]
      · obtain ⟨e, he, hvs⟩ := h.pushFront? hfull v
        simp [Op.attempt?, BoundedList.apply, he, hfull, hvs]
  | pushBack v =>
      by_cases hfull : vs.length = limit
      · simp [Op.attempt?, BoundedList.apply, h.pushBack?_full hfull v, hfull, h]
      · obtain ⟨e, he, hvs⟩ := h.pushBack? hfull v
        simp [Op.attempt?, BoundedList.apply, he, hfull, hvs]
  | popFront =>
      cases vs with
      | nil => simp [Op.attempt?, BoundedList.apply, h.popFront?_nil, h]
      | cons v vs =>
          obtain ⟨e, he, hvs⟩ := h.popFront?_cons
          simp [Op.attempt?, BoundedList.apply, he, hvs]
  | combineFront f =>
      cases vs with
      | nil => simp [Op.attempt?, BoundedList.apply, h.combineFront?_short, h]
      | cons first vs =>
          cases vs with
          | nil => simp [Op.attempt?, BoundedList.apply, h.combineFront?_short, h]
          | cons second vs =>
              obtain ⟨e, he, hvs⟩ := h.combineFront? f
              simp [Op.attempt?, BoundedList.apply, he, hvs]
  | swapFront =>
      cases vs with
      | nil => simp [Op.attempt?, BoundedList.apply, h.swapFront?_short, h]
      | cons first vs =>
          cases vs with
          | nil => simp [Op.attempt?, BoundedList.apply, h.swapFront?_short, h]
          | cons second vs =>
              obtain ⟨e, he, hvs⟩ := h.swapFront?
              simp [Op.attempt?, BoundedList.apply, he, hvs]
  | rotateLeft =>
      obtain ⟨e, he, hvs⟩ := h.rotateLeft?
      simp [Op.attempt?, BoundedList.apply, he, hvs]
  | rotateRight =>
      obtain ⟨e, he, hvs⟩ := h.rotateRight?
      simp [Op.attempt?, BoundedList.apply, he, hvs]
  | clear =>
      have hsize := h.shows.size
      exact ⟨∅, by simp [Op.attempt?, BoundedList.apply, clear, hsize]; rfl, empty limit⟩

theorem apply (h : d.Holds limit vs) (op : Op) :
    (op.apply limit d).1 = (BoundedList.apply limit vs op).1 ∧
      (op.apply limit d).2.Holds limit (BoundedList.apply limit vs op).2 := by
  obtain ⟨e, he, hvs⟩ := h.attempt? op
  rw [Op.apply_eq_of_attempt? he]
  exact ⟨rfl, hvs⟩

theorem applyAll (h : d.Holds limit vs) (ops : List Op) :
    (Deque.applyAll limit d ops).Holds limit (BoundedList.applyAll limit vs ops) := by
  induction ops generalizing d vs with
  | nil => exact h
  | cons op ops ih => exact ih (h.apply op).2

/-- No check fails in a series of operations. -/
theorem attemptAll? (h : d.Holds limit vs) (ops : List Op) :
    Deque.attemptAll? limit d ops = some (Deque.applyAll limit d ops) := by
  induction ops generalizing d vs with
  | nil => rfl
  | cons op ops ih =>
      obtain ⟨e, he, hvs⟩ := h.attempt? op
      rw [Deque.attemptAll?, he, Deque.applyAll, List.foldl_cons, Op.apply_eq_of_attempt? he]
      exact ih hvs

theorem replies (h : d.Holds limit vs) (ops : List Op) :
    d.replies limit ops = BoundedList.replies limit vs ops := by
  induction ops generalizing d vs with
  | nil => rfl
  | cons op ops ih =>
      obtain ⟨hreply, hvs⟩ := h.apply op
      rw [Deque.replies, BoundedList.replies, hreply, ih hvs]

/-- A push that answers that there is no room changes nothing. -/
theorem apply_eq_self (h : d.Holds limit vs) {op : Op}
    (hop : (op.apply limit d).1 = .stored false) : (op.apply limit d).2 = d := by
  cases op with
  | pushFront v =>
      by_cases hfull : vs.length = limit
      · simp [Op.apply, Deque.pushFront, h.pushFront?_full hfull v]
      · obtain ⟨e, he, -⟩ := h.pushFront? hfull v
        simp [Op.apply, Deque.pushFront, he] at hop
  | pushBack v =>
      by_cases hfull : vs.length = limit
      · simp [Op.apply, Deque.pushBack, h.pushBack?_full hfull v]
      · obtain ⟨e, he, -⟩ := h.pushBack? hfull v
        simp [Op.apply, Deque.pushBack, he] at hop
  | popFront | combineFront _ | swapFront | rotateLeft | rotateRight | clear =>
      simp [Op.apply] at hop

end Holds

end DequeMachine.Deque
