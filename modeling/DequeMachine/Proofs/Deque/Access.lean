import DequeMachine.Deque.Consistency
import DequeMachine.Deque.Operation
import DequeMachine.Deque.Printer
import DequeMachine.Proofs.Deque.Linked

/-!
# DequeMachine.Proofs.Deque.Access

Operations taken apart into single accesses to a deque, so that something can be said about the
deque between two of them, where the list may be cut in two.

* An `Access` reads or changes one thing, and answers what it reads.  `Access.Allowed` says on which
  deques it makes sense.
* A `Procedure` makes one access after the other, each chosen by the answers so far.  Its `trace`
  lists the accesses, each with the deque that it finds.
* `Procedure.allowed_of_run?`: a procedure that no check stops makes allowed accesses only, and
  counts at most as many nodes as there may be slots, all the way.
-/

namespace DequeMachine.Deque

/-! ## Accesses -/

/-- What can be read without a look at a slot. -/
structure Fields where
  head : Option Nat
  tail : Option Nat
  /-- The number of nodes. -/
  size : Nat
  /-- The number of slots. -/
  slots : Nat

/-- The fields of a deque. -/
def fields (d : Deque) : Fields := ⟨d.head, d.tail, d.size, d.slots.size⟩

/-- One access to a deque. -/
inductive Access where
  /-- Reads the fields. -/
  | fields
  /-- Looks at a node. -/
  | look (i : Nat)
  /-- Looks at a slot if there is one and it is a node. -/
  | probe (i : Nat)
  /-- Changes a node. -/
  | change (i : Nat) (f : Slot → Slot)
  /-- Makes the next vacancy a node, if there is a vacancy. -/
  | occupy (v : Value)
  /-- Frees the slot of a node. -/
  | release (i : Nat)
  /-- Names the first node. -/
  | setHead (i? : Option Nat)
  /-- Names the last node. -/
  | setTail (i? : Option Nat)
  /-- Counts one node more. -/
  | grow
  /-- Counts one node less. -/
  | shrink
  /-- Drops all slots. -/
  | clear
  /-- Goes on with a walk along the links that has passed as many nodes as there are slots. -/
  | overrun

namespace Access

/-- What an access answers. -/
def Answer : Access → Type
  | fields => Fields
  | look _ => Slot
  | probe _ => Option Slot
  | occupy _ => Option Nat
  | overrun => Empty
  | change _ _ | release _ | setHead _ | setTail _ | grow | shrink | clear => Unit

/-- The answer of an access and the deque after it, unless a check stops it. -/
def perform? (limit : Nat) (d : Deque) : (a : Access) → Option (a.Answer × Deque)
  | fields => some (d.fields, d)
  | look i => (d.slot? i).map (·, d)
  | probe i => some (d.slot? i, d)
  | change i f => (d.update? i f).map ((), ·)
  | occupy v =>
    match d.vacancy? limit with
    | none => some (none, d)
    | some i => (d.occupy? v).map (some i, ·)
  | release i => (d.release? i).map ((), ·)
  | setHead i? => some ((), { d with head := i? })
  | setTail i? => some ((), { d with tail := i? })
  | grow => d.grow?.map ((), ·)
  | shrink => d.shrink?.map ((), ·)
  | clear => some ((), d.clear.2)
  | overrun => none

/-- The access makes sense on a deque of at most `limit` slots.  A slot number that it is given
belongs to a node, a slot that it reuses exists, and the number of nodes stays within its bounds. -/
def Allowed (limit : Nat) (d : Deque) : Access → Prop
  | look i | change i _ | release i => ∃ s, d.slots[i]? = some s ∧ s.live = true
  | occupy _ => ∀ i ∈ d.free.head?, i < d.slots.size
  | grow => d.size < limit
  | shrink => 0 < d.size
  | overrun => False
  | fields | probe _ | setHead _ | setTail _ | clear => True

end Access

/-! ## What a check ensures -/

variable {d e : Deque} {limit i : Nat}

theorem update?_eq_some_iff {f : Slot → Slot} :
    d.update? i f = some e ↔ ∃ s, d.slot? i = some s ∧ e = d.modify i f := by
  constructor
  · intro h
    unfold update? at h
    split at h
    · next hi =>
        obtain ⟨hlive, -⟩ := Option.ite_none_right_eq_some.mp h
        have hs : d.slot? i = some d.slots[i] := slot?_of_getElem? (Array.getElem?_eq_getElem hi) hlive
        have heq := update?_eq_modify hs f
        rw [update?, dif_pos hi, h] at heq
        exact ⟨d.slots[i], hs, Option.some.inj heq⟩
    · simp at h
  · rintro ⟨s, hs, rfl⟩
    exact update?_eq_modify hs f

theorem release?_eq_some_iff :
    d.release? i = some e ↔ ∃ s, d.slot? i = some s ∧
      e = { d.modify i fun s => { s with live := false } with free := i :: d.free } := by
  simp only [release?, Option.bind_eq_bind, Option.pure_def, Option.bind_eq_some_iff,
    update?_eq_some_iff, Option.some.injEq]
  constructor
  · rintro ⟨_, ⟨s, hs, rfl⟩, rfl⟩
    exact ⟨s, hs, rfl⟩
  · rintro ⟨s, hs, rfl⟩
    exact ⟨_, ⟨s, hs, rfl⟩, rfl⟩

/-- There are at most as many nodes as slots, and at most `limit` slots. -/
structure Within (limit : Nat) (d : Deque) : Prop where
  size_le : d.size ≤ d.slots.size
  slots_le : d.slots.size ≤ limit

/-- Where there is a vacancy, the array has room for it. -/
theorem Within.occupy? {v : Value} (h : d.Within limit) (hv : d.vacancy? limit = some i)
    (he : d.occupy? v = some e) : e.Within limit := by
  have hsize := h.size_le
  have hslots := h.slots_le
  unfold vacancy? at hv
  unfold Deque.occupy? at he
  cases hfree : d.free with
  | cons k rest =>
      simp only [hfree] at he
      split at he
      · obtain rfl := Option.some.inj he
        exact ⟨by simpa using hsize, by simpa using hslots⟩
      · simp at he
  | nil =>
      have hlt : d.slots.size < limit := by
        simp only [hfree] at hv
        exact (Option.ite_none_right_eq_some.mp hv).1
      simp only [hfree, Option.some.injEq] at he
      subst he
      exact ⟨by simp; omega, by simp; omega⟩

namespace Access

variable {a : Access} {x : a.Answer}

/-- No access counts more nodes than there are slots, or makes more slots than there may be. -/
theorem within_of_perform? (h : d.Within limit) (ha : a.perform? limit d = some (x, e)) :
    e.Within limit := by
  have hsize := h.size_le
  have hslots := h.slots_le
  cases a with
  | fields | probe i =>
      obtain ⟨-, rfl⟩ := Prod.mk.inj (Option.some.inj ha)
      exact h
  | setHead i? | setTail i? =>
      obtain ⟨-, rfl⟩ := Prod.mk.inj (Option.some.inj ha)
      exact ⟨hsize, hslots⟩
  | clear =>
      obtain ⟨-, rfl⟩ := Prod.mk.inj (Option.some.inj ha)
      exact ⟨Nat.le_refl 0, Nat.zero_le limit⟩
  | look i =>
      obtain ⟨s, -, hs⟩ := Option.map_eq_some_iff.mp ha
      obtain ⟨-, rfl⟩ := Prod.mk.inj hs
      exact h
  | change i f =>
      obtain ⟨_, hf, heq⟩ := Option.map_eq_some_iff.mp ha
      obtain ⟨-, rfl⟩ := Prod.mk.inj heq
      obtain ⟨s, -, rfl⟩ := update?_eq_some_iff.mp hf
      exact ⟨by simpa using hsize, by simpa using hslots⟩
  | release i =>
      obtain ⟨_, hf, heq⟩ := Option.map_eq_some_iff.mp ha
      obtain ⟨-, rfl⟩ := Prod.mk.inj heq
      obtain ⟨s, -, rfl⟩ := release?_eq_some_iff.mp hf
      exact ⟨by simpa using hsize, by simpa using hslots⟩
  | occupy v =>
      rw [perform?] at ha
      split at ha
      · obtain ⟨-, rfl⟩ := Prod.mk.inj (Option.some.inj ha)
        exact h
      · next hv =>
          obtain ⟨_, hocc, heq⟩ := Option.map_eq_some_iff.mp ha
          obtain ⟨-, rfl⟩ := Prod.mk.inj heq
          exact h.occupy? hv hocc
  | grow =>
      obtain ⟨_, hg, heq⟩ := Option.map_eq_some_iff.mp ha
      obtain ⟨-, rfl⟩ := Prod.mk.inj heq
      obtain ⟨hlt, hg⟩ := Option.ite_none_right_eq_some.mp hg
      obtain rfl := Option.some.inj hg
      exact ⟨hlt, hslots⟩
  | shrink =>
      obtain ⟨_, hg, heq⟩ := Option.map_eq_some_iff.mp ha
      obtain ⟨-, rfl⟩ := Prod.mk.inj heq
      obtain ⟨-, hg⟩ := Option.ite_none_right_eq_some.mp hg
      obtain rfl := Option.some.inj hg
      exact ⟨Nat.le_trans (Nat.sub_le _ _) hsize, hslots⟩
  | overrun => exact x.elim

/-- An access that no check stops is allowed. -/
theorem allowed_of_perform? (h : d.Within limit) (ha : a.perform? limit d = some (x, e)) :
    a.Allowed limit d := by
  cases a with
  | fields | probe _ | setHead _ | setTail _ | clear => trivial
  | look i =>
      obtain ⟨s, hs, -⟩ := Option.map_eq_some_iff.mp ha
      exact ⟨s, slot?_eq_some_iff.mp hs⟩
  | change i f =>
      obtain ⟨_, hf, -⟩ := Option.map_eq_some_iff.mp ha
      obtain ⟨s, hs, -⟩ := update?_eq_some_iff.mp hf
      exact ⟨s, slot?_eq_some_iff.mp hs⟩
  | release i =>
      obtain ⟨_, hf, -⟩ := Option.map_eq_some_iff.mp ha
      obtain ⟨s, hs, -⟩ := release?_eq_some_iff.mp hf
      exact ⟨s, slot?_eq_some_iff.mp hs⟩
  | occupy v =>
      intro i hi
      obtain ⟨rest, hfree⟩ := List.head?_eq_some_iff.mp hi
      have hv : d.vacancy? limit = some i := by rw [vacancy?, hfree]
      simp only [perform?, hv] at ha
      obtain ⟨_, hocc, -⟩ := Option.map_eq_some_iff.mp ha
      rw [occupy?, hfree] at hocc
      by_contra hlt
      simp [hlt] at hocc
  | grow =>
      obtain ⟨_, hg, -⟩ := Option.map_eq_some_iff.mp ha
      exact Nat.lt_of_lt_of_le (Option.ite_none_right_eq_some.mp hg).1 h.slots_le
  | shrink =>
      obtain ⟨_, hg, -⟩ := Option.map_eq_some_iff.mp ha
      exact (Option.ite_none_right_eq_some.mp hg).1
  | overrun => exact x.elim

end Access

/-! ## Procedures -/

/-- Accesses one after the other, each chosen by the answers to the ones before it, and a result. -/
inductive Procedure (α : Type) where
  | done (result : α)
  | step (access : Access) (next : access.Answer → Procedure α)

namespace Procedure

variable {α β : Type}

/-- One procedure after the other. -/
def bind : Procedure α → (α → Procedure β) → Procedure β
  | done result, f => f result
  | step access next, f => step access fun x => (next x).bind f

instance : Monad Procedure where
  pure := done
  bind := bind

/-- The result of a procedure and the deque after it, unless a check stops it. -/
def run? (limit : Nat) : Procedure α → Deque → Option (α × Deque)
  | done result, d => some (result, d)
  | step access next, d => (access.perform? limit d).bind fun (x, e) => (next x).run? limit e

/-- The accesses that a procedure makes, each with the deque that it finds. -/
def trace (limit : Nat) : Procedure α → Deque → List (Access × Deque)
  | done _, _ => []
  | step access next, d =>
    (access, d) :: (access.perform? limit d).elim [] fun (x, e) => (next x).trace limit e

@[simp]
theorem run?_pure (limit : Nat) (result : α) (d : Deque) :
    (pure result : Procedure α).run? limit d = some (result, d) := rfl

@[simp]
theorem run?_bind (limit : Nat) (p : Procedure α) (f : α → Procedure β) (d : Deque) :
    (p >>= f).run? limit d = (p.run? limit d).bind fun (x, e) => (f x).run? limit e := by
  induction p generalizing d with
  | done result => rfl
  | step access next ih =>
      change (access.perform? limit d).bind (fun (x, e) => (next x >>= f).run? limit e) = _
      simp only [ih, run?, Option.bind_assoc]

/-- A result that is only wrapped. -/
theorem run?_bind_pure (limit : Nat) (p : Procedure α) (f : α → β) (d : Deque) :
    (p >>= fun x => pure (f x)).run? limit d = (p.run? limit d).map fun (x, e) => (f x, e) := by
  rw [run?_bind]
  exact Option.map_eq_bind.symm

/-- A procedure that no check stops makes allowed accesses only.  On the way and at its end there
are at most `limit` nodes. -/
theorem allowed_of_run? {p : Procedure α} {result : α} (h : d.Within limit)
    (hp : p.run? limit d = some (result, e)) :
    (∀ x ∈ p.trace limit d, x.1.Allowed limit x.2 ∧ x.2.size ≤ limit) ∧ e.Within limit := by
  induction p generalizing d with
  | done =>
      obtain ⟨-, rfl⟩ := Prod.mk.inj (Option.some.inj hp)
      exact ⟨fun x hx => absurd hx List.not_mem_nil, h⟩
  | step access next ih =>
      obtain ⟨⟨answer, d'⟩, haccess, hnext⟩ := Option.bind_eq_some_iff.mp hp
      obtain ⟨hrest, he⟩ := ih answer (Access.within_of_perform? h haccess) hnext
      refine ⟨fun x hx => ?_, he⟩
      rw [trace, haccess, Option.elim_some, List.mem_cons] at hx
      rcases hx with rfl | hx
      · exact ⟨Access.allowed_of_perform? h haccess, Nat.le_trans h.size_le h.slots_le⟩
      · exact hrest x hx

end Procedure

end DequeMachine.Deque
