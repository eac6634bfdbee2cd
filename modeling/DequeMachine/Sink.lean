import DequeMachine.Fault

/-!
# DequeMachine.Sink

Where a program prints: a growing sequence of bytes that may have a capacity.

* A `Refusal` is a fault that a write does not get over; an interruption is none.
* `Sink.write` keeps the part of a text that fits, and fails if that is not all of it.
* `Sink.flush` keeps nothing and may fail; the sink notes after how many bytes it comes.
-/

namespace DequeMachine

/-- How a sink refuses bytes.  After an interruption writing is tried again, so that is no way to
refuse them. -/
structure Refusal where
  fault : Fault
  lasting : fault ≠ .interrupted
deriving DecidableEq, Repr

namespace Refusal

/-- The refusal that a fault stands for.  An interruption stands for none, and `writeZero`, which is
what a sink without room says, takes its place. -/
def ofFault (f : Fault) : Refusal :=
  if h : f = .interrupted then ⟨.writeZero, by decide⟩ else ⟨f, h⟩

instance : Coe Fault Refusal := ⟨ofFault⟩

theorem fault_ofFault {f : Fault} (h : f ≠ .interrupted) : (ofFault f).fault = f := by
  simp [ofFault, h]

end Refusal

/-- How many bytes a sink takes in its whole life, and how it refuses the next one. -/
structure Capacity where
  bytes : Nat
  refusal : Refusal
deriving DecidableEq, Repr

namespace Capacity

/-- What a write beyond the capacity fails with. -/
def fault (c : Capacity) : Fault := c.refusal.fault

theorem fault_ne_interrupted (c : Capacity) : c.fault ≠ .interrupted := c.refusal.lasting

end Capacity

/-- An output sink. -/
structure Sink where
  /-- The most that the sink takes; without one it takes everything. -/
  capacity? : Option Capacity
  /-- How a flush fails, if it does. -/
  flushFault? : Option Fault
  /-- The bytes written so far. -/
  written : Array UInt8
  /-- For each flush so far, how many bytes were written before it. -/
  flushedAt : Array Nat
deriving DecidableEq, Repr

namespace Sink

/-- The sink that takes everything. -/
def unlimited : Sink := ⟨none, none, #[], #[]⟩

/-- The number of flushes so far. -/
def flushes (s : Sink) : Nat := s.flushedAt.size

/-- The part of a text that the sink still takes. -/
def kept (s : Sink) (bytes : List UInt8) : List UInt8 :=
  match s.capacity? with
  | none => bytes
  | some c => bytes.take (c.bytes - s.written.size)

/-- How the sink refuses a text, if it does not take all of it. -/
def refusal? (s : Sink) (bytes : List UInt8) : Option Fault :=
  match s.capacity? with
  | none => none
  | some c => if bytes.length ≤ c.bytes - s.written.size then none else some c.fault

/-- Writes a text.  What fits is kept also when the write fails. -/
def write (s : Sink) (bytes : List UInt8) : Option Fault × Sink :=
  (s.refusal? bytes, { s with written := s.written ++ s.kept bytes })

/-- Flushes the sink. -/
def flush (s : Sink) : Option Fault × Sink :=
  (s.flushFault?, { s with flushedAt := s.flushedAt.push s.written.size })

/-- The bytes written after the first `mark`. -/
def since (s : Sink) (mark : Nat) : List UInt8 := (s.written.extract mark).toList

/-! ## What a write keeps -/

theorem toList_write (s : Sink) (bytes : List UInt8) :
    (s.write bytes).2.written.toList = s.written.toList ++ s.kept bytes := by
  simp [write]

theorem kept_isPrefix (s : Sink) (bytes : List UInt8) : s.kept bytes <+: bytes := by
  unfold kept
  split
  · exact List.prefix_rfl
  · exact List.take_prefix _ _

/-- A text that is not refused is kept whole. -/
theorem kept_eq_self {s : Sink} {bytes : List UInt8} (h : s.refusal? bytes = none) :
    s.kept bytes = bytes := by
  unfold refusal? at h
  unfold kept
  split <;> simp_all [List.take_of_length_le]

/-- A write without bytes cannot fail. -/
@[simp]
theorem refusal?_nil (s : Sink) : s.refusal? [] = none := by
  unfold refusal?
  split <;> simp

@[simp]
theorem write_nil (s : Sink) : s.write [] = (none, s) := by
  have hkept : s.kept [] = [] := kept_eq_self s.refusal?_nil
  rw [write, refusal?_nil, hkept, Array.appendList_nil]

/-- No write fails with an interruption. -/
theorem refusal?_ne_interrupted (s : Sink) (bytes : List UInt8) :
    s.refusal? bytes ≠ some .interrupted := by
  unfold refusal?
  split
  · nofun
  · next c _ =>
      split
      · nofun
      · exact fun h => c.fault_ne_interrupted (Option.some.inj h)

/-! ## Two texts in a row -/

@[simp]
theorem capacity?_write (s : Sink) (bytes : List UInt8) :
    (s.write bytes).2.capacity? = s.capacity? := rfl

/-- The room that a text leaves. -/
theorem room_write {s : Sink} {c : Capacity} (h : s.capacity? = some c) (xs : List UInt8) :
    c.bytes - (s.write xs).2.written.size = c.bytes - s.written.size - xs.length := by
  have hsize : (s.write xs).2.written.size =
      s.written.size + min (c.bytes - s.written.size) xs.length := by
    rw [← Array.length_toList, toList_write, List.length_append, Array.length_toList, kept, h,
      List.length_take]
  omega

theorem kept_append (s : Sink) (xs ys : List UInt8) :
    s.kept (xs ++ ys) = s.kept xs ++ (s.write xs).2.kept ys := by
  cases hs : s.capacity? with
  | none => simp [kept, hs]
  | some c => simp only [kept, capacity?_write, hs, room_write hs, List.take_append]

/-- Two texts in a row are refused if one of them is. -/
theorem refusal?_append (s : Sink) (xs ys : List UInt8) :
    s.refusal? (xs ++ ys) = (s.refusal? xs).or ((s.write xs).2.refusal? ys) := by
  cases hs : s.capacity? with
  | none => simp [refusal?, hs]
  | some c =>
      simp only [refusal?, capacity?_write, hs, room_write hs, List.length_append]
      by_cases hxs : xs.length ≤ c.bytes - s.written.size
      · have hboth : xs.length + ys.length ≤ c.bytes - s.written.size ↔
            ys.length ≤ c.bytes - s.written.size - xs.length := by omega
        simp [hxs, hboth]
      · have hboth : ¬xs.length + ys.length ≤ c.bytes - s.written.size := by omega
        simp [hxs, hboth]

/-- Two texts in a row are as good as one. -/
theorem write_write (s : Sink) (xs ys : List UInt8) :
    ((s.write xs).2.write ys).2 = (s.write (xs ++ ys)).2 := by
  have hkept := s.kept_append xs ys
  simp only [write] at hkept ⊢
  rw [hkept]
  simp [← Array.toList_inj]

theorem kept_of_capacity {s : Sink} {c : Capacity} (h : s.capacity? = some c)
    (bytes : List UInt8) : s.kept bytes = bytes.take (c.bytes - s.written.size) := by
  simp [kept, h]

theorem refusal?_eq_none_iff {s : Sink} {c : Capacity} (h : s.capacity? = some c)
    (bytes : List UInt8) :
    s.refusal? bytes = none ↔ bytes.length ≤ c.bytes - s.written.size := by
  simp [refusal?, h]

theorem room_lt_of_refused {s : Sink} {c : Capacity} (h : s.capacity? = some c) {bytes : List UInt8}
    {f : Fault} (hf : s.refusal? bytes = some f) : c.bytes - s.written.size < bytes.length := by
  rw [← Nat.not_le, ← refusal?_eq_none_iff h, hf]
  simp

/-- Nothing is taken after a text that was refused. -/
theorem kept_of_refused {s : Sink} {xs : List UInt8} {f : Fault} (h : s.refusal? xs = some f)
    (ys : List UInt8) : (s.write xs).2.kept ys = [] := by
  cases hs : s.capacity? with
  | none => simp [refusal?, hs] at h
  | some c =>
      have hfull : c.bytes - s.written.size - xs.length = 0 :=
        Nat.sub_eq_zero_of_le (Nat.le_of_lt (room_lt_of_refused hs h))
      simp only [kept, capacity?_write, hs, room_write hs, hfull, List.take_zero]

/-- Writes texts one after the other, up to the first that is refused. -/
def writeAll (s : Sink) : List (List UInt8) → Option Fault × Sink
  | [] => (none, s)
  | text :: texts =>
    match s.write text with
    | (some f, s) => (some f, s)
    | (none, s) => s.writeAll texts

/-- It does not matter how a text is cut into writes: the same bytes are taken, and the same fault
tells of the others. -/
theorem writeAll_eq_write (s : Sink) (texts : List (List UInt8)) :
    s.writeAll texts = s.write texts.flatten := by
  induction texts generalizing s with
  | nil => exact s.write_nil.symm
  | cons text texts ih =>
      have hrefusal := s.refusal?_append text texts.flatten
      have hsink := s.write_write text texts.flatten
      cases hf : s.refusal? text with
      | none =>
          rw [hf, Option.none_or] at hrefusal
          have htext : s.write text = (none, (s.write text).2) := Prod.ext hf rfl
          rw [writeAll, htext]
          simp only [ih, List.flatten_cons]
          exact Prod.ext hrefusal.symm hsink
      | some f =>
          rw [hf, Option.some_or] at hrefusal
          have htext : s.write text = (some f, (s.write text).2) := Prod.ext hf rfl
          have hwhole : (s.write (text ++ texts.flatten)).2 = (s.write text).2 := by
            rw [← hsink, write, kept_of_refused hf, Array.appendList_nil]
          rw [writeAll, htext, List.flatten_cons]
          exact Prod.ext hrefusal.symm hwhole.symm

/-! ## Sinks without a capacity -/

theorem refusal?_of_unlimited {s : Sink} (h : s.capacity? = none) (bytes : List UInt8) :
    s.refusal? bytes = none := by
  simp [refusal?, h]

theorem write_of_unlimited {s : Sink} (h : s.capacity? = none) (bytes : List UInt8) :
    s.write bytes = (none, { s with written := s.written ++ bytes }) := by
  simp [write, refusal?, kept, h]

end Sink

end DequeMachine
