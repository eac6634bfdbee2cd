import DequeMachine.Fault

/-!
# DequeMachine.Stream

What arrives from a stream that a program is read from: bytes in pieces of any size, and failures.

* An answer without bytes is the end of the stream, which is final: nothing is asked after it.
* An interruption is no failure, since reading is tried again; every other failure ends the stream.
* How the bytes are cut into pieces does not matter, which is `received_bytes_bytes`.
-/

namespace DequeMachine

/-- One answer of a stream to a request for bytes. -/
inductive Read where
  /-- A piece of the stream, or its end if there are no bytes. -/
  | bytes (data : List UInt8)
  | fault (fault : Fault)
deriving DecidableEq, Repr

namespace Read

/-- What arrives when an answer comes before everything else. -/
def before : Read → List UInt8 × Option Fault → List UInt8 × Option Fault
  | bytes [], _ => ([], none)
  | bytes data, (rest, fault?) => (data ++ rest, fault?)
  | fault .interrupted, later => later
  | fault f, _ => ([], some f)

/-- The bytes that arrive, and the failure after them if that is not the end of the stream. -/
def received (reads : List Read) : List UInt8 × Option Fault :=
  reads.foldr before ([], none)

@[simp]
theorem received_nil : received [] = ([], none) := rfl

/-- Nothing arrives after the end of the stream. -/
@[simp]
theorem received_end (reads : List Read) : received (bytes [] :: reads) = ([], none) := rfl

theorem received_bytes {data : List UInt8} (h : data ≠ []) (reads : List Read) :
    received (bytes data :: reads) = (data ++ (received reads).1, (received reads).2) := by
  cases data with
  | nil => exact absurd rfl h
  | cons byte data => rfl

@[simp]
theorem received_singleton (data : List UInt8) : received [bytes data] = (data, none) := by
  by_cases h : data = []
  · rw [h, received_end]
  · rw [received_bytes h, received_nil, List.append_nil]

@[simp]
theorem received_interrupted (reads : List Read) :
    received (fault .interrupted :: reads) = received reads := rfl

/-- Two pieces in a row are as good as one. -/
theorem received_bytes_bytes {xs ys : List UInt8} (hxs : xs ≠ []) (hys : ys ≠ [])
    (reads : List Read) :
    received (bytes xs :: bytes ys :: reads) = received (bytes (xs ++ ys) :: reads) := by
  rw [received_bytes hxs, received_bytes hys,
    received_bytes (List.append_ne_nil_of_left_ne_nil hxs ys), List.append_assoc]

/-- The stream of bytes that come in one piece. -/
def whole (data : List UInt8) : List Read := if data.isEmpty then [] else [bytes data]

end Read

end DequeMachine
