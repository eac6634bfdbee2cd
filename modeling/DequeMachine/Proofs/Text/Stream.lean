import Mathlib.Data.List.TakeWhile
import DequeMachine.Proofs.Text.Utf8

/-!
# DequeMachine.Proofs.Text.Stream

The script of a stream.

* `Script.ofReads_eq_ofText`: a stream that carries the bytes of a text, in any pieces and with any
  interruptions, has the script of the text.
* `Script.ofReads_eq_gather`: the lines can be gathered while the pieces arrive.
-/

namespace DequeMachine

namespace Read

/-- The bytes of an answer. -/
def data : Read → List UInt8
  | bytes data => data
  | fault _ => []

/-- The stream goes on after an answer: it is a piece of the stream or an interruption. -/
def Continues : Read → Prop
  | bytes data => data ≠ []
  | fault f => f = .interrupted

instance : DecidablePred Continues
  | bytes data => inferInstanceAs (Decidable (data ≠ []))
  | fault f => inferInstanceAs (Decidable (f = .interrupted))

/-- All bytes arrive as long as the stream goes on. -/
theorem received_append {reads : List Read} (h : ∀ read ∈ reads, read.Continues)
    (later : List Read) :
    received (reads ++ later) = (reads.flatMap data ++ (received later).1, (received later).2) := by
  induction reads with
  | nil => rfl
  | cons read reads ih =>
      have hread : read.Continues := h read List.mem_cons_self
      have hreads := ih fun r hr => h r (List.mem_cons_of_mem read hr)
      cases read with
      | bytes xs => rw [List.cons_append, received_bytes hread, hreads, List.flatMap_cons, data,
          List.append_assoc]
      | fault f =>
          obtain rfl : f = .interrupted := hread
          rw [List.cons_append, received_interrupted, hreads, List.flatMap_cons, data,
            List.nil_append]

theorem received_eq {reads : List Read} (h : ∀ read ∈ reads, read.Continues) :
    received reads = (reads.flatMap data, none) := by
  simpa using received_append h []

/-- How a stream ends after its last bytes: it fails, and whatever comes later is not read. -/
def ending (later : List Read) : Option Fault → List Read
  | none => []
  | some f => fault f :: later

theorem received_ending {fault? : Option Fault} (h : fault? ≠ some .interrupted)
    (later : List Read) : received (ending later fault?) = ([], fault?) := by
  cases fault? with
  | none => rfl
  | some f => cases f <;> first | rfl | exact absurd rfl h

end Read

namespace Script

/-- Lines of bytes that encode texts are read as these texts. -/
theorem ofLines_map_encode (texts : List (List Char)) (stop? : Option ReadError) :
    ofLines (texts.map Utf8.encode) stop? = ⟨texts, stop?⟩ := by
  have hdecode : (texts.map Utf8.encode).map decode? = texts.map some := by
    simp [Function.comp_def]
  have htake : (texts.map some).takeWhile Option.isSome = texts.map some := by
    exact List.takeWhile_eq_self_iff.mpr fun line hline => by
      obtain ⟨_, -, rfl⟩ := List.mem_map.mp hline
      rfl
  simp only [ofLines, hdecode, htake]
  simp

theorem ofReads_of_received {reads : List Read} {source : String}
    (h : Read.received reads = (source.toUTF8.data.toList, none)) :
    ofReads reads = ofText source := by
  rw [ofReads, h, Utf8.toList_toUTF8]
  change ofLines (Lines.all 10 13 (Utf8.encode source.toList)) none = ofText source
  rw [Utf8.all_encode, ofLines_map_encode, ofText]

theorem ofReads_eq_ofText {reads : List Read} {source : String}
    (hbytes : reads.flatMap Read.data = source.toUTF8.data.toList)
    (hreads : ∀ read ∈ reads, read.Continues) : ofReads reads = ofText source :=
  ofReads_of_received (by rw [Read.received_eq hreads, hbytes])

/-! ## Gathering lines piece by piece -/

/-- The lines of a stream as bytes and the failure after them, where `pending` are the bytes of the
line that has begun.  Each piece is looked at when it arrives. -/
def gather (pending : List UInt8) : List Read → List (List UInt8) × Option Fault
  | [] => (if pending.isEmpty then [] else [pending], none)
  | .fault .interrupted :: reads => gather pending reads
  | .fault f :: _ => ([], some f)
  | .bytes [] :: _ => (if pending.isEmpty then [] else [pending], none)
  | .bytes data :: reads =>
    match Lines.split 10 data with
    | ([], rest) => gather (pending ++ rest) reads
    | (piece :: pieces, rest) =>
      let (lines, fault?) := gather rest reads
      (((pending ++ piece) :: pieces).map (Lines.dropEnd 13) ++ lines, fault?)

theorem byteLines_of_split {bytes : List UInt8} {pieces : List (List UInt8)} {rest : List UInt8}
    (h : Lines.split 10 bytes = (pieces, rest)) (fault? : Option Fault) :
    byteLines bytes fault? =
      pieces.map (Lines.dropEnd 13) ++ if fault?.isSome || rest.isEmpty then [] else [rest] := by
  cases fault? with
  | none => cases hrest : rest.isEmpty <;> simp [byteLines, Lines.all, Lines.ended, h, hrest]
  | some f => simp [byteLines, Lines.ended, h]

/-- The lines that end within `data` come first, the first of them after what is pending. -/
theorem byteLines_append {pending data rest : List UInt8} {piece : List UInt8}
    {pieces : List (List UInt8)} (hpending : 10 ∉ pending)
    (hdata : Lines.split 10 data = (piece :: pieces, rest)) (bytes : List UInt8)
    (fault? : Option Fault) :
    byteLines (pending ++ (data ++ bytes)) fault? =
      ((pending ++ piece) :: pieces).map (Lines.dropEnd 13) ++
        byteLines (rest ++ bytes) fault? := by
  have hrest : 10 ∉ rest := by
    have hnot := Lines.notMem_split 10 data
    rwa [hdata] at hnot
  have hall := Lines.split_append_eq_join 10 pending (data ++ bytes)
  have hlater := Lines.split_append_eq_join 10 rest bytes
  rw [Lines.split_append_eq_join 10 data, hdata, Lines.split_of_notMem hpending] at hall
  rw [Lines.split_of_notMem hrest] at hlater
  cases hbytes : Lines.split 10 bytes with
  | mk pieces' rest' =>
      rw [hbytes] at hall hlater
      cases pieces' <;> rw [byteLines_of_split hall, byteLines_of_split hlater] <;> simp

/-- The lines that are gathered are those of all bytes that arrive. -/
theorem gather_eq {pending : List UInt8} (h : 10 ∉ pending) (reads : List Read) :
    gather pending reads =
      (byteLines (pending ++ (Read.received reads).1) (Read.received reads).2,
        (Read.received reads).2) := by
  induction reads generalizing pending with
  | nil => simp [gather, byteLines_of_split (Lines.split_of_notMem h)]
  | cons read reads ih =>
      cases read with
      | fault f =>
          by_cases hf : f = .interrupted
          · rw [hf, gather, Read.received_interrupted, ih h]
          · have hreceived : Read.received (.fault f :: reads) = ([], some f) := by
              cases f <;> first | rfl | exact absurd rfl hf
            rw [hreceived, List.append_nil, byteLines_of_split (Lines.split_of_notMem h)]
            cases f <;> first | rfl | exact absurd rfl hf
      | bytes data =>
          by_cases hend : data = []
          · subst hend
            simp [gather, byteLines_of_split (Lines.split_of_notMem h)]
          · have hdata := Lines.flatMap_split 10 data
            have hnot := Lines.notMem_split 10 data
            rw [Read.received_bytes hend, gather]
            · cases hsplit : Lines.split 10 data with
              | mk pieces rest =>
                  rw [hsplit] at hdata hnot
                  cases pieces with
                  | nil =>
                      obtain rfl : rest = data := hdata
                      have hmore : 10 ∉ pending ++ rest := by simp [h, hnot]
                      change gather (pending ++ rest) reads = _
                      rw [ih hmore, List.append_assoc]
                  | cons piece pieces =>
                      simp only [ih hnot]
                      rw [byteLines_append h hsplit]
            · exact hend

/-- The script of a stream does not need all its bytes at once. -/
theorem ofReads_eq_gather (reads : List Read) :
    ofReads reads = ofLines (gather [] reads).1 ((gather [] reads).2.map ReadError.stream) := by
  rw [gather_eq List.not_mem_nil, List.nil_append, ofReads]

end Script

end DequeMachine
