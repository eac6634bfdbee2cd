import DequeMachine.Machine.Run
import DequeMachine.Proofs.Text.Stream

/-!
# DequeMachine.Proofs.Machine.Reads

Running a stream is running the text that it carries.
-/

namespace DequeMachine.Machine

/-- A run depends on nothing but the limit and the sink of a machine. -/
theorem run_congr {m m' : Machine} (hlimit : m.limit = m'.limit) (hsink : m.sink = m'.sink)
    (script : Script) : m.run script = m'.run script := by
  rw [run, run, reset_eq_new, reset_eq_new, hlimit, hsink]

/-- The bytes of a text may arrive in any pieces, also with a character or a line end cut in two,
and the stream may be interrupted anywhere: the report is that of the text. -/
theorem runReads_eq_runText {m m' : Machine} (hlimit : m.limit = m'.limit)
    (hsink : m.sink = m'.sink) {reads : List Read} {source : String}
    (hbytes : reads.flatMap Read.data = source.toUTF8.data.toList)
    (hreads : ∀ read ∈ reads, read.Continues) : m.runReads reads = m'.runText source := by
  rw [runReads, runText, Script.ofReads_eq_ofText hbytes hreads, run_congr hlimit hsink]

/-- A character and a line end in two pieces each, on a machine that has been used before. -/
theorem runReads_eq_runText_pieces :
    { new 2 .unlimited with mode := .queue, line := 7 }.runReads
        [.bytes [35, 195], .fault .interrupted, .bytes [169, 13], .bytes [10, 112, 105, 110, 116]] =
      (new 2 .unlimited).runText "#é\r\npint" :=
  runReads_eq_runText rfl rfl (by decide) (by decide)

end DequeMachine.Machine
