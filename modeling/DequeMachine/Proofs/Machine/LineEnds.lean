import DequeMachine.Proofs.Machine.Halting
import DequeMachine.Proofs.Machine.Line
import DequeMachine.Proofs.Statement.Grammar
import DequeMachine.Proofs.Text.LineEnds

/-!
# DequeMachine.Proofs.Machine.LineEnds

It does not matter how the lines of a program end.

A carriage return that is left at the end of a line is a blank, so the line says the same with it and
without it (`Statement.parse_concat_blank`), and a run depends on nothing but what its lines say
(`Machine.runLines_congr`).
-/

namespace DequeMachine

/-- A carriage return at the end of a line does not matter. -/
theorem Statement.parse_concat_return (text : List Char) : parse (text ++ ['\r']) = parse text :=
  parse_concat_blank (by decide) text

namespace Machine

variable {m m' : Machine} {s s' : Source} {t t' : String}

/-- A run does not depend on what the machine did before. -/
theorem runSource_congr (hlimit : m.limit = m'.limit) (hsink : m.sink = m'.sink) (s : Source) :
    m'.runSource s = m.runSource s := by
  rw [runSource_eq, runSource_eq, run_congr hlimit hsink]

theorem runSource_of_carries (hs : s.Carries t) (m : Machine) :
    m.runSource s = (m.reset.runLines #[] (Lines.all '\n' '\r' t.toList)).finish none := by
  rw [runSource_eq, hs.script_eq]
  rfl

/-- Carriage returns may stand before any of the line feeds of a program, and a line feed may follow
its last line: the report is the same, from a text and from a stream of its bytes. -/
theorem runSource_of_respells (hlimit : m.limit = m'.limit) (hsink : m.sink = m'.sink)
    (hs : s.Carries t) (hs' : s'.Carries t') (h : Lines.Respells '\n' '\r' t.toList t'.toList) :
    m'.runSource s' = m.runSource s := by
  have hlines := h.map_all (by decide) Statement.parse_concat_return
  rw [runSource_congr hlimit hsink, runSource_of_carries hs', runSource_of_carries hs,
    runLines_congr hlines]

/-- The second line feed gets a carriage return although one stands there, the last line gets a line
feed although it ends in a carriage return, and the bytes come in two pieces with one of these line
ends between them. -/
theorem runSource_of_respells_foo :
    let m := new 1 .unlimited
    let t := "push 7\npint\r\nfoo \r"
    let t' := "push 7\npint\r\r\nfoo \r\n"
    let s' := Source.reads [.bytes (t'.toUTF8.data.toList.take 13), .fault .interrupted,
      .bytes (t'.toUTF8.data.toList.drop 13)]
    (Source.text t).Carries t ∧ s'.Carries t' ∧ Lines.Respells '\n' '\r' t.toList t'.toList ∧
      m.runSource s' = m.runSource (.text t) ∧
      (m.runSource s').error? = some (.parse 3 (.unknownInstruction "foo")) := by
  intro m t t' s'
  have hs : (Source.text t).Carries t := .text t
  have hs' : s'.Carries t' := .reads (by simp [Read.data]) (by decide)
  have hlast : Lines.Respells '\n' '\r' ['\r'] ['\r', '\n'] := .ended (by decide)
  have ht : t.toList = "push 7\npint\r".toList ++ '\n' :: ("foo ".toList ++ ['\r']) := by decide
  have ht' : t'.toList =
      "push 7\npint\r".toList ++ '\r' :: '\n' :: ("foo ".toList ++ ['\r', '\n']) := by decide
  have h : Lines.Respells '\n' '\r' t.toList t'.toList := by
    rw [ht, ht']
    exact .append_left _ (.returned (.append_left _ hlast))
  have hrun := runSource_of_respells (m := m) rfl rfl hs hs' h
  refine ⟨hs, hs', h, hrun, ?_⟩
  rw [hrun]
  decide

end Machine

end DequeMachine
