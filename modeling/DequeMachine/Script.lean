import DequeMachine.Error
import DequeMachine.Lines
import DequeMachine.Stream

/-!
# DequeMachine.Script

The lines of a program as a machine gets to see them.

* `Script.ofText` takes the lines of a text.
* `Script.ofReads` takes the lines of the bytes of a stream, which are UTF-8 line by line.  The
  first line that is not UTF-8 ends the script.  So does a failure of the stream, and then the bytes
  after the last line end are no line.
-/

namespace DequeMachine

/-- The lines that can be read, and why there are no more if that is not the end of the program. -/
structure Script where
  lines : List (List Char)
  stop? : Option ReadError
deriving DecidableEq, Repr

namespace Script

/-- The script of a text. -/
def ofText (text : String) : Script := ⟨Lines.all '\n' '\r' text.toList, none⟩

/-- The characters that bytes encode in UTF-8. -/
def decode? (bytes : List UInt8) : Option (List Char) :=
  (String.fromUTF8? bytes.toByteArray).map String.toList

/-- The lines of a stream as bytes, where `fault?` is what comes after its bytes. -/
def byteLines (bytes : List UInt8) (fault? : Option Fault) : List (List UInt8) :=
  match fault? with
  | none => Lines.all 10 13 bytes
  | some _ => (Lines.ended 10 13 bytes).1

/-- The script of lines of bytes, where `stop?` is what comes after them. -/
def ofLines (lines : List (List UInt8)) (stop? : Option ReadError) : Script :=
  let texts := lines.map decode?
  { lines := (texts.takeWhile Option.isSome).filterMap id
    stop? := if texts.all Option.isSome then stop? else some .notUtf8 }

/-- The script of a stream. -/
def ofReads (reads : List Read) : Script :=
  let (bytes, fault?) := Read.received reads
  ofLines (byteLines bytes fault?) (fault?.map ReadError.stream)

end Script

end DequeMachine
