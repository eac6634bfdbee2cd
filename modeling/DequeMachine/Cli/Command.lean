import DequeMachine.Cli.Arguments
import DequeMachine.Machine.Run

/-!
# DequeMachine.Cli.Command

The command: it runs the program in a file.

* `runFile` is the work on a file that could be opened.
* `command` is the whole command, given how files are opened.
-/

namespace DequeMachine.Cli

/-- What the command leaves behind. -/
structure Outcome where
  exitCode : Nat
  stdout : List UInt8
  stderr : String
deriving DecidableEq, Repr

/-! ## Texts -/

/-- Lines as a text. -/
def unlines (lines : List String) : String := String.join (lines.map (· ++ "\n"))

/-- The help text. -/
def helpText : String := unlines [
  "Interpret a Monty bytecode file",
  "",
  "Usage: monty <FILE>",
  "",
  "Arguments:",
  "  <FILE>  Path to the Monty source file",
  "",
  "Options:",
  "  -h, --help  Print help"]

/-- The reminder after arguments that make no sense. -/
def usageText : String := "USAGE: monty file"

/-- The message about a file that cannot be opened or read. -/
def cannotOpen (file : String) : String := "Error: Can't open file " ++ file

/-- The message about an error of a run. -/
def errorMessage (file : String) : Error → String
  | .read _ => cannotOpen file
  | e => e.message

/-- The reports that a verbosity shows, a line each. -/
def shownReports (verbosity : Verbosity) (file : String) (log : List Entry) : List String :=
  let opened := (Level.debug, Level.debug.label ++ " running file=" ++ file)
  let reports := opened :: log.map fun entry => (entry.event.level, entry.event.report)
  (reports.filter fun report => verbosity.shows report.1).map Prod.snd

/-! ## The command -/

/-- Ends with a message. -/
def failure (message : String) : Outcome := ⟨1, [], unlines [message]⟩

/-- Runs the program that is read from an open file. -/
def runFile (verbosity : Verbosity) (file : String) (reads : List Read) : Outcome :=
  let r := (Machine.new Machine.maxSlots .unlimited).runReads reads
  { exitCode := if r.error?.isNone then 0 else 1
    stdout := r.machine.sink.written.toList
    stderr := unlines (shownReports verbosity file r.log.toList ++
      (r.error?.map (errorMessage file)).toList) }

/-- Runs the file that is opened under a name, if it is. -/
def runOpened (verbosity : Verbosity) (file : String) : Option (List Read) → Outcome
  | some reads => runFile verbosity file reads
  | none => failure (cannotOpen file)

/-- The whole command, where `openFile` opens a file and yields what can be read from it. -/
def command {m : Type → Type} [Monad m] (verbosity : Verbosity)
    (openFile : String → m (Option (List Read))) (arguments : List String) : m Outcome :=
  match Request.ofArguments arguments with
  | .help => pure ⟨0, helpText.toUTF8.toList, ""⟩
  | .misuse => pure (failure usageText)
  | .run file => do return runOpened verbosity file (← openFile file)

end DequeMachine.Cli
