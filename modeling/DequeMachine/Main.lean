import DequeMachine.Cli.Command

/-!
# DequeMachine.Main

The command with the files, the streams and the environment of a process.
-/

namespace DequeMachine.Cli

/-- The verbosity that the environment asks for. -/
def environmentVerbosity : IO Verbosity := do
  let word? ← IO.getEnv "RUST_LOG"
  return (word?.bind Verbosity.ofName?).getD default

/-- Opens a file and reads it, if it can be opened. -/
def openFile (name : String) : IO (Option (List Read)) := do
  match ← (IO.FS.Handle.mk name .read).toBaseIO with
  | .error _ => return none
  | .ok handle =>
    match ← handle.readBinToEnd.toBaseIO with
    | .ok bytes => return some (Read.whole bytes.toList)
    | .error _ => return some [.fault .other]

/-- Runs the program in the file that the arguments name, and yields the exit code. -/
def runProcess (arguments : List String) : IO UInt32 := do
  let outcome ← command (← environmentVerbosity) openFile arguments
  let stdout ← IO.getStdout
  stdout.write outcome.stdout.toByteArray
  stdout.flush
  (← IO.getStderr).putStr outcome.stderr
  return outcome.exitCode.toUInt32

end DequeMachine.Cli

/-- The command. -/
def main (arguments : List String) : IO UInt32 := DequeMachine.Cli.runProcess arguments
