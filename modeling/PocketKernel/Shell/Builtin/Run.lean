import PocketKernel.Shell.Builtin.Files
import PocketKernel.Shell.Builtin.Machine

/-!
# Running a command

Which step belongs to which command. A command is given its arguments and what the stage before it
wrote, if there is one.

## Main definitions

* `Command.run`: the step of a command.
-/

namespace PocketKernel

variable {δ σ : Type} [BlockDevice δ] [System σ]

/-- Run a command with its arguments and what was piped into it. -/
def Command.run (command : Command) (arguments : List Text) (input : Option (List UInt8)) :
    SessionM δ σ Unit :=
  match command with
  | .help => Builtin.help
  | .echo => Builtin.echo arguments
  | .clear => Builtin.clear
  | .cd => Builtin.cd arguments
  | .pwd => Builtin.pwd
  | .ls => Builtin.ls arguments
  | .cat => Builtin.cat arguments input
  | .touch => Builtin.touch arguments input
  | .mkdir => Builtin.mkdir arguments
  | .stat => Builtin.stat arguments
  | .hexdump => Builtin.hexdump arguments input
  | .sleep => Builtin.sleep arguments
  | .ps => Builtin.ps
  | .kill => Builtin.kill arguments
  | .meminfo => Builtin.meminfo
  | .history => Builtin.history
  | .layout => Builtin.layout arguments
  | .reboot => Builtin.reboot

end PocketKernel
