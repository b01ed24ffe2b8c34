import PocketKernel.Text.Utf8

/-!
# The commands of the shell

Which commands there are, in the order in which they are listed, with their names and what is said
about them.

## Main definitions

* `Command`, `Command.all`: the commands.
* `Command.name`, `Command.summary`: what is shown of a command.
* `Command.find?`: the command with a name.
-/

namespace PocketKernel

/-- A command of the shell. -/
inductive Command where
  | help
  | echo
  | clear
  | cd
  | pwd
  | ls
  | cat
  | touch
  | mkdir
  | stat
  | hexdump
  | sleep
  | ps
  | kill
  | meminfo
  | history
  | layout
  | reboot
deriving DecidableEq, Repr

namespace Command

/-- All commands, in the order in which they are listed. -/
def all : List Command :=
  [.help, .echo, .clear, .cd, .pwd, .ls, .cat, .touch, .mkdir, .stat, .hexdump, .sleep, .ps,
    .kill, .meminfo, .history, .layout, .reboot]

/-- The name that a command is called by. -/
def name : Command → String
  | help => "help"
  | echo => "echo"
  | clear => "clear"
  | cd => "cd"
  | pwd => "pwd"
  | ls => "ls"
  | cat => "cat"
  | touch => "touch"
  | mkdir => "mkdir"
  | stat => "stat"
  | hexdump => "hexdump"
  | sleep => "sleep"
  | ps => "ps"
  | kill => "kill"
  | meminfo => "meminfo"
  | history => "history"
  | layout => "layout"
  | reboot => "reboot"

/-- What is said about a command. -/
def summary : Command → String
  | help => "Display this help message"
  | echo => "Echo arguments to the screen"
  | clear => "Clear the screen"
  | cd => "Change the working directory"
  | pwd => "Print the working directory"
  | ls => "List directory contents"
  | cat => "Display file contents"
  | touch => "Create files, or write piped data into one"
  | mkdir => "Create directories"
  | stat => "Show file details or filesystem usage"
  | hexdump => "Hex dump of a file or piped data"
  | sleep => "Pause execution for N milliseconds"
  | ps => "List processes"
  | kill => "Terminate a process"
  | meminfo => "Show kernel heap statistics"
  | history => "Show command history"
  | layout => "Show or set the keyboard layout (us, de)"
  | reboot => "Reboot the system"

/-- The command with a name. -/
def find? (name : Text) : Option Command :=
  all.find? fun command => command.name.toList == name

end Command

end PocketKernel
