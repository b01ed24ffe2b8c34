import PocketKernel.Shell.Session
import PocketKernel.Shell.Command

/-!
# Commands about the session and the machine

The commands that do not look at files: `help`, `echo`, `clear`, `pwd`, `history`, `layout` and
`reboot` about the session, `sleep`, `ps`, `kill` and `meminfo` about the machine.
-/

namespace PocketKernel.Builtin

open SessionM

variable {δ σ : Type}

/-- List the commands. -/
def help : SessionM δ σ Unit := do
  printLine ["Available commands:"]
  Command.all.forM fun command =>
    printLine ["  ", Text.padRight 8 command.name, " - ", command.summary]

/-- Write the arguments with blanks between them. -/
def echo (arguments : List Text) : SessionM δ σ Unit :=
  printLine [List.intercalate [' '] arguments]

/-- Clear the screen of the console. -/
def clear : SessionM δ σ Unit := tell [.clear]

/-- Write the working directory. -/
def pwd : SessionM δ σ Unit := do
  printLine [(← get).directory]

/-- Write the lines that are remembered, with their numbers. -/
def history : SessionM δ σ Unit := do
  let history := (← get).history
  if history.isEmpty then
    printLine ["No command history"]
  else
    printLine ["Command history:"]
    history.lines.zipIdx.forM fun (line, index) =>
      printLine ["  ", Text.decimal (index + 1), " ", line]

section System

variable [System σ]

/-- Ask for the keyboard layout, or change it. -/
def layout : List Text → SessionM δ σ Unit
  | [] => do
    printLine ["Current layout: ", (System.layout (← get).system).name]
  | [name] =>
    match Layout.ofName? name with
    | some layout => do
      modify fun session => { session with system := System.setLayout layout session.system }
      printLine ["Keyboard layout set to ", layout.name]
    | none => printLine ["layout: unknown layout '", name, "' (use us or de)"]
  | _ => printLine ["Usage: layout [us|de]"]

/-- Start the machine anew. -/
def reboot : SessionM δ σ Unit := do
  printLine ["Rebooting system..."]
  let session ← get
  match System.reboot session.system with
  | some system => set { session with system := system }
  | none => throw .poweredOff

/-- Let milliseconds pass one by one, until the user interrupts. -/
def sleepFor : Nat → SessionM δ σ Unit
  | 0 => pure ()
  | ms + 1 => do
    if !(← interrupted) then
      modify fun session => { session with system := System.sleep 1 session.system }
      sleepFor ms

/-- Let some milliseconds pass. -/
def sleep : List Text → SessionM δ σ Unit
  | [value] =>
    match Text.number? 10 UInt32.size value with
    | some ms => sleepFor ms
    | none => printLine ["sleep: invalid millisecond value"]
  | _ => printLine ["Usage: sleep <milliseconds>"]

/-- List the processes. -/
def ps : SessionM δ σ Unit := do
  let processes := System.processes (← get).system
  if processes.isEmpty then
    printLine ["(no processes)"]
  else
    printLine ["PID  STATE     PRIORITY"]
    printLine ["---  -----     --------"]
    processes.forM fun process =>
      printLine [Text.padLeft 3 (Text.decimal process.pid), "  ",
        Text.padRight 8 process.state.text, "  ", Text.decimal process.priority]

/-- End a process. -/
def kill : List Text → SessionM δ σ Unit
  | [value] =>
    match Text.number? 10 UInt32.size value with
    | none => printLine ["kill: invalid pid: ", value]
    | some pid => do
      let session ← get
      match System.kill pid session.system with
      | .ok system => set { session with system := system }
      | .error cause => printLine ["kill: ", Text.decimal pid, ": ", cause.message]
  | _ => printLine ["Usage: kill <pid>"]

/-- Write the figures about the heap. -/
def meminfo : SessionM δ σ Unit := do
  let stats := System.heapStats (← get).system
  printLine ["Kernel heap usage:"]
  printLine ["  Total: ", Text.decimal stats.total, " bytes"]
  printLine ["  Used : ", Text.decimal stats.used, " bytes"]
  printLine ["  Free : ", Text.decimal stats.free, " bytes"]
  printLine ["  Largest free block: ", Text.decimal stats.largestFreeBlock, " bytes"]
  printLine ["  Allocations: ", Text.decimal stats.allocationCount]
  printLine ["  Free blocks: ", Text.decimal stats.freeBlockCount]

end System

end PocketKernel.Builtin
