import PocketKernel.Disk.Ram
import PocketKernel.Shell.Execute
import PocketKernel.Text.Blank

/-!
# The shell as a program of its own

The shell also runs on its own, without the rest of the system: on a disk in memory, with lines
from its input and a terminal as its console. There are no processes to show and nothing
interrupts. Starting the machine anew ends the program at once.

The program reads its input line by line. Blanks at the end of a line do not count. Input that is
not UTF-8 ends it like the end of the input does, and then it writes a last line feed.

## Main definitions

* `HostSystem`: the machine that the program pretends to be.
* `Host`, `Host.start`, `Host.feed`, `Host.finish`: the program, step by step.
* `Host.run`: the whole program, from input to output and exit status.
-/

namespace PocketKernel

/-- A machine that has a clock and a keyboard layout, and nothing else to tell. -/
structure HostSystem where
  layout : Layout
  /-- The milliseconds that were asked to pass. -/
  slept : Nat
deriving DecidableEq, Repr

namespace HostSystem

/-- The machine at the start. -/
def initial : HostSystem := ⟨.german, 0⟩

instance : System HostSystem where
  sleep ms system := { system with slept := system.slept + ms }
  interrupted system := (false, system)
  clearInterrupt system := system
  processes _ := []
  kill _ _ := .error .noSuchProcess
  heapStats _ := .none
  layout := layout
  setLayout layout system := { system with layout := layout }
  reboot _ := none

end HostSystem

/-- What the program is doing. -/
inductive HostPhase where
  /-- It reads lines. -/
  | reading
  /-- It met input that is no text, and reads no more. -/
  | closed
  /-- It ended with a status. -/
  | ended (status : Nat)
deriving DecidableEq, Repr

/-- The program between two lines. -/
structure Host where
  shell : Shell RamDisk HostSystem
  phase : HostPhase

namespace Host

/-- The status of a program that was ended by the shell. -/
def statusOf : Halt → Nat
  | .poweredOff => 0
  | .broken => 101

/-- Run a step of the shell. Returns what it wrote on the terminal. -/
def perform (host : Host) (step : ShellM RamDisk HostSystem Unit) : Host × List UInt8 :=
  let (outcome, shell) := host.shell.run step
  let shown := shell.session.console.flatMap ConsoleEvent.ansi
  let phase := match outcome with
    | .ok () => host.phase
    | .error halt => .ended (statusOf halt)
  (⟨{ shell with session := { shell.session with console := [] } }, phase⟩, shown)

/-- The disk of the program: as large as the end of the standard volume. -/
def disk : RamDisk := .blank (Geometry.standard.startLba + Geometry.standard.totalSectors)

/-- Mount the volume of the disk, and ask for the first line. -/
def start : Host × List UInt8 :=
  let volume := (Volume.run (.unmounted disk .standard) VolumeM.mount).2
  perform ⟨.start volume .initial, .reading⟩ ShellM.prompt

/-- Read one line. -/
def feed (host : Host) (line : List UInt8) : Host × List UInt8 :=
  match host.phase, Text.ofUtf8? line with
  | .reading, some text => host.perform (ShellM.runLine (Text.trimEnd text))
  | .reading, none => ({ host with phase := .closed }, [])
  | _, _ => (host, [])

/-- What is written at the end of the input. -/
def finish (host : Host) : List UInt8 :=
  match host.phase with
  | .ended _ => []
  | _ => [0x0A]

/-- The exit status. -/
def status (host : Host) : Nat :=
  match host.phase with
  | .ended status => status
  | _ => 0

/-- The lines of an input. Behind the last line feed there is one more, unless it is empty. -/
def lines (input : List UInt8) : List (List UInt8) :=
  let pieces := input.splitOn 0x0A
  if pieces.getLast? = some [] then pieces.dropLast else pieces

/-- Read lines one after the other. Returns all that was written. -/
def feedAll (host : Host) : List (List UInt8) → Host × List UInt8
  | [] => (host, [])
  | line :: lines =>
    let (host, shown) := host.feed line
    let (host, rest) := feedAll host lines
    (host, shown ++ rest)

/-- The whole program: what it writes for an input, and the status that it ends with. -/
def run (input : List UInt8) : List UInt8 × Nat :=
  let (host, greeting) := start
  let (host, shown) := host.feedAll (lines input)
  (greeting ++ shown ++ host.finish, host.status)

end Host

end PocketKernel
