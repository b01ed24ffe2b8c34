import PocketKernel.Shell.Builtin.Dump
import PocketKernel.Shell.Session

/-!
# Commands about files

The commands that work on the volume: `cd`, `ls`, `cat`, `touch`, `mkdir`, `stat` and `hexdump`.
Each says what went wrong with a path and goes on with the next one. The ones that can take long
look for an interrupt between paths and between pieces of output.
-/

namespace PocketKernel.Builtin

open SessionM

variable {δ σ : Type} [BlockDevice δ]

/-- Change the working directory, to the root if no directory is named. -/
def cd (arguments : List Text) : SessionM δ σ Unit := do
  if ← available "cd" then
    let target := arguments.headD ['/']
    match ← resolve? target with
    | none => printLine ["cd: path too long"]
    | some path =>
      match ← onVolume (.stat path) with
      | .ok ⟨_, true, _⟩ => modify fun session => { session with directory := path }
      | _ => printLine ["cd: no such directory: ", target]

/-- The line of a listing for an entry. -/
def entryLine (entry : DirectoryEntry) : List Text :=
  [[if entry.stat.isDirectory then 'd' else '-'], " ", Text.decimal entry.stat.size, " ",
    entry.text]

/-- List a file or directory that was named in some way. -/
def listPath (path named : Text) : SessionM δ σ Unit := do
  match ← onVolume (.list path) with
  | .ok entries => entries.forM fun entry => printLine (entryLine entry)
  | .error cause => printLine ["ls: cannot access ", named, ": ", cause.message]

/-- Print the usage of a command that needs paths. -/
def pathUsage (command : Text) : SessionM δ σ Unit :=
  printLine ["Usage: ", command, " <path> [path...]"]

/-- Run a step for the absolute path of each path, or say that it is too long. -/
def eachPath (command : Text) (step : Text → Text → SessionM δ σ Unit) (paths : List Text) :
    SessionM δ σ Unit :=
  paths.forM fun named => do
    match ← resolve? named with
    | none => printLine [command, ": ", named, ": path too long"]
    | some path => step path named

/-- Say what went wrong with a path. -/
def complain (command named : Text) (cause : VolumeError) : SessionM δ σ Unit :=
  printLine [command, ": ", named, ": ", cause.message]

/-- Create files. What was piped in becomes the content of the one file that is named. -/
def touch (arguments : List Text) (input : Option (List UInt8)) : SessionM δ σ Unit := do
  if arguments = [] then
    pathUsage "touch"
    printLine ["Pipe data into touch to overwrite a single file."]
  else if ← available "touch" then
    if input.isSome && 1 < arguments.length then
      printLine ["touch: piped data requires a single target"]
    else
      arguments |> eachPath "touch" fun path named => do
        match ← onVolume (.touch path) with
        | .error cause => complain "touch" named cause
        | .ok () =>
          match input with
          | none => pure ()
          | some data =>
            match ← onVolume (.write path 0 data true) with
            | .error cause => complain "touch" named cause
            | .ok _ => pure ()

/-- Create directories. -/
def mkdir (arguments : List Text) : SessionM δ σ Unit := do
  if arguments = [] then
    pathUsage "mkdir"
  else if ← available "mkdir" then
    arguments |> eachPath "mkdir" fun path named => do
      match ← onVolume (.mkdir path) with
      | .error cause => complain "mkdir" named cause
      | .ok () => pure ()

/-- Tell what is known of files and directories, or how full the volume is. -/
def stat (arguments : List Text) : SessionM δ σ Unit := do
  if ← available "stat" then
    if arguments = [] then
      let usage := (← get).volume.usage
      printLine ["Inodes: ", Text.decimal usage.inodesUsed, " / ",
        Text.decimal usage.inodesTotal, " used"]
      printLine ["Blocks: ", Text.decimal usage.blocksUsed, " / ",
        Text.decimal usage.blocksTotal, " used"]
    else
      arguments |> eachPath "stat" fun path named => do
        match ← onVolume (.stat path) with
        | .error cause => complain "stat" named cause
        | .ok stat =>
          printLine ["  File: ", path]
          printLine ["  Type: ", if stat.isDirectory then "directory" else "file"]
          printLine ["  Size: ", Text.decimal stat.size, " bytes"]
          printLine [" Inode: ", Text.decimal stat.inode]

section System

variable [System σ]

/-- List the files and directories that are named, each under a heading if asked for, with an
empty line between them. -/
def listEach (headed : Bool) : List Text → SessionM δ σ Unit
  | [] => pure ()
  | named :: rest => do
    if !(← interrupted) then
      match ← resolve? named with
      | none => printLine ["ls: cannot access ", named]
      | some path =>
        if headed then
          printLine [path, ":"]
        listPath path named
        if headed && rest ≠ [] then
          printLine []
      listEach headed rest

/-- List files and directories, or the working directory if none is named. -/
def ls (arguments : List Text) : SessionM δ σ Unit := do
  if ← available "ls" then
    if arguments = [] then
      let directory := (← get).directory
      listPath directory directory
    else
      listEach (1 < arguments.length) arguments

/-- How many bytes of a file are read at a time. -/
def pieceSize : Nat := 512

/-- Write the content of a file from an offset up to its size, a piece at a time. -/
def catFrom (path named : Text) (size offset : Nat) : SessionM δ σ Unit := do
  if _ : offset < size then
    if !(← interrupted) then
      match ← onVolume (.read path offset pieceSize) with
      | .error cause => complain "cat" named cause
      | .ok [] => pure ()
      | .ok (byte :: bytes) =>
        write (byte :: bytes)
        catFrom path named size (offset + (bytes.length + 1))
termination_by size - offset

/-- Write the content of a file. -/
def catFile (named : Text) : SessionM δ σ Unit := do
  match ← resolve? named with
  | none => printLine ["cat: ", named, ": path too long"]
  | some path =>
    match ← onVolume (.stat path) with
    | .error cause => complain "cat" named cause
    | .ok stat =>
      if stat.isDirectory then
        printLine ["cat: ", named, ": is a directory"]
      else
        catFrom path named stat.size 0

/-- Write the content of files, or what was piped in if none is named. -/
def cat (arguments : List Text) (input : Option (List UInt8)) : SessionM δ σ Unit := do
  if arguments = [] then
    match input with
    | some (byte :: bytes) => write (byte :: bytes)
    | _ => pathUsage "cat"
  else if ← available "cat" then
    eachUntilInterrupt catFile arguments

/-- How many bytes are dumped unless it is said. -/
def defaultDumpLength : Nat := 128

/-- How many bytes are dumped at most. -/
def maxDumpLength : Nat := 512

/-- The number that a text means: decimal, or hexadecimal behind a zero and an X. -/
def dumpLength? : Text → Option Nat
  | '0' :: 'x' :: digits => Text.number? 16 UInt64.size digits
  | '0' :: 'X' :: digits => Text.number? 16 UInt64.size digits
  | digits => Text.number? 10 UInt64.size digits

/-- The bytes to dump: what was piped in, or the start of a file. Nothing if the file cannot be
read, which is said. -/
def dumpData (file : Option Text) (input : List UInt8) (length : Nat) :
    SessionM δ σ (List UInt8) := do
  match file with
  | none => pure (input.take length)
  | some named =>
    if ← available "hexdump" then
      match ← resolve? named with
      | none =>
        printLine ["hexdump: ", named, ": path too long"]
        pure []
      | some path =>
        match ← onVolume (.read path 0 length) with
        | .ok bytes => pure bytes
        | .error cause =>
          complain "hexdump" named cause
          pure []
    else
      pure []

/-- Dump a number of bytes from the start of a file or of what was piped in. -/
def dumpStart (file : Option Text) (input : List UInt8) (count : Nat) : SessionM δ σ Unit := do
  let bytes ← dumpData file input count
  Dump.rows 0 bytes |> eachUntilInterrupt fun (position, row) =>
    printLine [Dump.line position row]

/-- Dump the start of a file or of what was piped in, as far as the length says. -/
def dump (file : Option Text) (input : List UInt8) (length : Option Text) :
    SessionM δ σ Unit := do
  match length.map dumpLength? with
  | none => dumpStart file input defaultDumpLength
  | some none => printLine ["Invalid length. Use decimal or 0x-prefixed hex."]
  | some (some 0) => printLine ["Length must be greater than zero."]
  | some (some count) => dumpStart file input (min count maxDumpLength)

/-- Dump a file, or what was piped in. -/
def hexdump (arguments : List Text) (input : Option (List UInt8)) : SessionM δ σ Unit := do
  match input, arguments with
  | some input, [] => dump none input none
  | some input, [length] => dump none input (some length)
  | none, [path] => dump (some path) [] none
  | none, [path, length] => dump (some path) [] (some length)
  | _, _ =>
    printLine ["Usage: hexdump <path> [length]"]
    printLine ["       <command> | hexdump [length]"]

end System

end PocketKernel.Builtin
