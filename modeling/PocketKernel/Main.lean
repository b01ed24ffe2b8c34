import PocketKernel.Host.Program

/-!
# The command line

Runs the shell on the standard input and output. Every line is answered before the next one is
read, and time that a command asks for passes before its answer is shown.
-/

namespace PocketKernel

/-- Write bytes and see them through. -/
def emit (output : IO.FS.Stream) (bytes : List UInt8) : IO Unit := do
  output.write ⟨bytes.toArray⟩
  output.flush

/-- Let the time pass that was asked for since an earlier state. -/
def keepTime (before after : Host) : IO Unit := do
  let ms := after.shell.session.system.slept - before.shell.session.system.slept
  if 0 < ms then
    IO.sleep (UInt32.ofNat ms)

/-- Answer the complete lines among the bytes that were read. Returns the bytes behind them. -/
partial def answerLines (output : IO.FS.Stream) (host : Host) (bytes : List UInt8) :
    IO (Host × List UInt8) := do
  match bytes.dropWhile (· ≠ 0x0A) with
  | [] => return (host, bytes)
  | _ :: rest =>
    let (next, shown) := host.feed (bytes.takeWhile (· ≠ 0x0A))
    keepTime host next
    emit output shown
    if next.phase = .reading then
      answerLines output next rest
    else
      return (next, [])

/-- Read and answer until the input ends or the program does. -/
partial def serve (input output : IO.FS.Stream) (host : Host) (pending : List UInt8) :
    IO Host := do
  if host.phase ≠ .reading then
    return host
  let bytes ← input.read 4096
  if bytes.isEmpty then
    if pending = [] then
      return host
    let (next, shown) := host.feed pending
    keepTime host next
    emit output shown
    return next
  let (host, pending) ← answerLines output host (pending ++ bytes.toList)
  serve input output host pending

end PocketKernel

open PocketKernel in
/-- Run the shell on the standard streams. -/
def main : IO UInt32 := do
  let input ← IO.getStdin
  let output ← IO.getStdout
  let (host, greeting) := Host.start
  emit output greeting
  let host ← serve input output host []
  emit output host.finish
  return UInt32.ofNat host.status
