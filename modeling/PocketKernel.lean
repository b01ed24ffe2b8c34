import PocketKernel.Ata.Bus
import PocketKernel.Ata.Drive
import PocketKernel.Ata.Script
import PocketKernel.Bytes.LittleEndian
import PocketKernel.Bytes.Overlay
import PocketKernel.Clock
import PocketKernel.Disk.Device
import PocketKernel.Disk.Ram
import PocketKernel.Disk.Sector
import PocketKernel.Heap.Arena
import PocketKernel.Heap.Extents
import PocketKernel.Heap.Tracked
import PocketKernel.Host.Program
import PocketKernel.Keyboard.Decoder
import PocketKernel.Keyboard.Driver
import PocketKernel.Keyboard.Event
import PocketKernel.Keyboard.Key
import PocketKernel.Keyboard.Layout
import PocketKernel.Keyboard.Scancode
import PocketKernel.Log
import PocketKernel.Main
import PocketKernel.Process.Context
import PocketKernel.Process.Scheduler
import PocketKernel.Process.Table
import PocketKernel.Proofs.Disk.Cells
import PocketKernel.Proofs.Disk.Lawful
import PocketKernel.Proofs.Disk.Traced
import PocketKernel.Proofs.Process.Table
import PocketKernel.Proofs.Volume.Agreement
import PocketKernel.Proofs.Volume.Bitmap
import PocketKernel.Proofs.Volume.Calls
import PocketKernel.Proofs.Volume.Codec
import PocketKernel.Proofs.Volume.Confined
import PocketKernel.Proofs.Volume.Consistency
import PocketKernel.Proofs.Volume.Contained
import PocketKernel.Proofs.Volume.Content
import PocketKernel.Proofs.Volume.Create
import PocketKernel.Proofs.Volume.Durability
import PocketKernel.Proofs.Volume.Format
import PocketKernel.Proofs.Volume.Frame
import PocketKernel.Proofs.Volume.Growth
import PocketKernel.Proofs.Volume.Inodes
import PocketKernel.Proofs.Volume.Interrupted
import PocketKernel.Proofs.Volume.Load
import PocketKernel.Proofs.Volume.Names
import PocketKernel.Proofs.Volume.Naming
import PocketKernel.Proofs.Volume.Outcome
import PocketKernel.Proofs.Volume.Ownership
import PocketKernel.Proofs.Volume.Refinement
import PocketKernel.Proofs.Volume.Remount
import PocketKernel.Proofs.Volume.Rewrite
import PocketKernel.Proofs.Volume.Session
import PocketKernel.Proofs.Volume.Settled
import PocketKernel.Proofs.Volume.Snapshot
import PocketKernel.Proofs.Volume.Sound
import PocketKernel.Proofs.Volume.Transfer
import PocketKernel.Proofs.Volume.Walk
import PocketKernel.Proofs.Volume.Write
import PocketKernel.Screen.Basic
import PocketKernel.Shell.Builtin.Dump
import PocketKernel.Shell.Builtin.Files
import PocketKernel.Shell.Builtin.Machine
import PocketKernel.Shell.Builtin.Run
import PocketKernel.Shell.Command
import PocketKernel.Shell.Completion
import PocketKernel.Shell.Console
import PocketKernel.Shell.Editor
import PocketKernel.Shell.Execute
import PocketKernel.Shell.History
import PocketKernel.Shell.Keys
import PocketKernel.Shell.Pipeline
import PocketKernel.Shell.Resolve
import PocketKernel.Shell.Session
import PocketKernel.Shell.State
import PocketKernel.Shell.System
import PocketKernel.Signal.Table
import PocketKernel.Text.Blank
import PocketKernel.Text.Boundary
import PocketKernel.Text.Numeral
import PocketKernel.Text.Printable
import PocketKernel.Text.Utf8
import PocketKernel.Volume.Alloc
import PocketKernel.Volume.Basic
import PocketKernel.Volume.Bitmap
import PocketKernel.Volume.Content
import PocketKernel.Volume.Directory
import PocketKernel.Volume.Error
import PocketKernel.Volume.Flush
import PocketKernel.Volume.Geometry
import PocketKernel.Volume.Inode
import PocketKernel.Volume.Mount
import PocketKernel.Volume.Operations
import PocketKernel.Volume.Path
import PocketKernel.Volume.Record
import PocketKernel.Proofs.Process.Selection
import PocketKernel.Proofs.Process.Action
import PocketKernel.Proofs.Process.Coherent
import PocketKernel.Proofs.Process.Fairness
import PocketKernel.Proofs.Process.Numbers
import PocketKernel.Proofs.Shell.Grammar
import PocketKernel.Proofs.Shell.Scan
import PocketKernel.Proofs.Screen.Bounds
import PocketKernel.Proofs.Screen.Rows
import PocketKernel.Proofs.Keyboard.Delivery
import PocketKernel.Proofs.Signal.Dispatch
import PocketKernel.Proofs.Shell.Display
import PocketKernel.Proofs.Volume.Answers
import PocketKernel.Proofs.Volume.Damage
import PocketKernel.Proofs.Volume.Leaf
import PocketKernel.Proofs.Volume.Entries
import PocketKernel.Proofs.Ata.Protocol
import PocketKernel.Proofs.Ata.Refinement
import PocketKernel.Proofs.Ata.Watched
import PocketKernel.Proofs.Heap.Statistics
import PocketKernel.Proofs.Volume.Stores
import PocketKernel.Proofs.Volume.Leftovers
import PocketKernel.Proofs.Shell.Written
import PocketKernel.Proofs.Process.Sleep
import PocketKernel.Proofs.Process.Stacks
import PocketKernel.Proofs.Volume.Folding
import PocketKernel.Proofs.Shell.Resolution
import PocketKernel.Proofs.Shell.Directory
import PocketKernel.Proofs.Volume.Redirect
import PocketKernel.Proofs.Shell.Printing
import PocketKernel.Proofs.Shell.Redirection
import PocketKernel.Proofs.Shell.EditedLine
import PocketKernel.Proofs.Keyboard.Modifiers
import PocketKernel.Proofs.Shell.Recall
import PocketKernel.Proofs.Shell.Interrupt
import PocketKernel.Proofs.Shell.Candidates
import PocketKernel.Proofs.Shell.Completing
import PocketKernel.Proofs.Ata.Addressing
import PocketKernel.Proofs.Volume.Listing
import PocketKernel.Proofs.Volume.FirstFit
import PocketKernel.Proofs.Volume.RoundTrip
