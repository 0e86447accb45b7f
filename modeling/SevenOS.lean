import SevenOS.Lib.Prog
import SevenOS.Lib.Bytes
import SevenOS.Lib.CStr
import SevenOS.Lib.Walk
import SevenOS.FileSystem.Layout
import SevenOS.FileSystem.State
import SevenOS.FileSystem.Directory
import SevenOS.FileSystem.SysFile
import SevenOS.FileSystem.Mount
import SevenOS.FileSystem.Operations
import SevenOS.FileSystem.Session
import SevenOS.FileSystem.Proof.Listing
import SevenOS.FileSystem.Proof.Volume
import SevenOS.FileSystem.Proof.Perfect
import SevenOS.FileSystem.Proof.ReadOnly
import SevenOS.FileSystem.Proof.Invariant
import SevenOS.FileSystem.Proof.Edits
import SevenOS.FileSystem.Proof.Removal
import SevenOS.FileSystem.Proof.Specs
import SevenOS.FileSystem.Proof.SysSpecs
import SevenOS.FileSystem.Proof.Format
import SevenOS.FileSystem.Proof.Outcomes
import SevenOS.FileSystem.Proof.Faults
import SevenOS.FileSystem.Proof.Lookup
import SevenOS.FileSystem.Agreement
import SevenOS.FileSystem.Files
import SevenOS.FileSystem.Tree
import SevenOS.FileSystem.Entries
import SevenOS.FileSystem.Names
import SevenOS.FileSystem.Remount
import SevenOS.FileSystem.Refusals
import SevenOS.FileSystem.Renaming
import SevenOS.FileSystem.Removing
import SevenOS.FileSystem.Tour
import SevenOS.FileSystem.RemovalDepth
import SevenOS.FileSystem.RenameFaults
import SevenOS.FileSystem.Acceptance
import SevenOS.FileSystem.Capacity
import SevenOS.FileSystem.Exports
import SevenOS.FileSystem.Unmounted
import SevenOS.FileSystem.Proof.Regions
import SevenOS.FileSystem.Proof.RegionCalls
import SevenOS.FileSystem.Regions
import SevenOS.FileSystem.Spared
import SevenOS.Shell.Commands
import SevenOS.Shell.Output
import SevenOS.Shell.Terminal
import SevenOS.Shell.Gate
import SevenOS.Shell.Boot
import SevenOS.Shell.PowerCut
import SevenOS.Lib.Page
import SevenOS.Lib.Window
import SevenOS.Console.Vga
import SevenOS.Console.Screen
import SevenOS.Console.Display
import SevenOS.Lib.Memory
import SevenOS.Lib.Tiling
import SevenOS.Heap.Kheap
import SevenOS.Heap.Blocks
import SevenOS.Heap.Sequences
import SevenOS.Heap.Room
import SevenOS.Heap.Strings
import SevenOS.Heap.Ownership
import SevenOS.FileSystem.Copying
import SevenOS.FileSystem.Passwd
import SevenOS.FileSystem.LeftAlone
import SevenOS.FileSystem.CutShort
import SevenOS.FileSystem.CutRemoving
import SevenOS.FileSystem.FirstParts
import SevenOS.FileSystem.RootDirs
import SevenOS.Shell.Answers
import SevenOS.Shell.WorkingDir
import SevenOS.Shell.WriteLine
import SevenOS.Shell.Resolve
import SevenOS.Shell.Touch
import SevenOS.Lib.Paired
import SevenOS.Lib.Joined
import SevenOS.FileSystem.Formatting
import SevenOS.FileSystem.Usage
import SevenOS.FileSystem.Emptying
import SevenOS.FileSystem.Proof.Notes
import SevenOS.FileSystem.Transfers
import SevenOS.FileSystem.BlockScan
import SevenOS.Drivers.Ata
import SevenOS.Drivers.Sectors
import SevenOS.Lib.Numeral
import SevenOS.Util.Decimal
import SevenOS.Util.Sizes
import SevenOS.Boot.MemoryMap
import SevenOS.Arch.Idt
import SevenOS.Drivers.Keyboard
import SevenOS.Drivers.Typing
import SevenOS.Drivers.Readl
import SevenOS.Drivers.Echo
import SevenOS.Heap.Frames
import SevenOS.Heap.Buffers
import SevenOS.Lib.Cells
import SevenOS.Heap.RawList
import SevenOS.Heap.ListRuns
import SevenOS.Lib.Words
import SevenOS.Heap.RawString
import SevenOS.Heap.Splitting
