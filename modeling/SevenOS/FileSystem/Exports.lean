import SevenOS.FileSystem.Session

/-! # The exported interface

Every function `filesystem.h` exports, as one kind of call: the calls that change
the file system, those that only look at it, and mounting and formatting.
-/

namespace SevenOS

open Prog

/-! ## Sizes and errors -/

def fsLastError : FsM FsError := do
  let s ← get
  return s.lastError

/-- The drive's own count, or what the superblock says. -/
def fsGetDiskBytes (dev : Device) : FsM UInt64 := do
  match dev.sectorCount with
  | some sectors => return sectors * 512
  | none =>
      let s ← get
      return s.sb.blockCount.toUInt64 * s.sb.blockSize.toUInt64

def getMB (dev : Device) : FsM Int32 := do
  let totalBytes ← fsGetDiskBytes dev
  return (totalBytes >>> 20).toUInt32.toInt32

structure Usage where
  totalBytes : UInt64
  usedBytes : UInt64
  freeBytes : UInt64
  deriving DecidableEq

def fsGetUsage : FsM Usage := do
  let s ← get
  require s.mounted
  let totalBlocks := blockLimit s.sb
  let usedBlocks : UInt32 :=
    UInt32.ofNat ((List.range' 1 (totalBlocks.toNat - 1)).countP fun i => s.bitmap.testBit i)
  let total := totalBlocks.toUInt64 * fsBlockSize.toUInt64
  let used := usedBlocks.toUInt64 * fsBlockSize.toUInt64
  return ⟨total, used, if used < total then total - used else 0⟩

/-! ## Calls -/

inductive Export where
  | init
  | format (totalBlocks inodeCount : UInt32)
  | listRoot (maxEntries : UInt32)
  | listDir (dirname : CStr) (maxEntries : UInt32)
  | mkdir (name : CStr)
  | isDir (path : CStr)
  | write (name data : CStr)
  | remove (name : CStr)
  | read (name : CStr) (maxlen : UInt32)
  | readPath (path : CStr) (maxlen : UInt32)
  | hashPassword (s : CStr)
  | readPasswd
  | lastError
  | isFormatted
  | megabytes
  | diskBytes
  | usage
  | change (call : Call)

namespace Export

/-- Forget what a program returns. -/
def forget {α : Type} (m : FsM α) : FsM Unit := m >>= fun _ => pure ()

theorem forget_ok {α : Type} {m : FsM α} {s : Fs} :
    (forget m s).1 = .ok () ↔ ∃ a, (m s).1 = .ok a := by
  simp only [forget, Bind.bind, Prog.bind]
  rcases m s with ⟨a | _ | _, s'⟩
  · exact ⟨fun _ => ⟨a, rfl⟩, fun _ => rfl⟩
  · simp
  · simp

def run (dev : Device) : Export → FsM Unit
  | init => fsInit dev
  | format totalBlocks inodeCount => fsFormat dev totalBlocks inodeCount
  | listRoot maxEntries => forget (fsListRoot dev maxEntries)
  | listDir dirname maxEntries => forget (fsListDir dev dirname maxEntries)
  | mkdir name => fsMkdir dev name
  | isDir path => fsIsDir dev path
  | write name data => fsWrite dev name data
  | remove name => fsRemove dev name
  | read name maxlen => forget (fsRead dev name maxlen)
  | readPath path maxlen => forget (fsReadPath dev path maxlen)
  | hashPassword s => forget (pure (fsHashPassword s))
  | readPasswd => forget (fsReadPasswd dev)
  | lastError => forget fsLastError
  | isFormatted => fsIsFormatted dev
  | megabytes => forget (getMB dev)
  | diskBytes => forget (fsGetDiskBytes dev)
  | usage => forget fsGetUsage
  | change call => call.run dev

def paths : Export → List CStr
  | listDir dirname _ => [dirname]
  | mkdir name => [name]
  | isDir path => [path]
  | write name _ => [name]
  | remove name => [name]
  | read name _ => [name]
  | readPath path _ => [path]
  | change call => call.paths
  | _ => []

/-- The calls that return a success flag for a change of the files. -/
def Mutates : Export → Prop
  | mkdir _ => True
  | write _ _ => True
  | remove _ => True
  | change _ => True
  | _ => False

end Export

end SevenOS
