import SevenOS.FileSystem.Directory

/-! # Root directory, system files, removal

The static functions of the file system that change something: creating the
root block, writing and reading files of the `sys` directory, and the plain and
the recursive removal of an entry.
-/

namespace SevenOS

open Prog

/-- "sys" -/
def sysName : CStr := ⟨[115, 121, 115], by simp⟩
/-- "status" -/
def statusName : CStr := ⟨[115, 116, 97, 116, 117, 115], by simp⟩
/-- "passwd" -/
def passwdName : CStr := ⟨[112, 97, 115, 115, 119, 100], by simp⟩

/-- A fresh inode record as every creation fills it in. -/
def Inode.fresh (old : Inode) (type : UInt8) (size block : UInt32) : Inode :=
  { old with used := 1, type := type, links := 1, size := size, direct0 := block }

def readRootDirBlock (dev : Device) : FsM Unit := do
  let s ← get
  require ((s.inodes 0).used ≠ 0 ∧ (s.inodes 0).type = inodeDir ∧ (s.inodes 0).direct0 ≠ 0)
  loadScratch dev (s.sectorOf 0)

/-- The test `load_dir_block` and `write_dir_block` share. -/
def isDirInode (v : Volume) (dir : InodeNo) : Prop :=
  (v.inodes dir).used ≠ 0 ∧ (v.inodes dir).type = inodeDir ∧ (v.inodes dir).direct0 ≠ 0

instance (v : Volume) (dir : InodeNo) : Decidable (isDirInode v dir) :=
  inferInstanceAs (Decidable (_ ∧ _ ∧ _))

def loadDirBlock (dev : Device) (dir : InodeNo) : FsM Block := do
  let s ← get
  require (isDirInode s.toVolume dir)
  diskReadLba dev 512 (s.sectorOf dir)

def writeDirBlock (dev : Device) (dir : InodeNo) (b : Block) : FsM Unit := do
  let s ← get
  require (isDirInode s.toVolume dir)
  diskWriteLba dev 512 (s.sectorOf dir) b

def ensureRootDirBlock (dev : Device) : FsM Unit := do
  let s ← get
  if (s.inodes 0).direct0 ≠ 0 then return ()
  let block ← demand (allocBlockRaw s.toVolume)
  markBlockUsed block
  modifyInode 0 fun root => { root with direct0 := block }
  let s ← get
  diskWriteLba dev 512 (s.sectorOf 0) Bytes.zero
  flushTables dev

/-- First half of `write_sys_file`: the inode of the `sys` directory, made when
it is missing. Inode and block are taken before a free slot is looked for. -/
def ensureSysDir (dev : Device) : FsM InodeNo := do
  let s ← get
  match findDirEntry sysName s.blockScratch s.inodes inodeDir with
  | none =>
      let sysInode ← demand (allocInodeRaw s.toVolume)
      let sysBlock ← demand (allocBlockRaw s.toVolume)
      markBlockUsed sysBlock
      modifyInode sysInode fun ino => ino.fresh inodeDir 0 sysBlock
      let freeSlot ← demand (firstFreeSlot s.blockScratch)
      modify fun s => { s with blockScratch := fillEntry s.blockScratch freeSlot sysInode sysName }
      modify fun s => { s with blockScratch2 := Bytes.zero }
      let s ← get
      diskWriteLba dev 512 (s.sectorOf sysInode) s.blockScratch2
      return sysInode
  | some sysEntry =>
      let sysInode ← demand (inodeIndex (entryInode s.blockScratch sysEntry))
      require ((s.inodes sysInode).type = inodeDir ∧ (s.inodes sysInode).direct0 ≠ 0)
      return sysInode

/-- Second half: the inode of the file in `g_block_scratch2`, found or made. -/
def ensureSysEntry (filename : CStr) (len : UInt32) : FsM InodeNo := do
  let s ← get
  match findDirEntry filename s.blockScratch2 s.inodes inodeFile with
  | none =>
      let fileInode ← demand (allocInodeRaw s.toVolume)
      let fileBlock ← demand (allocBlockRaw s.toVolume)
      markBlockUsed fileBlock
      modifyInode fileInode fun ino => ino.fresh inodeFile len fileBlock
      let freeSlot ← demand (firstFreeSlot s.blockScratch2)
      modify fun s =>
        { s with blockScratch2 := fillEntry s.blockScratch2 freeSlot fileInode filename }
      return fileInode
  | some fileEntry =>
      let fileInode ← demand (inodeIndex (entryInode s.blockScratch2 fileEntry))
      modifyInode fileInode fun ino => { ino with size := len }
      return fileInode

/-- Directory block, data and tables are written once the file has an inode. -/
def writeSysEntry (dev : Device) (sysInode : InodeNo) (filename : CStr) (data : List UInt8) :
    FsM Unit := do
  let fileInode ← ensureSysEntry filename (UInt32.ofNat data.length)
  let s ← get
  diskWriteLba dev 512 (s.sectorOf sysInode) s.blockScratch2
  modify fun s => { s with blockScratch := Bytes.zero.paste 0 (data.take 512) }
  let s ← get
  diskWriteLba dev 512 (s.sectorOf fileInode) s.blockScratch
  flushTables dev

def writeSysFile (dev : Device) (filename : CStr) (data : List UInt8) : FsM Unit := do
  ensureRootDirBlock dev
  readRootDirBlock dev
  let sysInode ← ensureSysDir dev
  let s ← get
  diskWriteLba dev 512 (s.sectorOf 0) s.blockScratch
  loadScratch2 dev (s.sectorOf sysInode)
  writeSysEntry dev sysInode filename data

def readSysFile (dev : Device) (filename : CStr) (maxlen : UInt32) : FsM (List UInt8) := do
  let s ← get
  require s.mounted
  require ((s.inodes 0).used ≠ 0 ∧ (s.inodes 0).direct0 ≠ 0)
  loadScratch dev (s.sectorOf 0)
  let s ← get
  let sysIdx ← demand (findDirEntry sysName s.blockScratch s.inodes inodeDir)
  let sysInode ← demand (inodeIndex (entryInode s.blockScratch sysIdx))
  require ((s.inodes sysInode).type = inodeDir ∧ (s.inodes sysInode).direct0 ≠ 0)
  loadScratch2 dev (s.sectorOf sysInode)
  let s ← get
  let fileIdx ← demand (findDirEntry filename s.blockScratch2 s.inodes inodeFile)
  let fileInode ← demand (inodeIndex (entryInode s.blockScratch2 fileIdx))
  require ((s.inodes fileInode).direct0 ≠ 0)
  loadScratch dev (s.sectorOf fileInode)
  let s ← get
  let sz := min (s.inodes fileInode).size maxlen
  return s.blockScratch.firstBytes sz.toNat

/-- `block != 0 && block < g_sb.block_count`: the block pointer can be given back. -/
def blockFreeable (v : Volume) (block : UInt32) : Prop := block ≠ 0 ∧ block < v.sb.blockCount

instance (v : Volume) (block : UInt32) : Decidable (blockFreeable v block) :=
  inferInstanceAs (Decidable (_ ∧ _))

/-- Give an inode's block back: clear its bit, then overwrite its sector with zeros. -/
def releaseBlock (dev : Device) (inode : InodeNo) : FsM Unit := do
  let s ← get
  if blockFreeable s.toVolume (s.inodes inode).direct0 then
    markBlockFree (s.inodes inode).direct0
    diskWriteLba dev 512 (s.sectorOf inode) Bytes.zero

def removeEntryFromDir (dev : Device) (dir : InodeNo) (filename : CStr) : FsM Unit := do
  let s ← get
  require ((s.inodes dir).direct0 ≠ 0)
  loadScratch dev (s.sectorOf dir)
  let s ← get
  match scanEntries rootOrOutOfTable filename inodeFile s.blockScratch s.inodes with
  | .bad => refuse
  | .absent _ => refuse
  | .found target inode =>
      require ((s.inodes inode).type = inodeFile)
      if blockFreeable s.toVolume (s.inodes inode).direct0 then
        markBlockFree (s.inodes inode).direct0
        modify fun s => { s with blockScratch2 := Bytes.zero }
        let s ← get
        diskWriteLba dev 512 (s.sectorOf inode) s.blockScratch2
      modify fun s => { s with blockScratch := clearEntry s.blockScratch target }
      modifyInode inode fun _ => Inode.zero
      let s ← get
      diskWriteLba dev 512 (s.sectorOf dir) s.blockScratch
      flushTables dev

/-- There are 64 inodes: calls of `remove_dir_contents` that nest deeper go in a circle. -/
def dirNesting : Nat := 64

/-- `remove_dir_contents`; the first argument bounds the nesting of its calls. -/
def removeDirContents (dev : Device) : Nat → InodeNo → FsM Unit
  | 0, _ => diverge
  | frames + 1, dirInode => do
      let s ← get
      require (dirInode ≠ 0)
      require (isDirInode s.toVolume dirInode)
      let dirBlock ← diskReadLba dev 512 (s.sectorOf dirInode)
      let dirBlock ← slots.foldlM (fun (dirBlock : Block) (i : Slot) =>
        if entryUsed dirBlock i = false then pure dirBlock
        else do
          require (rootOrOutOfTable (entryInode dirBlock i) = false)
          let inode ← demand (inodeIndex (entryInode dirBlock i))
          let s ← get
          if (s.inodes inode).type = inodeDir then removeDirContents dev frames inode
          else require ((s.inodes inode).type = inodeFile)
          releaseBlock dev inode
          modifyInode inode fun _ => Inode.zero
          return clearEntry dirBlock i) dirBlock
      let s ← get
      diskWriteLba dev 512 (s.sectorOf dirInode) dirBlock

/-- The two scans of `remove_entry_from_dir_recursive`: a directory of this name
before a file of this name. -/
def findRemovable (name : CStr) (b : Block) (inodes : InodeNo → Inode) : Scan :=
  match scanEntries rootOrOutOfTable name inodeDir b inodes with
  | .absent _ => scanEntries rootOrOutOfTable name inodeFile b inodes
  | hit => hit

def removeEntryFromDirRecursive (dev : Device) (dir : InodeNo) (filename : CStr) : FsM Unit := do
  let s ← get
  require ((s.inodes dir).direct0 ≠ 0)
  let dirBlock ← diskReadLba dev 512 (s.sectorOf dir)
  match findRemovable filename dirBlock s.inodes with
  | .bad => refuse
  | .absent _ => refuse
  | .found target inode =>
      if (s.inodes inode).type = inodeDir then removeDirContents dev dirNesting inode
      else require ((s.inodes inode).type = inodeFile)
      releaseBlock dev inode
      modifyInode inode fun _ => Inode.zero
      let s ← get
      diskWriteLba dev 512 (s.sectorOf dir) (clearEntry dirBlock target)
      flushTables dev

end SevenOS
