import SevenOS.Lib.Prog
import SevenOS.FileSystem.Layout

/-! # Machine state and disk transfers

The kernel variables of the file system together with the disk. A transfer that
fails makes its caller return false; whether it fails is up to the device, which
may look at the whole state. Every call is noted with the size of the object its
buffer points to.
-/

namespace SevenOS

inductive FsError where
  | none
  | io
  | badMagic
  deriving DecidableEq

/-- One call of `disk_read_lba` or `disk_write_lba`. -/
structure Transfer where
  write : Bool
  lba : UInt32
  sectors : Nat
  object : Nat
  deriving DecidableEq

/-- What the file system keeps from one call to the next. -/
structure Volume where
  sb : Superblock
  bitmap : Bitmap
  inodes : InodeNo → Inode
  mounted : Bool
  disk : UInt32 → Block

structure Fs extends Volume where
  lastError : FsError
  inodeScratch : InodeNo → Inode
  blockScratch : Block
  blockScratch2 : Block
  log : List Transfer

/-- The stack at a call with a superblock among its locals: `returnTo`, the address that it
returns to, lies `returnAt` bytes from the start of the superblock. All the locals of
`fs_is_formatted` together have 252 bytes, so a sector over the superblock reaches it. -/
structure CallFrame where
  returnAt : Nat
  returnTo : UInt32
  behind : 32 ≤ returnAt
  reached : returnAt + 4 ≤ 512

/-- The hardware and the surroundings of the kernel variables. `writeFault` gives
what a failing write leaves in its sector, `pastSb` the memory behind `g_sb`, `frame` the
stack when `fs_is_formatted` is called. -/
structure Device where
  sectorCount : Option UInt64
  readFails : Fs → UInt32 → Bool
  writeFault : Fs → UInt32 → Option Block
  pastSb : Fs → Bytes 480
  frame : CallFrame

abbrev FsM (α : Type) : Type := Prog Fs α

open Prog

def note (t : Transfer) : FsM Unit := modify fun s => { s with log := s.log ++ [t] }

/-- `ata_read_sectors`, sector by sector: what was stored before a failure stays. -/
def diskReadSectors (dev : Device) (object : Nat) (lba : UInt32) (sectors : Nat)
    (store : Nat → Block → Fs → Fs) : FsM Unit := do
  note ⟨false, lba, sectors, object⟩
  (List.range sectors).foldlM (fun _ k => do
    let s ← get
    require (dev.readFails s (lba + UInt32.ofNat k) = false)
    modify (store k (s.disk (lba + UInt32.ofNat k)))) ()

def writeSector (dev : Device) (lba : UInt32) (b : Block) : FsM Unit := do
  let s ← get
  match dev.writeFault s lba with
  | none => modify fun s => { s with disk := assign s.disk lba b }
  | some left =>
      modify fun s => { s with disk := assign s.disk lba left }
      refuse

def diskWriteSectors (dev : Device) (object : Nat) (lba : UInt32) (sectors : Nat)
    (data : Nat → Block) : FsM Unit := do
  note ⟨true, lba, sectors, object⟩
  (List.range sectors).foldlM (fun _ k => writeSector dev (lba + UInt32.ofNat k) (data k)) ()

/-- `disk_read_lba(lba, buffer, 1)`; the caller stores the sector. -/
def diskReadLba (dev : Device) (object : Nat) (lba : UInt32) : FsM Block := do
  note ⟨false, lba, 1, object⟩
  let s ← get
  require (dev.readFails s lba = false)
  return s.disk lba

/-- `disk_write_lba(lba, buffer, 1)`. -/
def diskWriteLba (dev : Device) (object : Nat) (lba : UInt32) (b : Block) : FsM Unit := do
  note ⟨true, lba, 1, object⟩
  writeSector dev lba b

/-- Read one sector into `g_block_scratch`. -/
def loadScratch (dev : Device) (lba : UInt32) : FsM Unit := do
  let b ← diskReadLba dev 512 lba
  modify fun s => { s with blockScratch := b }

/-- Read one sector into `g_block_scratch2`. -/
def loadScratch2 (dev : Device) (lba : UInt32) : FsM Unit := do
  let b ← diskReadLba dev 512 lba
  modify fun s => { s with blockScratch2 := b }

/-- The sector of a file-system block. -/
def Volume.dataSector (v : Volume) (block : UInt32) : UInt32 := v.sb.dataLba + block

/-- The sector `g_inodes[i].direct[0]` points at. -/
def Volume.sectorOf (v : Volume) (i : InodeNo) : UInt32 := v.dataSector (v.inodes i).direct0

def modifyInode (i : InodeNo) (f : Inode → Inode) : FsM Unit :=
  modify fun s => { s with inodes := assign s.inodes i (f (s.inodes i)) }

def markBlockUsed (index : UInt32) : FsM Unit :=
  modify fun s => { s with bitmap := s.bitmap.setBit index.toNat }

def markBlockFree (index : UInt32) : FsM Unit :=
  modify fun s => { s with bitmap := s.bitmap.clearBit index.toNat }

def flushBitmap (dev : Device) : FsM Unit := do
  let s ← get
  diskWriteSectors dev 4096 s.sb.bitmapLba fsBitmapSectors (bitmapSector s.bitmap)

def flushInodes (dev : Device) : FsM Unit := do
  let s ← get
  diskWriteSectors dev 4096 s.sb.inodeTableLba fsInodeTableSectors (inodeSector s.inodes)

/-- `return flush_bitmap() && flush_inodes();` -/
def flushTables (dev : Device) : FsM Unit := do
  flushBitmap dev
  flushInodes dev

/-! ## Allocation -/

def blockLimit (sb : Superblock) : UInt32 :=
  if sb.blockCount = 0 ∨ maxBlocks < sb.blockCount then maxBlocks else sb.blockCount

def inodeLimit (sb : Superblock) : UInt32 :=
  if sb.inodeCount = 0 ∨ fsMaxInodes < sb.inodeCount then fsMaxInodes else sb.inodeCount

/-- The scan of `alloc_inode_raw` and `find_free_inode`. -/
def allocInodeRaw (v : Volume) : Option InodeNo :=
  (List.finRange 64).find? fun i =>
    1 ≤ i.val ∧ i.val < (inodeLimit v.sb).toNat ∧ (v.inodes i).used = 0

/-- The scan of `alloc_block_raw`, `find_free_block` and `ensure_root_dir_block`. -/
def allocBlockRaw (v : Volume) : Option UInt32 :=
  ((List.range' 1 ((blockLimit v.sb).toNat - 1)).find? fun i => !v.bitmap.testBit i).map
    UInt32.ofNat

def findFreeInode (v : Volume) : Option InodeNo := if v.mounted then allocInodeRaw v else none

def findFreeBlock (v : Volume) : Option UInt32 := if v.mounted then allocBlockRaw v else none

end SevenOS
