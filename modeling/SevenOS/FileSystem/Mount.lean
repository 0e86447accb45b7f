import SevenOS.FileSystem.SysFile

/-! # Mounting, formatting, passwords

`fs_init` overwrites the superblock before it looks at it, and every later step
of a mount that fails leaves what was read so far in memory.
-/

namespace SevenOS

open Prog

/-- `g_last_error = error; g_mounted = false; return false;` -/
def failMount (error : FsError) : FsM Unit := do
  modify fun s => { s with lastError := error, mounted := false }
  refuse

/-- Run a step; when it is refused, go on with `handler`. -/
def orElse (m handler : FsM Unit) : FsM Unit := fun s =>
  match m s with
  | (.refused, s') => handler s'
  | r => r

theorem wp_orElse {m handler : FsM Unit} {Q : Unit → Fs → Prop} {R D : Fs → Prop} {s : Fs} :
    wp (orElse m handler) Q R D s ↔ wp m Q (fun s' => wp handler Q R D s') D s := by
  simp only [wp, orElse]
  rcases m s with ⟨_ | _ | _, s'⟩ <;> rfl

def loadSuperblock (dev : Device) : FsM Unit :=
  diskReadSectors dev 32 fsSuperLba 1 fun _ b s => { s with sb := Superblock.decode b }

def loadBitmap (dev : Device) : FsM Unit := do
  let s ← get
  diskReadSectors dev 4096 s.sb.bitmapLba fsBitmapSectors fun k b s =>
    { s with bitmap := storeBitmapSector s.bitmap k b }

def loadInodes (dev : Device) : FsM Unit := do
  let s ← get
  diskReadSectors dev 4096 s.sb.inodeTableLba fsInodeTableSectors fun k b s =>
    { s with inodes := storeInodeSector s.inodes k b }

def fsInit (dev : Device) : FsM Unit := do
  orElse (loadSuperblock dev) (failMount .io)
  let s ← get
  if s.sb.magic ≠ fsMagic ∨ s.sb.blockSize ≠ fsBlockSize then failMount .badMagic
  orElse (loadBitmap dev) (failMount .io)
  orElse (loadInodes dev) (failMount .io)
  modify fun s => { s with lastError := .none, mounted := true }

/-- The block count `fs_format` settles on. -/
def formatBlocks (dev : Device) (totalBlocks : UInt32) : UInt32 :=
  if totalBlocks = 0 then
    match dev.sectorCount with
    | some sectors =>
        if fsDataLba.toUInt64 < sectors then
          let usable := sectors - fsDataLba.toUInt64
          if maxBlocks.toUInt64 < usable then maxBlocks else usable.toUInt32
        else maxBlocks
    | none => maxBlocks
  else if maxBlocks < totalBlocks then maxBlocks
  else totalBlocks

def formatSuperblock (totalBlocks inodeCount : UInt32) : Superblock where
  magic := fsMagic
  version := fsVersion
  blockSize := fsBlockSize
  inodeCount := inodeCount
  blockCount := totalBlocks
  inodeTableLba := fsInodeTableLba
  bitmapLba := fsBitmapLba
  dataLba := fsDataLba

/-- `hash_buf`: the four bytes of a hash, low byte first. -/
def hashBytes (hash : UInt32) : List UInt8 :=
  [(hash &&& 0xFF).toUInt8, ((hash >>> 8) &&& 0xFF).toUInt8, ((hash >>> 16) &&& 0xFF).toUInt8,
    ((hash >>> 24) &&& 0xFF).toUInt8]

def fnv1a32 (s : CStr) : UInt32 :=
  s.chars.foldl (fun hash c => (hash ^^^ c.toUInt32) * 16777619) 2166136261

def fsHashPassword (s : CStr) : UInt32 := fnv1a32 s

/-- "password123" -/
def defaultPassword : CStr :=
  ⟨[112, 97, 115, 115, 119, 111, 114, 100, 49, 50, 51], by simp⟩

def writeStatusFlag (dev : Device) (value : UInt8) : FsM Unit :=
  writeSysFile dev statusName [value]

/-- Write `g_sb`: the sector takes the 480 bytes behind it along. -/
def writeSuperblock (dev : Device) : FsM Unit := do
  let s ← get
  diskWriteLba dev 32 fsSuperLba (s.sb.encode (dev.pastSb s))

def fsFormat (dev : Device) (totalBlocks inodeCount : UInt32) : FsM Unit := do
  let inodeCount := if fsMaxInodes < inodeCount then fsMaxInodes else inodeCount
  modify fun s =>
    { s with
      sb := formatSuperblock (formatBlocks dev totalBlocks) inodeCount
      bitmap := Bytes.zero
      inodes := fun _ => Inode.zero }
  modifyInode 0 fun root =>
    { root with used := 1, type := inodeDir, links := 1, size := 0, direct0 := 0 }
  ensureRootDirBlock dev
  writeSuperblock dev
  flushBitmap dev
  flushInodes dev
  writeStatusFlag dev 0xFF
  writeSysFile dev passwdName (hashBytes (fnv1a32 defaultPassword))
  modify fun s => { s with lastError := .none, mounted := true }

/-- What `fs_format` has in memory when it comes to the root block. -/
def Fs.cleared (dev : Device) (totalBlocks inodeCount : UInt32) (s : Fs) : Fs :=
  { s with
    sb := formatSuperblock (formatBlocks dev totalBlocks)
      (if fsMaxInodes < inodeCount then fsMaxInodes else inodeCount)
    bitmap := Bytes.zero
    inodes := assign (fun _ => Inode.zero) 0
      { Inode.zero with used := 1, type := inodeDir, links := 1 } }

/-- The bytes behind `g_sb` when `fs_format` writes it. -/
def pastFormatted (dev : Device) (totalBlocks inodeCount : UInt32) (s : Fs) : Bytes 480 :=
  dev.pastSb (ensureRootDirBlock dev (s.cleared dev totalBlocks inodeCount)).2

/-- The checks `fs_is_formatted` makes on each inode it follows. -/
def formattedInode (sb : Superblock) (ino : Inode) : Prop :=
  ino.used ≠ 0 ∧ ino.direct0 ≠ 0 ∧ ino.direct0 < sb.blockCount

instance (sb : Superblock) (ino : Inode) : Decidable (formattedInode sb ino) :=
  inferInstanceAs (Decidable (_ ∧ _ ∧ _))

/-- What `fs_is_formatted` does with its superblock; the inode table goes to `g_inode_scratch`. -/
def checkFormat (dev : Device) (sb : Superblock) : FsM Unit := do
  require (sb.magic = fsMagic ∧ sb.blockSize = fsBlockSize)
  diskReadSectors dev 4096 sb.inodeTableLba fsInodeTableSectors fun k b s =>
    { s with inodeScratch := storeInodeSector s.inodeScratch k b }
  let s ← get
  let root := s.inodeScratch 0
  require (root.type = inodeDir ∧ formattedInode sb root)
  loadScratch dev (sb.dataLba + root.direct0)
  let s ← get
  let sysEntry ← demand (findDirEntry sysName s.blockScratch s.inodeScratch inodeDir)
  let sysInode ← demand (inodeIndex (entryInode s.blockScratch sysEntry))
  let sysDir := s.inodeScratch sysInode
  require (sysDir.type = inodeDir ∧ formattedInode sb sysDir)
  loadScratch2 dev (sb.dataLba + sysDir.direct0)
  let s ← get
  let statusEntry ← demand (findDirEntry statusName s.blockScratch2 s.inodeScratch inodeFile)
  let statusInode ← demand (inodeIndex (entryInode s.blockScratch2 statusEntry))
  let status := s.inodeScratch statusInode
  require (formattedInode sb status)
  loadScratch dev (sb.dataLba + status.direct0)
  let s ← get
  require (s.blockScratch.at_ 0 = 0xFF)

/-- A function whose frame had `b` written over it. It runs to its end, but only if the return
address is what it was does it come back to its caller. -/
def CallFrame.returning (frame : CallFrame) (b : Block) (m : FsM Unit) : FsM Unit := fun s =>
  if b.get32 frame.returnAt = frame.returnTo then m s else (.diverged, (m s).2)

theorem CallFrame.wp_returning (frame : CallFrame) (b : Block) {m : FsM Unit}
    {Q : Unit → Fs → Prop} {R D : Fs → Prop} {s : Fs} :
    wp (frame.returning b m) Q R D s ↔
      if b.get32 frame.returnAt = frame.returnTo then wp m Q R D s else D (m s).2 := by
  by_cases hkept : b.get32 frame.returnAt = frame.returnTo
  · rw [if_pos hkept, wp, returning, if_pos hkept]
    rfl
  · rw [if_neg hkept, wp, returning, if_neg hkept]

theorem CallFrame.ends_returning (frame : CallFrame) (b : Block) {m : FsM Unit} {P : Fs → Prop}
    {s : Fs} (h : Ends P m s) : Ends P (frame.returning b m) s := by
  refine (frame.wp_returning b).mpr ?_
  split
  · exact h
  · rcases wp_run h rfl with ⟨_, -, hleft⟩ | ⟨-, hleft⟩ | ⟨-, hleft⟩ <;> exact hleft

/-- The whole sector goes to a superblock on the stack, and with it over what lies behind. -/
def fsIsFormatted (dev : Device) : FsM Unit := do
  let b ← diskReadLba dev 32 fsSuperLba
  dev.frame.returning b (checkFormat dev (Superblock.decode b))

def fsWritePasswd (dev : Device) (hash : UInt32) : FsM Unit :=
  writeSysFile dev passwdName (hashBytes hash)

/-- Put the four bytes of a hash together again. -/
def hashOfBytes (buf : List UInt8) : UInt32 :=
  (buf.getD 0 0).toUInt32 ||| ((buf.getD 1 0).toUInt32 <<< 8) |||
    ((buf.getD 2 0).toUInt32 <<< 16) ||| ((buf.getD 3 0).toUInt32 <<< 24)

theorem hashOfBytes_hashBytes (hash : UInt32) : hashOfBytes (hashBytes hash) = hash := by
  have hmask : ∀ i, (255#32).getLsbD i = decide (i < 8) := by
    intro i
    by_cases hi : i < 32
    · revert i
      decide
    · rw [BitVec.getLsbD_of_ge _ _ (by omega)]
      exact (decide_eq_false (by omega)).symm
  apply UInt32.toBitVec_inj.mp
  apply BitVec.eq_of_getLsbD_eq
  intro i hi
  simp only [hashOfBytes, hashBytes, List.getD_cons_zero, List.getD_cons_succ, UInt32.toBitVec_or,
    UInt32.toBitVec_shiftLeft, UInt8.toBitVec_toUInt32, UInt32.toBitVec_toUInt8]
  simp [hmask]
  -- each of the four bytes holds eight bits
  rcases (by omega : i < 8 ∨ 8 ≤ i ∧ i < 16 ∨ 16 ≤ i ∧ i < 24 ∨ 24 ≤ i ∧ i < 32) with
    h | h | h | h <;> grind

def fsReadPasswd (dev : Device) : FsM UInt32 := do
  let buf ← readSysFile dev passwdName 4
  require (4 ≤ buf.length)
  return hashOfBytes buf

end SevenOS
