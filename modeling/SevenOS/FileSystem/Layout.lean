import SevenOS.Lib.Bytes
import SevenOS.Lib.CStr

/-! # On-disk layout

The superblock, the inode table and the directory blocks as packed bytes.
`g_inodes` lives in memory as records and on disk as eight sectors of eight
64-byte inodes; a directory block is sixteen 32-byte entries and is only ever
seen as bytes.
-/

namespace SevenOS

def fsMagic : UInt32 := 0x7A4F5346
def fsVersion : UInt32 := 1
def fsBlockSize : UInt32 := 512
def fsSuperLba : UInt32 := 128
def fsBitmapLba : UInt32 := 129
def fsBitmapSectors : Nat := 8
def fsMaxInodes : UInt32 := 64
def fsInodeTableLba : UInt32 := 137
def fsInodeTableSectors : Nat := 8
def fsDataLba : UInt32 := 145

/-- `FS_BLOCK_SIZE * 8u * FS_BITMAP_SECTORS`, the blocks the bitmap can name. -/
def maxBlocks : UInt32 := 32768

def inodeFile : UInt8 := 1
def inodeDir : UInt8 := 2

/-- One sector, or one file-system block. -/
abbrev Block : Type := Bytes 512

/-- `g_bitmap`: eight sectors. -/
abbrev Bitmap : Type := Bytes 4096

/-- An index into `g_inodes`. -/
abbrev InodeNo : Type := Fin 64

/-- An index into the entries of a directory block. -/
abbrev Slot : Type := Fin 16

instance neZeroInodes : @NeZero Nat Zero.ofOfNat0 64 := Nat.instNeZeroSucc

structure Superblock where
  magic : UInt32
  version : UInt32
  blockSize : UInt32
  inodeCount : UInt32
  blockCount : UInt32
  inodeTableLba : UInt32
  bitmapLba : UInt32
  dataLba : UInt32
  deriving DecidableEq

/-- `rest` is `direct[1..7]` and `reserved`, which the code only moves around. -/
@[ext] structure Inode where
  used : UInt8
  type : UInt8
  links : UInt16
  size : UInt32
  direct0 : UInt32
  rest : Bytes 52

def Inode.zero : Inode := ⟨0, 0, 0, 0, 0, Bytes.zero⟩

/-- A directory entry as the listing calls hand it out. -/
@[ext] structure DirEntry where
  used : UInt8
  inode : UInt8
  name : Bytes 30

/-! ## Packed records -/

/-- The 32 bytes of the superblock; the sector goes on with whatever follows it. -/
def Superblock.encode (sb : Superblock) (past : Bytes 480) : Block := fun i =>
  let fields := [sb.magic, sb.version, sb.blockSize, sb.inodeCount, sb.blockCount,
    sb.inodeTableLba, sb.bitmapLba, sb.dataLba].flatMap Bytes.bytesOf32
  if i.val < 32 then fields.getD i.val 0 else past.at_ (i.val - 32)

def Superblock.decode (b : Block) : Superblock where
  magic := b.get32 0
  version := b.get32 4
  blockSize := b.get32 8
  inodeCount := b.get32 12
  blockCount := b.get32 16
  inodeTableLba := b.get32 20
  bitmapLba := b.get32 24
  dataLba := b.get32 28

def Inode.byteAt (ino : Inode) (i : Nat) : UInt8 :=
  if i < 12 then
    (ino.used :: ino.type :: Bytes.bytesOf16 ino.links ++ Bytes.bytesOf32 ino.size ++
      Bytes.bytesOf32 ino.direct0).getD i 0
  else ino.rest.at_ (i - 12)

def Inode.decode (b : Block) (off : Nat) : Inode where
  used := b.at_ off
  type := b.at_ (off + 1)
  links := b.get16 (off + 2)
  size := b.get32 (off + 4)
  direct0 := b.get32 (off + 8)
  rest := fun i => b.at_ (off + 12 + i.val)

/-- Sector `k` of the inode table. -/
def inodeSector (inodes : InodeNo → Inode) (k : Nat) : Block := fun i =>
  if h : 8 * k + i.val / 64 < 64 then (inodes ⟨8 * k + i.val / 64, h⟩).byteAt (i.val % 64) else 0

/-- Take the inodes `8 * k` to `8 * k + 7` from a sector. -/
def storeInodeSector (inodes : InodeNo → Inode) (k : Nat) (b : Block) : InodeNo → Inode :=
  fun i => if i.val / 8 = k then Inode.decode b (64 * (i.val % 8)) else inodes i

/-- Sector `k` of the bitmap. -/
def bitmapSector (bitmap : Bitmap) (k : Nat) : Block := fun i => bitmap.at_ (512 * k + i.val)

def storeBitmapSector (bitmap : Bitmap) (k : Nat) (b : Block) : Bitmap := fun i =>
  if i.val / 512 = k then b.at_ (i.val % 512) else bitmap i

/-! ### What is encoded is decoded -/

theorem Superblock.decode_encode (sb : Superblock) (past : Bytes 480) :
    Superblock.decode (sb.encode past) = sb := by
  simp [Superblock.decode, Superblock.encode, Bytes.get32, Bytes.at_, Bytes.bytesOf32]

theorem Superblock.encode_get32 (sb : Superblock) (past : Bytes 480) {i : Nat} (hbehind : 32 ≤ i)
    (hi : i + 4 ≤ 512) : (sb.encode past).get32 i = past.get32 (i - 32) := by
  have hat : ∀ k, k < 4 → (sb.encode past).at_ (i + k) = past.at_ (i - 32 + k) := by
    intro k hk
    rw [Bytes.at_, dif_pos (by omega : i + k < 512), Superblock.encode,
      if_neg (by change ¬i + k < 32; omega)]
    congr 1
    change i + k - 32 = i - 32 + k
    omega
  have h0 := hat 0 (by decide)
  rw [Nat.add_zero, Nat.add_zero] at h0
  rw [Bytes.get32, Bytes.get32, h0, hat 1 (by decide), hat 2 (by decide), hat 3 (by decide)]

theorem inodeSector_at (inodes : InodeNo → Inode) (i : InodeNo) {j : Nat} (hj : j < 64) :
    (inodeSector inodes (i.val / 8)).at_ (64 * (i.val % 8) + j) = (inodes i).byteAt j := by
  have hlt : 64 * (i.val % 8) + j < 512 := by omega
  have hindex : 8 * (i.val / 8) + (64 * (i.val % 8) + j) / 64 = i.val := by omega
  have hoff : (64 * (i.val % 8) + j) % 64 = j := by omega
  simp [Bytes.at_, hlt, inodeSector, hindex, hoff]

theorem decode_inodeSector (inodes : InodeNo → Inode) (i : InodeNo) :
    Inode.decode (inodeSector inodes (i.val / 8)) (64 * (i.val % 8)) = inodes i := by
  have hat := fun j hj => inodeSector_at inodes i (j := j) hj
  have h0 := hat 0 (by decide)
  simp only [Nat.add_zero] at h0
  apply Inode.ext
  · rw [Inode.decode, h0]; rfl
  · rw [Inode.decode, hat 1 (by decide)]; rfl
  · simp only [Inode.decode, Bytes.get16, Nat.add_assoc]
    rw [hat 2 (by decide), hat 3 (by decide)]
    exact Bytes.word16_bytesOf16 _
  · simp only [Inode.decode, Bytes.get32, Nat.add_assoc]
    rw [hat 4 (by decide), hat 5 (by decide), hat 6 (by decide), hat 7 (by decide)]
    exact Bytes.word32_bytesOf32 _
  · simp only [Inode.decode, Bytes.get32, Nat.add_assoc]
    rw [hat 8 (by decide), hat 9 (by decide), hat 10 (by decide), hat 11 (by decide)]
    exact Bytes.word32_bytesOf32 _
  · funext j
    have hj : 12 + j.val < 64 := by omega
    simp only [Inode.decode, Nat.add_assoc]
    rw [hat _ hj]
    simp [Inode.byteAt, Bytes.at_, show ¬ 12 + j.val < 12 by omega]

end SevenOS
