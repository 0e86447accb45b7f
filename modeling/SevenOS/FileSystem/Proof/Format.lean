import SevenOS.FileSystem.Proof.SysSpecs

/-! # Formatting

A successful `fs_format` leaves a volume that satisfies the invariant and whose
superblock and inode table are on the disk as they are in memory.
-/

namespace SevenOS

open Prog

variable {dev : Device} {stray : InodeNo → Prop} {v : Volume} {s : Fs}

/-- The superblock on the disk is the one in memory, and `fs_init` accepts it. -/
structure Headed (v : Volume) : Prop where
  superblock : Superblock.decode (v.disk fsSuperLba) = v.sb
  magic : v.sb.magic = fsMagic
  blockSize : v.sb.blockSize = fsBlockSize

/-- What the inode table on the disk says of an inode. -/
def Volume.inodeOnDisk (v : Volume) (i : InodeNo) : Inode :=
  Inode.decode (v.disk (v.sb.inodeTableLba + UInt32.ofNat (i.val / 8))) (64 * (i.val % 8))

/-- The bitmap as it is on the disk. -/
def Volume.bitmapOnDisk (v : Volume) : Bitmap := fun i =>
  (v.disk (v.sb.bitmapLba + UInt32.ofNat (i.val / 512))).at_ (i.val % 512)

/-- So are the tables, but for inodes that were taken and not flushed: neither they nor
their blocks are on the disk. -/
structure Synced (unflushed : InodeNo → Prop) (v : Volume) : Prop extends Headed v where
  inodes : ∀ i, ¬ unflushed i → v.inodeOnDisk i = v.inodes i
  zeroed : ∀ i, unflushed i → v.inodeOnDisk i = Inode.zero
  bits : ∀ b, b < 32768 → (v.bitmapOnDisk.testBit b = true ↔
    v.bitmap.testBit b = true ∧ ¬ ∃ i, unflushed i ∧ (v.inodes i).direct0.toNat = b)

theorem Volume.Layout.disk_setData (h : v.Layout) {b : UInt32} (hb : b.toNat < 32768)
    (x : Block) {l : UInt32} (hl : l.toNat < 145) : (v.setData b x).disk l = v.disk l :=
  assign_of_ne _ _ (h.dataSector_ne hb hl).symm

theorem Volume.Layout.tableSector_lt (h : v.Layout) (i : InodeNo) :
    (v.sb.inodeTableLba + UInt32.ofNat (i.val / 8)).toNat < 145 := by
  have hi := i.isLt
  have hlba : fsInodeTableLba.toNat = 137 := rfl
  rw [h.inodeTableLba, Volume.table_toNat (by decide) (by omega)]
  omega

theorem Headed.setData (h : Headed v) (hl : v.Layout) {b : UInt32} (hb : b.toNat < 32768)
    (x : Block) : Headed (v.setData b x) := by
  refine ⟨?_, h.magic, h.blockSize⟩
  rw [hl.disk_setData hb x (by decide)]
  exact h.superblock

theorem Volume.Layout.bitmapSector_lt (h : v.Layout) (i : Fin 4096) :
    (v.sb.bitmapLba + UInt32.ofNat (i.val / 512)).toNat < 145 := by
  have hi := i.isLt
  have hlba : fsBitmapLba.toNat = 129 := rfl
  rw [h.bitmapLba, Volume.table_toNat (by decide) (by omega)]
  omega

theorem Volume.Layout.inodeOnDisk_setData (h : v.Layout) {b : UInt32} (hb : b.toNat < 32768)
    (x : Block) (i : InodeNo) : (v.setData b x).inodeOnDisk i = v.inodeOnDisk i := by
  rw [Volume.inodeOnDisk, Volume.sb_setData, h.disk_setData hb x (h.tableSector_lt i)]
  rfl

theorem Volume.Layout.bitmapOnDisk_setData (h : v.Layout) {b : UInt32} (hb : b.toNat < 32768)
    (x : Block) : (v.setData b x).bitmapOnDisk = v.bitmapOnDisk := by
  funext i
  rw [Volume.bitmapOnDisk, Volume.sb_setData, h.disk_setData hb x (h.bitmapSector_lt i)]
  rfl

theorem Synced.setData {unflushed : InodeNo → Prop} (h : Synced unflushed v) (hl : v.Layout)
    {b : UInt32} (hb : b.toNat < 32768) (x : Block) : Synced unflushed (v.setData b x) := by
  refine ⟨h.toHeaded.setData hl hb x, ?_, ?_, ?_⟩
  · intro i hi
    rw [hl.inodeOnDisk_setData hb]
    exact h.inodes i hi
  · intro i hi
    rw [hl.inodeOnDisk_setData hb]
    exact h.zeroed i hi
  · rw [hl.bitmapOnDisk_setData hb]
    exact h.bits

theorem table_ne {base base' : UInt32} (h : base.toNat ≤ 137) (h' : base'.toNat ≤ 137)
    (hfar : base.toNat + 8 ≤ base'.toNat ∨ base'.toNat + 8 ≤ base.toNat) {k k' : Nat} (hk : k < 8)
    (hk' : k' < 8) : base + UInt32.ofNat k ≠ base' + UInt32.ofNat k' := by
  intro heq
  have := congrArg UInt32.toNat heq
  rw [Volume.table_toNat h hk, Volume.table_toNat h' hk'] at this
  omega

theorem Volume.inodeOnDisk_flush (v : Volume) (i : InodeNo) :
    v.flush.inodeOnDisk i = v.inodes i := by
  have hi := i.isLt
  rw [Volume.inodeOnDisk]
  change Inode.decode (Volume.writeSectors _ v.sb.inodeTableLba _ _
    (v.sb.inodeTableLba + UInt32.ofNat (i.val / 8))) _ = _
  rw [Volume.writeSectors_inside _ _ _ _ (by decide) (by change i.val / 8 < 8; omega)]
  exact decode_inodeSector v.inodes i

theorem Volume.Layout.bitmapOnDisk_flush (hl : v.Layout) : v.flush.bitmapOnDisk = v.bitmap := by
  funext i
  have hi := i.isLt
  rw [Volume.bitmapOnDisk]
  change Bytes.at_ (Volume.writeSectors (Volume.writeSectors v.disk v.sb.bitmapLba _ _) _ _ _
    (v.sb.bitmapLba + UInt32.ofNat (i.val / 512))) _ = _
  rw [Volume.writeSectors_outside, Volume.writeSectors_inside _ _ _ _ (by decide)
    (by change i.val / 512 < 8; omega)]
  · have hlt : i.val % 512 < 512 := Nat.mod_lt _ (by decide)
    have hidx : 512 * (i.val / 512) + i.val % 512 = i.val := by omega
    simp [Bytes.at_, hlt, bitmapSector, hidx, i.isLt]
  · intro k hk
    change k < 8 at hk
    rw [hl.bitmapLba, hl.inodeTableLba]
    exact table_ne (by decide) (by decide) (by decide) (by omega) hk

theorem Volume.Layout.disk_flush (hl : v.Layout) :
    v.flush.disk fsSuperLba = v.disk fsSuperLba := by
  have hsuper : fsSuperLba.toNat = 128 := rfl
  have outside : ∀ base : UInt32, base.toNat ≤ 137 → 129 ≤ base.toNat → ∀ k, k < 8 →
      fsSuperLba ≠ base + UInt32.ofNat k := by
    intro base hbase hle k hk heq
    have := congrArg UInt32.toNat heq
    rw [Volume.table_toNat hbase hk] at this
    omega
  change Volume.writeSectors (Volume.writeSectors v.disk _ _ _) _ _ _ fsSuperLba = _
  rw [Volume.writeSectors_outside, Volume.writeSectors_outside]
  · rw [hl.bitmapLba]
    exact outside _ (by decide) (by decide)
  · rw [hl.inodeTableLba]
    exact outside _ (by decide) (by decide)

theorem Headed.flush (h : Headed v) (hl : v.Layout) : Synced (fun _ => False) v.flush := by
  refine ⟨⟨?_, h.magic, h.blockSize⟩, fun i _ => v.inodeOnDisk_flush i, fun _ h => h.elim, ?_⟩
  · rw [hl.disk_flush]
    exact h.superblock
  · intro b _
    rw [hl.bitmapOnDisk_flush]
    simp

/-! ## The empty volume -/

theorem formatBlocks_bounds (dev : Device) (totalBlocks : UInt32) :
    1 ≤ (formatBlocks dev totalBlocks).toNat ∧ (formatBlocks dev totalBlocks).toNat ≤ 32768 := by
  have hmax : maxBlocks.toNat = 32768 := rfl
  unfold formatBlocks
  split
  · split
    · next sectors _ =>
        split
        · next hlt =>
            rw [UInt64.lt_iff_toNat_lt] at hlt
            have hlba : fsDataLba.toUInt64.toNat = 145 := rfl
            have hmax64 : maxBlocks.toUInt64.toNat = 32768 := rfl
            have hsub : (sectors - fsDataLba.toUInt64).toNat = sectors.toNat - 145 := by
              rw [UInt64.toNat_sub_of_le _ _ (by rw [UInt64.le_iff_toNat_le]; omega), hlba]
            simp only
            split
            · omega
            · next hle =>
                rw [UInt64.lt_iff_toNat_lt, hmax64, hsub] at hle
                rw [UInt64.toNat_toUInt32, hsub]
                omega
        · omega
    · omega
  · next hne =>
      have hpos : totalBlocks.toNat ≠ 0 := fun h0 => hne (UInt32.toNat.inj h0)
      split
      · omega
      · next hle =>
          rw [UInt32.lt_iff_toNat_lt] at hle
          omega

theorem allocated_empty {sb : Superblock} (h1 : 1 ≤ sb.blockCount.toNat)
    (h2 : sb.blockCount.toNat ≤ 32768) :
    Allocated sb Bytes.zero fun _ => Inode.zero := by
  have dead : ∀ i, ¬ Live (fun _ => Inode.zero) i := fun i => by simp [Live, Inode.zero]
  refine ⟨h1, h2, fun _ _ => rfl, fun i hi => (dead i hi).elim, fun i hi => (dead i hi).elim,
    fun i hi => (dead i hi).elim, fun i hi => (dead i hi).elim, fun i _ hi => (dead i hi).elim, ?_⟩
  intro b hb
  simp [Bytes.testBit, dead]

theorem allocated_root {sb : Superblock} {root : Inode}
    (hcount : 1 ≤ sb.blockCount.toNat ∧ sb.blockCount.toNat ≤ 32768) (hused : root.used ≠ 0)
    (htype : root.type = inodeDir) (hsize : root.size.toNat ≤ 512)
    (hpos : 1 ≤ root.direct0.toNat) (hlt : root.direct0.toNat < sb.blockCount.toNat) :
    Allocated sb (Bytes.zero.setBit root.direct0.toNat) (assign (fun _ => Inode.zero) 0 root) :=
  (allocated_empty hcount.1 hcount.2).take (by simp [Live, Inode.zero]) hused (.inr htype) hsize
    hpos hlt (by simp [Bytes.testBit])

theorem inv_root {sb : Superblock} {b : UInt32} (hsb : v.sb = sb) (hlayout : v.Layout)
    (hcount : 1 ≤ sb.blockCount.toNat ∧ sb.blockCount.toNat ≤ 32768) {root : Inode}
    (hbit : v.bitmap = Bytes.zero.setBit b.toNat)
    (htab : v.inodes = assign (fun _ => Inode.zero) 0 root) (hused : root.used ≠ 0)
    (htype : root.type = inodeDir) (hsize : root.size.toNat ≤ 512) (hblock : root.direct0 = b)
    (hpos : 1 ≤ b.toNat) (hlt : b.toNat < sb.blockCount.toNat) (hdata : v.data b = Bytes.zero) :
    Inv (fun _ => False) v := by
  have live : ∀ {i}, Live v.inodes i → i = 0 := by
    intro i hi
    by_contra hne
    simp [Live, htab, hne, Inode.zero] at hi
  have hroot : v.inodes 0 = root := by rw [htab, assign_same]
  have hlist : v.dirAt 0 = fun _ => none := by
    rw [Volume.dirAt, Volume.blockOf, hroot, hblock, hdata, listing_zero]
  have none_at : ∀ {d j e}, Kept (fun _ => False) v.inodes d → v.dirAt d j ≠ some e := by
    intro d j e hd he
    rw [live hd.1.1, hlist] at he
    cases he
  refine ⟨hlayout, ?_, ?_⟩
  · rw [hsb, hbit, htab, ← hblock]
    exact allocated_root hcount hused htype hsize (hblock ▸ hpos) (hblock ▸ hlt)
  · refine ⟨⟨⟨by rwa [Live, hroot], by rwa [hroot]⟩, id⟩, fun _ h => h.elim, ?_, ?_, ?_, ?_⟩
    · exact fun d hd i name n he => (none_at hd he).elim
    · exact fun d j name n hd he => (none_at hd he).elim
    · exact fun d d' j j' name name' n hd hd' he => (none_at hd he).elim
    · exact fun d j j' name k k' hd he => (none_at hd he).elim

end SevenOS
