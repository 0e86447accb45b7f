import SevenOS.FileSystem.Proof.Listing

/-! # Volumes

The part of the state that outlives a call, with the edits the operations are
made of, and what programs do on a disk that does not fail.
-/

namespace SevenOS

namespace Volume

def data (v : Volume) (block : UInt32) : Block := v.disk (v.dataSector block)

def blockOf (v : Volume) (i : InodeNo) : Block := v.data (v.inodes i).direct0

def dirAt (v : Volume) (d : InodeNo) : Listing := listing (v.blockOf d)

def setSector (v : Volume) (lba : UInt32) (b : Block) : Volume :=
  { v with disk := assign v.disk lba b }

def setData (v : Volume) (block : UInt32) (b : Block) : Volume :=
  v.setSector (v.dataSector block) b

def useBlock (v : Volume) (block : UInt32) : Volume :=
  { v with bitmap := v.bitmap.setBit block.toNat }

def freeBlock (v : Volume) (block : UInt32) : Volume :=
  { v with bitmap := v.bitmap.clearBit block.toNat }

def putInode (v : Volume) (i : InodeNo) (ino : Inode) : Volume :=
  { v with inodes := assign v.inodes i ino }

theorem dataSector_inj {v : Volume} {a b : UInt32} : v.dataSector a = v.dataSector b ↔ a = b := by
  simp [dataSector]

theorem data_setData (v : Volume) (a b : UInt32) (x : Block) :
    (v.setData a x).data b = if b = a then x else v.data b := by
  have hsector : (v.setData a x).dataSector b = v.dataSector b := rfl
  simp only [data, hsector]
  simp only [setData, setSector, assign_apply, dataSector_inj]

@[simp] theorem data_setData_same (v : Volume) (a : UInt32) (x : Block) :
    (v.setData a x).data a = x := by
  simp [data_setData]

@[simp] theorem data_useBlock (v : Volume) (a b : UInt32) : (v.useBlock a).data b = v.data b := rfl
@[simp] theorem data_freeBlock (v : Volume) (a b : UInt32) : (v.freeBlock a).data b = v.data b := rfl
@[simp] theorem data_putInode (v : Volume) (i : InodeNo) (ino : Inode) (b : UInt32) :
    (v.putInode i ino).data b = v.data b := rfl

@[simp] theorem inodes_setSector (v : Volume) (l : UInt32) (x : Block) :
    (v.setSector l x).inodes = v.inodes := rfl
@[simp] theorem sb_setSector (v : Volume) (l : UInt32) (x : Block) :
    (v.setSector l x).sb = v.sb := rfl
@[simp] theorem bitmap_setSector (v : Volume) (l : UInt32) (x : Block) :
    (v.setSector l x).bitmap = v.bitmap := rfl
@[simp] theorem mounted_setSector (v : Volume) (l : UInt32) (x : Block) :
    (v.setSector l x).mounted = v.mounted := rfl

@[simp] theorem inodes_setData (v : Volume) (a : UInt32) (x : Block) :
    (v.setData a x).inodes = v.inodes := rfl
@[simp] theorem inodes_useBlock (v : Volume) (a : UInt32) : (v.useBlock a).inodes = v.inodes := rfl
@[simp] theorem inodes_freeBlock (v : Volume) (a : UInt32) :
    (v.freeBlock a).inodes = v.inodes := rfl
@[simp] theorem inodes_putInode (v : Volume) (i : InodeNo) (ino : Inode) :
    (v.putInode i ino).inodes = assign v.inodes i ino := rfl

@[simp] theorem bitmap_setData (v : Volume) (a : UInt32) (x : Block) :
    (v.setData a x).bitmap = v.bitmap := rfl
@[simp] theorem bitmap_useBlock (v : Volume) (a : UInt32) :
    (v.useBlock a).bitmap = v.bitmap.setBit a.toNat := rfl
@[simp] theorem bitmap_freeBlock (v : Volume) (a : UInt32) :
    (v.freeBlock a).bitmap = v.bitmap.clearBit a.toNat := rfl
@[simp] theorem bitmap_putInode (v : Volume) (i : InodeNo) (ino : Inode) :
    (v.putInode i ino).bitmap = v.bitmap := rfl

@[simp] theorem sb_setData (v : Volume) (a : UInt32) (x : Block) : (v.setData a x).sb = v.sb := rfl
@[simp] theorem sb_useBlock (v : Volume) (a : UInt32) : (v.useBlock a).sb = v.sb := rfl
@[simp] theorem sb_freeBlock (v : Volume) (a : UInt32) : (v.freeBlock a).sb = v.sb := rfl
@[simp] theorem sb_putInode (v : Volume) (i : InodeNo) (ino : Inode) :
    (v.putInode i ino).sb = v.sb := rfl

@[simp] theorem mounted_setData (v : Volume) (a : UInt32) (x : Block) :
    (v.setData a x).mounted = v.mounted := rfl
@[simp] theorem mounted_useBlock (v : Volume) (a : UInt32) :
    (v.useBlock a).mounted = v.mounted := rfl
@[simp] theorem mounted_freeBlock (v : Volume) (a : UInt32) :
    (v.freeBlock a).mounted = v.mounted := rfl
@[simp] theorem mounted_putInode (v : Volume) (i : InodeNo) (ino : Inode) :
    (v.putInode i ino).mounted = v.mounted := rfl

theorem setSector_eq_self {v : Volume} {l : UInt32} {b : Block} (h : v.disk l = b) :
    v.setSector l b = v := by
  have hdisk : assign v.disk l b = v.disk := by
    funext l'
    rw [assign_apply]
    split
    · next h' => rw [h', h]
    · rfl
  simp only [setSector, hdisk]

theorem setData_data (v : Volume) (a : UInt32) : v.setData a (v.data a) = v :=
  setSector_eq_self rfl

theorem setData_comm (v : Volume) {a b : UInt32} (h : a ≠ b) (x y : Block) :
    (v.setData a x).setData b y = (v.setData b y).setData a x := by
  have hne : v.dataSector b ≠ v.dataSector a := fun h' => h (dataSector_inj.mp h').symm
  simp only [setData, setSector, dataSector]
  congr 1
  funext l
  simp only [assign_apply]
  by_cases hb : l = v.sb.dataLba + b
  · rw [if_pos hb, if_neg (by rw [hb]; exact hne), if_pos hb]
  · simp [hb]

@[simp] theorem putInode_putInode (v : Volume) (i : InodeNo) (a b : Inode) :
    (v.putInode i a).putInode i b = v.putInode i b := by
  simp only [putInode]
  congr 1
  funext j
  by_cases h : j = i <;> simp [assign, h]

/-! ## Writing the tables back -/

def writeSectors (disk : UInt32 → Block) (lba : UInt32) (n : Nat) (content : Nat → Block) :
    UInt32 → Block :=
  (List.range n).foldl (fun disk k => assign disk (lba + UInt32.ofNat k) (content k)) disk

theorem writeSectors_succ (disk : UInt32 → Block) (lba : UInt32) (n : Nat)
    (content : Nat → Block) : writeSectors disk lba (n + 1) content =
      assign (writeSectors disk lba n content) (lba + UInt32.ofNat n) (content n) := by
  simp [writeSectors, List.range_succ]

theorem writeSectors_outside (disk : UInt32 → Block) (lba : UInt32) (n : Nat)
    (content : Nat → Block) {l : UInt32} (h : ∀ k, k < n → l ≠ lba + UInt32.ofNat k) :
    writeSectors disk lba n content l = disk l := by
  induction n with
  | zero => rfl
  | succ n ih =>
      rw [writeSectors_succ, assign_of_ne _ _ (h n (by omega)), ih fun k hk => h k (by omega)]

theorem writeSectors_inside (disk : UInt32 → Block) (lba : UInt32) (n : Nat)
    (content : Nat → Block) (hn : n ≤ 2 ^ 32) {k : Nat} (hk : k < n) :
    writeSectors disk lba n content (lba + UInt32.ofNat k) = content k := by
  induction n with
  | zero => omega
  | succ n ih =>
      rw [writeSectors_succ]
      by_cases heq : k = n
      · subst heq; simp
      · have hne : lba + UInt32.ofNat k ≠ lba + UInt32.ofNat n := by
          intro h
          have h' := congrArg UInt32.toNat h
          simp only [UInt32.toNat_add, UInt32.toNat_ofNat'] at h'
          omega
        rw [assign_of_ne _ _ hne, ih (by omega) (by omega)]

/-- `flush_bitmap() && flush_inodes()`. -/
def flush (v : Volume) : Volume :=
  { v with
    disk := writeSectors
      (writeSectors v.disk v.sb.bitmapLba fsBitmapSectors (bitmapSector v.bitmap))
      v.sb.inodeTableLba fsInodeTableSectors (inodeSector v.inodes) }

@[simp] theorem inodes_flush (v : Volume) : v.flush.inodes = v.inodes := rfl
@[simp] theorem bitmap_flush (v : Volume) : v.flush.bitmap = v.bitmap := rfl
@[simp] theorem sb_flush (v : Volume) : v.flush.sb = v.sb := rfl
@[simp] theorem mounted_flush (v : Volume) : v.flush.mounted = v.mounted := rfl

/-- The sectors the superblock gives to bitmap, inode table and data. -/
structure Layout (v : Volume) : Prop where
  bitmapLba : v.sb.bitmapLba = fsBitmapLba
  inodeTableLba : v.sb.inodeTableLba = fsInodeTableLba
  dataLba : v.sb.dataLba = fsDataLba

theorem Layout.dataSector_toNat {v : Volume} (h : v.Layout) {b : UInt32} (hb : b.toNat < 32768) :
    (v.dataSector b).toNat = 145 + b.toNat := by
  simp only [dataSector, h.dataLba, UInt32.toNat_add, fsDataLba]
  simp
  omega

theorem Layout.dataSector_ne {v : Volume} (h : v.Layout) {b l : UInt32} (hb : b.toNat < 32768)
    (hl : l.toNat < 145) : v.dataSector b ≠ l := by
  intro heq
  have := h.dataSector_toNat hb
  rw [heq] at this
  omega

theorem table_toNat {base : UInt32} (hbase : base.toNat ≤ 137) {k : Nat} (hk : k < 8) :
    (base + UInt32.ofNat k).toNat = base.toNat + k := by
  simp only [UInt32.toNat_add, UInt32.toNat_ofNat']
  omega

theorem Layout.data_flush {v : Volume} (h : v.Layout) {b : UInt32} (hb : b.toNat < 32768) :
    v.flush.data b = v.data b := by
  have hbit : fsBitmapLba.toNat = 129 := rfl
  have hino : fsInodeTableLba.toNat = 137 := rfl
  have hsector : v.flush.dataSector b = v.dataSector b := rfl
  rw [data, hsector]
  change writeSectors (writeSectors v.disk _ _ _) _ _ _ (v.dataSector b) = v.disk (v.dataSector b)
  rw [writeSectors_outside, writeSectors_outside]
  · intro k hk
    rw [h.bitmapLba]
    apply h.dataSector_ne hb
    rw [table_toNat (by decide) hk]
    change k < 8 at hk
    omega
  · intro k hk
    rw [h.inodeTableLba]
    apply h.dataSector_ne hb
    rw [table_toNat (by decide) hk]
    change k < 8 at hk
    omega

end Volume

end SevenOS
