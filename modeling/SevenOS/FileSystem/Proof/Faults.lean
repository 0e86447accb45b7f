import SevenOS.FileSystem.Proof.ReadOnly
import SevenOS.FileSystem.Proof.Outcomes

/-! # Bitmap and inode table on a failing disk

`Sane` says that bitmap and inode table agree. It does not look at the disk, so
a transfer that fails cannot break it by itself; what breaks it is giving up
between two updates of the tables. Directory blocks may hold anything here.
-/

namespace SevenOS

open Prog

variable {dev : Device} {v : Volume} {α : Type}

/-- Bitmap and inode table agree and there is a root inode. -/
structure Sane (v : Volume) : Prop where
  alloc : Allocated v.sb v.bitmap v.inodes
  root : Live v.inodes 0

/-- Writing to a block that the bitmap calls free does not fail. -/
def FreeWritesWork (dev : Device) : Prop :=
  ∀ s lba left, dev.writeFault s lba = some left → ∀ b : UInt32, 1 ≤ b.toNat →
    b.toNat < s.sb.blockCount.toNat → lba = s.dataSector b → s.bitmap.testBit b.toNat = true

/-- The program keeps tables that agree, however it ends. -/
def KeepsSane (m : FsM α) : Prop := Keeps (fun s : Fs => Sane s.toVolume) m

/-- However the program ends from here, the tables agree. -/
abbrev EndsSane (m : FsM α) (s : Fs) : Prop :=
  wp m (fun _ s => Sane s.toVolume) (fun s => Sane s.toVolume) (fun s => Sane s.toVolume) s

theorem ReadOnly.sane {m : FsM α} (h : ReadOnly m) : KeepsSane m := fun _ hs =>
  h.step (fun _ _ hv => hv ▸ hs) (fun _ hv => hv ▸ hs) fun _ hv => hv ▸ hs

namespace Sane

theorem of_tables {v' : Volume} (h : Sane v) (hsb : v'.sb = v.sb) (hbitmap : v'.bitmap = v.bitmap)
    (htab : v'.inodes = v.inodes) : Sane v' := by
  refine ⟨?_, ?_⟩
  · rw [hsb, hbitmap, htab]
    exact h.alloc
  · rw [htab]
    exact h.root

theorem size_le (h : Sane v) (i : InodeNo) : (v.inodes i).size.toNat ≤ 512 := by
  by_cases hi : Live v.inodes i
  · exact h.alloc.sizeLe i hi
  · rw [h.alloc.unused i hi]
    decide

theorem direct0_ne (h : Sane v) {i : InodeNo} (hi : Live v.inodes i) :
    (v.inodes i).direct0 ≠ 0 := by
  intro h0
  have := h.alloc.blockPos i hi
  rw [h0] at this
  simp at this

theorem take (h : Sane v) {k : InodeNo} {b : UInt32} (hk : allocInodeRaw v = some k)
    (hb : allocBlockRaw v = some b) {type : UInt8} (ht : type = inodeFile ∨ type = inodeDir)
    {size : UInt32} (hsize : size.toNat ≤ 512) :
    Sane (v.take k ((v.inodes k).fresh type size b)) := by
  obtain ⟨hnew, hk0⟩ := allocInodeRaw_some hk
  obtain ⟨hpos, hlt, hfree⟩ := allocBlockRaw_free hb
  rw [h.alloc.blockLimit_eq] at hlt
  refine ⟨h.alloc.take hnew (by simp [Inode.fresh]) ht hsize hpos hlt hfree, ?_⟩
  have := h.root
  simpa [Live, Volume.take, hk0.symm] using this

theorem resize (h : Sane v) {k : InodeNo} (hk : Live v.inodes k) {size : UInt32}
    (hsize : size.toNat ≤ 512) : Sane (v.putInode k { v.inodes k with size := size }) := by
  refine ⟨h.alloc.resize hk hsize, ?_⟩
  by_cases hk0 : k = 0
  · subst hk0
    simpa [Live] using hk
  · simpa [Live, Ne.symm hk0] using h.root

theorem release (h : Sane v) {k : InodeNo} (hk0 : k ≠ 0) (hk : Live v.inodes k) :
    Sane ((v.freeBlock (v.inodes k).direct0).putInode k Inode.zero) := by
  refine ⟨h.alloc.free (S := (· = k)) ?_ ?_ ?_ ?_, ?_⟩
  · rintro i rfl
    exact hk
  · rintro i rfl
    simp
  · intro i hi
    simp [hi]
  · intro b hb
    rw [Volume.bitmap_putInode, Volume.bitmap_freeBlock, Bytes.testBit_clearBit _ hb]
    simp only [Bool.and_eq_true, Bool.not_eq_true', decide_eq_false_iff_not, exists_eq_left]
    constructor
    · rintro ⟨hne, hbit⟩
      exact ⟨hbit, fun heq => hne heq.symm⟩
    · rintro ⟨hbit, hne⟩
      exact ⟨fun heq => hne heq.symm, hbit⟩
  · have := h.root
    simpa [Live, hk0.symm] using this

end Sane

namespace KeepsSane

theorem bind {β : Type} {m : FsM β} {f : β → FsM α} (hm : KeepsSane m) (hf : ∀ b, KeepsSane (f b)) :
    KeepsSane (m >>= f) := Keeps.bind hm hf

theorem writeSector (lba : UInt32) (b : Block) : KeepsSane (writeSector dev lba b) := by
  refine Keeps.get.bind fun s => ?_
  cases dev.writeFault s lba with
  | none => exact Keeps.modify fun s h => ⟨h.alloc, h.root⟩
  | some left =>
      exact (Keeps.modify fun s h => ⟨h.alloc, h.root⟩).bind fun _ => Keeps.refuse

theorem diskWriteLba (object : Nat) (lba : UInt32) (b : Block) :
    KeepsSane (diskWriteLba dev object lba b) :=
  (ReadOnly.note _).sane.bind fun _ => writeSector _ _

theorem diskWriteSectors (object : Nat) (lba : UInt32) (sectors : Nat) (data : Nat → Block) :
    KeepsSane (diskWriteSectors dev object lba sectors data) :=
  (ReadOnly.note _).sane.bind fun _ => Keeps.foldlM _ (fun _ _ _ => writeSector _ _) _

theorem flushTables : KeepsSane (flushTables dev) :=
  (ReadOnly.get.sane.bind fun _ => diskWriteSectors _ _ _ _).bind fun _ =>
    ReadOnly.get.sane.bind fun _ => diskWriteSectors _ _ _ _

theorem scratch (f : Fs → Block) :
    KeepsSane (modify fun s => { s with blockScratch := f s }) :=
  Keeps.modify fun _ h => h

theorem scratch2 (f : Fs → Block) :
    KeepsSane (modify fun s => { s with blockScratch2 := f s }) :=
  Keeps.modify fun _ h => h

theorem wp_ensureRootDirBlock {s : Fs} (h : Sane s.toVolume) {Q : Unit → Fs → Prop}
    {R D : Fs → Prop} : wp (SevenOS.ensureRootDirBlock dev) Q R D s ↔ Q () s := by
  simp [SevenOS.ensureRootDirBlock, h.direct0_ne h.root]

theorem ensureRootDirBlock : KeepsSane (ensureRootDirBlock dev) := fun _ h =>
  (wp_ensureRootDirBlock h).mpr h

/-! ## Taking -/

section Steps

variable {β : Type} {s : Fs}

theorem get_step {f : Fs → FsM α} (hf : EndsSane (f s) s) : EndsSane (Prog.get >>= f) s :=
  (wp_bind _ _).mpr hf

theorem demand_step {o : Option β} {f : β → FsM α} (h : Sane s.toVolume)
    (hf : ∀ b, o = some b → EndsSane (f b) s) : EndsSane (demand o >>= f) s := by
  rw [EndsSane, wp_bind, wp_demand]
  exact ⟨hf, fun _ => h⟩

theorem read_step {m : FsM β} {f : β → FsM α} (hm : ReadOnly m) (h : Sane s.toVolume)
    (hf : ∀ b s', s'.toVolume = s.toVolume → EndsSane (f b) s') : EndsSane (m >>= f) s := by
  rw [EndsSane, wp_bind]
  exact hm.step hf (fun _ hv => hv ▸ h) fun _ hv => hv ▸ h

theorem resize_step {k : InodeNo} {size : UInt32} (hsize : size.toNat ≤ 512)
    (h : Sane s.toVolume) (hk : Live s.inodes k) {m : FsM α} (hm : KeepsSane m) :
    EndsSane (do modifyInode k (fun ino => { ino with size := size }); m) s := by
  rw [EndsSane, wp_bind, wp_modifyInode]
  exact hm _ (h.resize hk hsize)

/-- Taking an inode and a block, and then anything that keeps tables that agree. -/
theorem take_step (h : Sane s.toVolume) {k : InodeNo} {b : UInt32}
    (hk : allocInodeRaw s.toVolume = some k) (hb : allocBlockRaw s.toVolume = some b)
    {type : UInt8} (ht : type = inodeFile ∨ type = inodeDir) {size : UInt32}
    (hsize : size.toNat ≤ 512) {m : FsM α} (hm : KeepsSane m) :
    EndsSane (do markBlockUsed b; modifyInode k (fun ino => ino.fresh type size b); m) s := by
  rw [EndsSane, wp_bind, wp_markBlockUsed, wp_bind, wp_modifyInode]
  exact hm _ (h.take hk hb ht hsize)

/-- A new file is live when its size is set. -/
theorem claimFile_step (h : Sane s.toVolume) {free : Option Slot}
    {Q : Slot × InodeNo → Fs → Prop}
    (hQ : ∀ j k s', Sane s'.toVolume → Live s'.inodes k → Q (j, k) s') :
    wp (claimFile free) Q (fun s => Sane s.toVolume) (fun s => Sane s.toVolume) s := by
  refine wp_claimFile (fun j k b _ hk hb => hQ j k _ ?_ ?_) h
  · exact h.take hk hb (.inl rfl) (h.size_le k)
  · simp [Live, Inode.fresh]

end Steps

theorem prepareEntry_step {name : CStr} {type : UInt8} {f : InodeNo × UInt32 × Block × Slot → FsM α}
    (hf : ∀ r s, Sane s.toVolume → allocInodeRaw s.toVolume = some r.1 →
      allocBlockRaw s.toVolume = some r.2.1 → EndsSane (f r) s) :
    KeepsSane (prepareEntry dev name type >>= f) := by
  intro s h
  simp only [prepareEntry, wp_bind, wp_get, wp_require, wp_ensureRootDirBlock h, wp_demand]
  refine ⟨fun _ => ⟨fun _ => ⟨fun _ => ⟨fun k hk => ⟨fun b hb => ?_, fun _ => h⟩, fun _ => h⟩,
    fun _ => h⟩, fun _ => h⟩, fun _ => h⟩
  refine (ReadOnly.diskReadLba _ _).step (fun dirBlock s₁ hv => ?_) (fun _ hv => hv ▸ h)
    fun _ hv => hv ▸ h
  have h₁ : Sane s₁.toVolume := hv ▸ h
  cases scanEntries outOfTable name type dirBlock s.inodes with
  | bad => exact h₁
  | found j k' => exact h₁
  | absent free =>
      simp only [wp_bind, wp_demand, wp_pure]
      refine ⟨fun j _ => hf _ s₁ h₁ ?_ ?_, fun _ => h₁⟩
      · rw [hv]
        exact findFreeInode_some hk
      · rw [hv]
        exact findFreeBlock_some hb

theorem fsMkdir (name : CStr) : KeepsSane (fsMkdir dev name) :=
  prepareEntry_step fun _ _ h hk hb => take_step h hk hb (.inr rfl) (by decide)
    (ReadOnly.get.sane.bind fun _ => (diskWriteLba _ _ _).bind fun _ =>
      (diskWriteLba _ _ _).bind fun _ => flushTables)

theorem fsCreate (name : CStr) : KeepsSane (fsCreate dev name) :=
  prepareEntry_step fun _ _ h hk hb => take_step h hk hb (.inl rfl) (by decide)
    (ReadOnly.get.sane.bind fun _ => (diskWriteLba _ _ _).bind fun _ => flushTables)

theorem fsMkdirPath (path : CStr) : KeepsSane (fsMkdirPath dev path) := by
  refine ReadOnly.get.sane.bind fun _ => (ReadOnly.require _).sane.bind fun _ =>
    (ReadOnly.require _).sane.bind fun _ => ?_
  cases splitPath path with
  | none => exact fsMkdir path
  | some parts =>
      refine (ReadOnly.require _).sane.bind fun _ => (ReadOnly.require _).sane.bind fun _ =>
        (ReadOnly.require _).sane.bind fun _ => ensureRootDirBlock.bind fun _ =>
        ReadOnly.get.sane.bind fun _ => (ReadOnly.loadScratch _).sane.bind fun _ =>
        (ReadOnly.lookupDir _).sane.bind fun _ => ReadOnly.get.sane.bind fun _ =>
        (ReadOnly.require _).sane.bind fun _ => (ReadOnly.loadScratch2 _).sane.bind fun _ s h => ?_
      rw [wp_bind, wp_get]
      cases scanEntries neverBad parts.2 inodeDir s.blockScratch2 s.inodes with
      | bad => exact h
      | found j k => exact h
      | absent free =>
          refine demand_step h fun j _ => demand_step h fun k hk => demand_step h fun b hb => ?_
          exact take_step h hk hb (.inr rfl) (by decide)
            (ReadOnly.get.sane.bind fun _ => (diskWriteLba _ _ _).bind fun _ =>
              (scratch2 _).bind fun _ => ReadOnly.get.sane.bind fun _ =>
              (diskWriteLba _ _ _).bind fun _ => flushTables)

theorem fsWrite (name data : CStr) : KeepsSane (fsWrite dev name data) := by
  refine ReadOnly.get.sane.bind fun _ => (ReadOnly.require _).sane.bind fun _ =>
    (ReadOnly.require _).sane.bind fun _ => (ReadOnly.require _).sane.bind fun _ =>
    ensureRootDirBlock.bind fun _ s h => ?_
  refine get_step (read_step (ReadOnly.diskReadLba _ _) h fun dirBlock s₁ hv => ?_)
  have h₁ : Sane s₁.toVolume := hv ▸ h
  have finish : ∀ (b : Block) (k : InodeNo) (s : Fs), Sane s.toVolume → Live s.inodes k →
      EndsSane (do
        modifyInode k fun ino => { ino with size := dataLength data }
        let s ← Prog.get
        SevenOS.diskWriteLba dev 512 (s.sectorOf 0) b
        SevenOS.diskWriteLba dev 512 (s.sectorOf k) (fileBlock data)
        SevenOS.flushTables dev) s := fun b k s h hk =>
    resize_step (dataLength_le data) h hk (ReadOnly.get.sane.bind fun _ =>
      (diskWriteLba _ _ _).bind fun _ => (diskWriteLba _ _ _).bind fun _ => flushTables)
  cases hscan : scanEntries outOfTable name inodeFile dirBlock s.inodes with
  | bad => exact h₁
  | found j k =>
      refine finish dirBlock k s₁ h₁ ?_
      rw [hv]
      exact (scan_found hscan).1.used
  | absent free =>
      rw [EndsSane, wp_bind]
      exact claimFile_step h₁ fun j k s' h' hk => finish _ k s' h' hk

theorem fsWritePath (path data : CStr) : KeepsSane (fsWritePath dev path data) := by
  refine ReadOnly.get.sane.bind fun _ => (ReadOnly.require _).sane.bind fun _ =>
    (ReadOnly.require _).sane.bind fun _ => ?_
  cases splitPath path with
  | none => exact fsWrite path data
  | some parts =>
      obtain ⟨dirname, filename⟩ := parts
      refine (ReadOnly.require _).sane.bind fun _ => (ReadOnly.require _).sane.bind fun _ =>
        (ReadOnly.loadScratch _).sane.bind fun _ => (ReadOnly.lookupDir _).sane.bind fun d =>
        ReadOnly.get.sane.bind fun _ => (ReadOnly.require _).sane.bind fun _ =>
        (ReadOnly.loadScratch2 _).sane.bind fun _ s h => get_step ?_
      have finish : ∀ (k : InodeNo) (s : Fs), Sane s.toVolume → Live s.inodes k →
          EndsSane (do
            modifyInode k fun ino => { ino with size := dataLength data }
            let s ← Prog.get
            SevenOS.diskWriteLba dev 512 (s.sectorOf d) s.blockScratch2
            SevenOS.diskWriteLba dev 512 (s.sectorOf k) (fileBlock data)
            SevenOS.flushTables dev) s := fun k s h hk =>
        resize_step (dataLength_le data) h hk (ReadOnly.get.sane.bind fun _ =>
          (diskWriteLba _ _ _).bind fun _ => (diskWriteLba _ _ _).bind fun _ => flushTables)
      cases hscan : scanEntries outOfTable filename inodeFile s.blockScratch2 s.inodes with
      | bad => exact h
      | found j k => exact finish k s h (scan_found hscan).1.used
      | absent free =>
          rw [EndsSane, wp_bind]
          exact claimFile_step h fun j k s' h' hk => finish k (s'.setScratch2 _) h' hk

theorem fsCopyPath (srcPath dstPath : CStr) : KeepsSane (fsCopyPath dev srcPath dstPath) := by
  refine ReadOnly.get.sane.bind fun _ => (ReadOnly.require _).sane.bind fun _ =>
    (ReadOnly.require _).sane.bind fun _ => (ReadOnly.copySource _).sane.bind fun src s₀ h₀ =>
    get_step ?_
  have hsize : (s₀.inodes src).size.toNat ≤ 512 := h₀.size_le src
  refine ((ReadOnly.require _).sane.bind fun _ => (ReadOnly.diskReadLba _ _).sane.bind fun fileData =>
    ensureRootDirBlock.bind fun _ => (ReadOnly.copyTarget _ _).sane.bind fun target =>
    (ReadOnly.require _).sane.bind fun _ => ReadOnly.get.sane.bind fun _ =>
    (ReadOnly.require _).sane.bind fun _ => (ReadOnly.loadScratch2 _).sane.bind fun _ s h =>
    get_step ?_) s₀ h₀
  obtain ⟨d, name⟩ := target
  have finish : ∀ k, KeepsSane (do
      let s ← Prog.get
      SevenOS.diskWriteLba dev 512 (s.sectorOf d) s.blockScratch2
      SevenOS.diskWriteLba dev 512 (s.sectorOf k) fileData
      SevenOS.flushTables dev) := fun k =>
    ReadOnly.get.sane.bind fun _ => (diskWriteLba _ _ _).bind fun _ =>
      (diskWriteLba _ _ _).bind fun _ => flushTables
  cases hscan : scanEntries neverBad name inodeFile s.blockScratch2 s.inodes with
  | bad => exact h
  | found j k => exact resize_step hsize h (scan_found hscan).1.used (finish k)
  | absent free =>
      refine demand_step h fun j _ => demand_step h fun k hk => demand_step h fun b hb => ?_
      exact take_step h hk hb (.inl rfl) hsize ((scratch2 _).bind fun _ => finish k)

theorem writeDirBlock (d : InodeNo) (b : Block) : KeepsSane (writeDirBlock dev d b) :=
  ReadOnly.get.sane.bind fun _ => (ReadOnly.require _).sane.bind fun _ => diskWriteLba _ _ _

theorem fsRename (srcPath dstPath : CStr) : KeepsSane (fsRename dev srcPath dstPath) := by
  refine ReadOnly.get.sane.bind fun _ => (ReadOnly.require _).sane.bind fun _ =>
    (ReadOnly.require _).sane.bind fun _ => (ReadOnly.renameSource _).sane.bind fun src =>
    (ReadOnly.require _).sane.bind fun _ => (ReadOnly.loadDirBlock _).sane.bind fun srcBlock =>
    ReadOnly.get.sane.bind fun _ => (ReadOnly.demand _).sane.bind fun entry =>
    (ReadOnly.demand _).sane.bind fun k => (ReadOnly.renameTarget _ _).sane.bind fun target =>
    (ReadOnly.require _).sane.bind fun _ => (ReadOnly.require _).sane.bind fun _ =>
    Keeps.ite (fun _ => Keeps.pure _) fun _ => (ReadOnly.loadDirBlock _).sane.bind fun dstBlock =>
    ReadOnly.get.sane.bind fun _ => Keeps.ite (fun _ => Keeps.pure _) fun _ =>
    (ReadOnly.require _).sane.bind fun _ => Keeps.ite (fun _ => writeDirBlock _ _) fun _ =>
    (ReadOnly.demand _).sane.bind fun _ => (writeDirBlock _ _).bind fun _ => writeDirBlock _ _

/-! ### System files -/

theorem ensureSysDir : KeepsSane (ensureSysDir dev) := fun s h => by
  refine get_step ?_
  cases findDirEntry sysName s.blockScratch s.inodes inodeDir with
  | none =>
      refine demand_step h fun k hk => demand_step h fun b hb => ?_
      exact take_step h hk hb (.inr rfl) (by decide)
        ((ReadOnly.demand _).sane.bind fun _ => (scratch _).bind fun _ => (scratch2 _).bind fun _ =>
          ReadOnly.get.sane.bind fun _ => (diskWriteLba _ _ _).bind fun _ => Keeps.pure _)
  | some i =>
      exact ((ReadOnly.demand _).sane.bind fun _ => (ReadOnly.require _).sane.bind fun _ =>
        Keeps.pure _) s h

theorem ensureSysEntry {filename : CStr} {len : UInt32} (hlen : len.toNat ≤ 512) :
    KeepsSane (ensureSysEntry filename len) := fun s h => by
  refine get_step ?_
  cases hfind : findDirEntry filename s.blockScratch2 s.inodes inodeFile with
  | none =>
      refine demand_step h fun k hk => demand_step h fun b hb => ?_
      exact take_step h hk hb (.inl rfl) hlen
        ((ReadOnly.demand _).sane.bind fun _ => (scratch2 _).bind fun _ => Keeps.pure _)
  | some i =>
      obtain ⟨k, hit⟩ := findDirEntry_some (by decide) hfind
      refine demand_step h fun k' hk' => ?_
      rw [hit.inodeIndex] at hk'
      cases hk'
      exact resize_step hlen h hit.used (Keeps.pure k)

theorem writeSysFile {filename : CStr} {data : List UInt8} (hdata : data.length ≤ 512) :
    KeepsSane (writeSysFile dev filename data) := by
  have hlen : (UInt32.ofNat data.length).toNat ≤ 512 := by
    rw [UInt32.toNat_ofNat']
    omega
  have entry : ∀ d, KeepsSane (writeSysEntry dev d filename data) := fun d =>
    (ensureSysEntry hlen).bind fun _ => ReadOnly.get.sane.bind fun _ =>
      (diskWriteLba _ _ _).bind fun _ => (scratch _).bind fun _ => ReadOnly.get.sane.bind fun _ =>
      (diskWriteLba _ _ _).bind fun _ => flushTables
  exact ensureRootDirBlock.bind fun _ => ReadOnly.readRootDirBlock.sane.bind fun _ =>
    ensureSysDir.bind fun d => ReadOnly.get.sane.bind fun _ => (diskWriteLba _ _ _).bind fun _ =>
    (ReadOnly.loadScratch2 _).sane.bind fun _ => entry d

/-! ## Giving back -/

section Release

variable (hw : FreeWritesWork dev)

include hw

/-- The zeros over a block that was just given back are written. -/
theorem write_freed {s : Fs} {k : InodeNo} {Q : Unit → Fs → Prop} {R D : Fs → Prop} {b : Block}
    (hbit : s.bitmap.testBit (s.inodes k).direct0.toNat = false)
    (hpos : 1 ≤ (s.inodes k).direct0.toNat)
    (hlt : (s.inodes k).direct0.toNat < s.sb.blockCount.toNat)
    (h : ∀ s', s'.sb = s.sb → s'.bitmap = s.bitmap → s'.inodes = s.inodes → Q () s') :
    wp (SevenOS.diskWriteLba dev 512 (s.sectorOf k) b) Q R D s := by
  simp only [SevenOS.diskWriteLba, SevenOS.writeSector, wp_bind, wp_note, wp_get]
  cases hfault : dev.writeFault (s.noted ⟨true, s.sectorOf k, 1, 512⟩) (s.sectorOf k) with
  | none => exact h _ rfl rfl rfl
  | some left =>
      have := hw _ _ _ hfault (s.inodes k).direct0 hpos hlt rfl
      rw [Fs.toVolume_noted, hbit] at this
      cases this

/-- After a block was given back its inode can be zeroed. -/
theorem release_step {s : Fs} (h : Sane s.toVolume) {k : InodeNo} (hk0 : k ≠ 0)
    {Q : Unit → Fs → Prop} {R D : Fs → Prop}
    (hQ : ∀ s', Sane (s'.putInode k Inode.zero) → Q () s') : wp (releaseBlock dev k) Q R D s := by
  simp only [releaseBlock, wp_bind, wp_get]
  by_cases hk : Live s.inodes k
  · have hpos := h.alloc.blockPos k hk
    have hlt := h.alloc.blockLt k hk
    have hbound := h.alloc.blockBound hk
    rw [if_pos ⟨h.direct0_ne hk, hlt⟩, wp_bind, wp_markBlockFree]
    refine write_freed (s := s.setVolume (s.freeBlock (s.inodes k).direct0)) hw ?_ hpos hlt ?_
    · simp [Bytes.testBit_clearBit s.bitmap (j := (s.inodes k).direct0.toNat) hbound]
    · intro s' hsb hbitmap htab
      refine hQ s' ((h.release hk0 hk).of_tables hsb hbitmap ?_)
      rw [Volume.inodes_putInode, htab]
      rfl
  · have hzero := h.alloc.unused k hk
    rw [if_neg (fun hf => hf.1 (by rw [hzero]; rfl)), wp_pure]
    refine hQ s (h.of_tables rfl rfl ?_)
    funext i
    by_cases hik : i = k
    · simp [hik, hzero]
    · simp [hik]

theorem removeEntryFromDir (dir : InodeNo) (filename : CStr) :
    KeepsSane (removeEntryFromDir dev dir filename) := by
  refine ReadOnly.get.sane.bind fun _ => (ReadOnly.require _).sane.bind fun _ =>
    (ReadOnly.loadScratch _).sane.bind fun _ s h => ?_
  rw [wp_bind, wp_get]
  cases hscan : scanEntries rootOrOutOfTable filename inodeFile s.blockScratch s.inodes with
  | bad => exact h
  | absent free => exact h
  | found j k =>
      obtain ⟨hit, hk0⟩ := scan_found_ne_root hscan
      have hpos := h.alloc.blockPos k hit.used
      have hlt := h.alloc.blockLt k hit.used
      have hbound := h.alloc.blockBound hit.used
      simp only [wp_bind, wp_require]
      refine ⟨fun _ => ?_, fun _ => h⟩
      rw [if_pos ⟨h.direct0_ne hit.used, hlt⟩]
      simp only [wp_bind, wp_markBlockFree, wp_setScratch2, wp_get]
      -- no transfer can fail until the inode is zeroed
      refine write_freed hw ?_ hpos hlt ?_
      · simp [Bytes.testBit_clearBit s.bitmap (j := (s.inodes k).direct0.toNat) hbound]
      · intro s' hsb hbitmap htab
        simp only [wp_setScratch, wp_modifyInode]
        have hfreed : Sane (s'.putInode k Inode.zero) := by
          refine (h.release hk0 hit.used).of_tables hsb hbitmap ?_
          rw [Volume.inodes_putInode, htab]
          rfl
        refine wp_mono (diskWriteLba _ _ _ _ ?_) (fun _ s'' h'' => flushTables s'' h'')
          (fun _ h => h) fun _ h => h
        exact hfreed

theorem removeDirContents (frames : Nat) (dirInode : InodeNo) :
    KeepsSane (removeDirContents dev frames dirInode) := by
  induction frames generalizing dirInode with
  | zero => exact Keeps.diverge
  | succ frames ih =>
      refine ReadOnly.get.sane.bind fun _ => (ReadOnly.require _).sane.bind fun _ =>
        (ReadOnly.require _).sane.bind fun _ => (ReadOnly.diskReadLba _ _).sane.bind fun _ =>
        bind (Keeps.foldlM _ (fun b j _ => Keeps.ite (fun _ => Keeps.pure _) fun _ s h => ?_) _)
          fun _ => ReadOnly.get.sane.bind fun _ => diskWriteLba _ _ _
      rw [wp_bind, wp_require]
      refine ⟨fun hrange => ?_, fun _ => h⟩
      rw [wp_bind, wp_demand]
      refine ⟨fun k hk => ?_, fun _ => h⟩
      have hk0 : k ≠ 0 := by
        rintro rfl
        rw [inodeIndex_eq_some.mp hk] at hrange
        simp [rootOrOutOfTable, inodeByte] at hrange
      have finish : KeepsSane (do
          releaseBlock dev k
          modifyInode k fun _ => Inode.zero
          return clearEntry b j) := by
        intro s h
        rw [wp_bind]
        exact release_step hw h hk0 fun s' h' => h'
      rw [wp_bind, wp_get]
      exact Keeps.ite (fun _ => (ih k).bind fun _ => finish)
        (fun _ => (ReadOnly.require _).sane.bind fun _ => finish) s h

theorem removeEntryFromDirRecursive (dir : InodeNo) (filename : CStr) :
    KeepsSane (removeEntryFromDirRecursive dev dir filename) := by
  refine ReadOnly.get.sane.bind fun s₀ => (ReadOnly.require _).sane.bind fun _ =>
    (ReadOnly.diskReadLba _ _).sane.bind fun b => ?_
  cases hscan : findRemovable filename b s₀.inodes with
  | bad => exact Keeps.refuse
  | absent free => exact Keeps.refuse
  | found j k =>
      have hk0 := findRemovable_ne_root hscan
      have finish : KeepsSane (do
          releaseBlock dev k
          modifyInode k fun _ => Inode.zero
          let s ← get
          SevenOS.diskWriteLba dev 512 (s.sectorOf dir) (clearEntry b j)
          SevenOS.flushTables dev) := by
        intro s h
        rw [wp_bind]
        refine release_step hw h hk0 fun s' h' => ?_
        rw [wp_bind, wp_modifyInode]
        exact (ReadOnly.get.sane.bind fun _ => (diskWriteLba _ _ _).bind fun _ => flushTables) _ h'
      exact Keeps.ite (fun _ => (removeDirContents hw _ k).bind fun _ => finish)
        (fun _ => (ReadOnly.require _).sane.bind fun _ => finish)

theorem fsRemovePath (path : CStr) : KeepsSane (fsRemovePath dev path) := by
  refine ReadOnly.get.sane.bind fun _ => (ReadOnly.require _).sane.bind fun _ =>
    (ReadOnly.require _).sane.bind fun _ => ?_
  cases splitPath path with
  | none =>
      exact ReadOnly.get.sane.bind fun _ => (ReadOnly.require _).sane.bind fun _ =>
        (ReadOnly.require _).sane.bind fun _ => (ReadOnly.require _).sane.bind fun _ =>
        (ReadOnly.require _).sane.bind fun _ => removeEntryFromDir hw _ _
  | some parts =>
      exact (ReadOnly.removeParent _ _).sane.bind fun _ => removeEntryFromDir hw _ _

theorem fsRemovePathRecursive (path : CStr) : KeepsSane (fsRemovePathRecursive dev path) := by
  refine ReadOnly.get.sane.bind fun _ => (ReadOnly.require _).sane.bind fun _ =>
    (ReadOnly.require _).sane.bind fun _ => ?_
  cases splitPath path with
  | none => exact (ReadOnly.require _).sane.bind fun _ => removeEntryFromDirRecursive hw _ _
  | some parts =>
      exact (ReadOnly.removeParent _ _).sane.bind fun _ => removeEntryFromDirRecursive hw _ _

end Release

end KeepsSane

/-! ## Whole sessions -/

/-- The root block on cleared tables is the first thing they agree on. -/
theorem formatRoot_sane {s : Fs} {root : Inode}
    (hcount : 1 ≤ s.sb.blockCount.toNat ∧ s.sb.blockCount.toNat ≤ 32768)
    (hbitmap : s.bitmap = Bytes.zero) (htab : s.inodes = assign (fun _ => Inode.zero) 0 root)
    (hused : root.used ≠ 0) (htype : root.type = inodeDir) (hsize : root.size = 0)
    (hblock : root.direct0 = 0) :
    wp (ensureRootDirBlock dev) (fun _ s' => Sane s'.toVolume) (fun _ => True) (fun _ => True)
      s := by
  have hroot : s.inodes 0 = root := by rw [htab, assign_same]
  rw [ensureRootDirBlock, wp_bind, wp_get, if_neg (by rw [hroot, hblock]; simp), wp_bind,
    wp_demand]
  refine ⟨fun b hb => ?_, fun _ => trivial⟩
  obtain ⟨hpos, hlt, -⟩ := allocBlockRaw_free hb
  rw [(allocated_empty hcount.1 hcount.2).blockLimit_eq] at hlt
  rw [wp_bind, wp_markBlockUsed, wp_bind, wp_modifyInode, wp_bind, wp_get]
  refine wp_mono (((KeepsSane.diskWriteLba _ _ _).bind fun _ => KeepsSane.flushTables) _ ?_)
    (fun _ _ h => h) (fun _ _ => trivial) fun _ _ => trivial
  refine ⟨?_, by simpa [Live, hroot] using hused⟩
  have := @allocated_root _ { root with direct0 := b } hcount hused htype
    (by simp [hsize]) hpos hlt
  simpa [hbitmap, htab, assign_assign] using this

/-- From its root block on, `fs_format` keeps tables that agree. -/
theorem fsFormat_sane {totalBlocks inodeCount : UInt32} {s s' : Fs}
    (hrun : fsFormat dev totalBlocks inodeCount s = (.ok (), s')) : Sane s'.toVolume := by
  have hcount := formatBlocks_bounds dev totalBlocks
  have rest : KeepsSane (do
      writeSuperblock dev
      flushBitmap dev
      flushInodes dev
      writeStatusFlag dev 0xFF
      writeSysFile dev passwdName (hashBytes (fnv1a32 defaultPassword))
      Prog.modify fun s => { s with lastError := .none, mounted := true }) :=
    (ReadOnly.get.sane.bind fun _ => KeepsSane.diskWriteLba _ _ _).bind fun _ =>
      (ReadOnly.get.sane.bind fun _ => KeepsSane.diskWriteSectors _ _ _ _).bind fun _ =>
      (ReadOnly.get.sane.bind fun _ => KeepsSane.diskWriteSectors _ _ _ _).bind fun _ =>
      (KeepsSane.writeSysFile (by decide)).bind fun _ =>
      (KeepsSane.writeSysFile (by change 4 ≤ 512; decide)).bind fun _ =>
      Keeps.modify fun _ h => ⟨h.alloc, h.root⟩
  have hspec : wp (fsFormat dev totalBlocks inodeCount) (fun _ s' => Sane s'.toVolume)
      (fun _ => True) (fun _ => True) s := by
    rw [fsFormat, wp_bind, wp_modify, wp_bind, wp_modifyInode]
    refine wp_call (formatRoot_sane hcount rfl rfl (by simp) rfl rfl rfl) ?_ (fun _ h => h)
      fun _ h => h
    exact fun _ s₁ h₁ => wp_mono (rest s₁ h₁) (fun _ _ h => h) (fun _ _ => trivial)
      fun _ _ => trivial
  rcases wp_run hspec hrun with ⟨_, -, h⟩ | ⟨ho, -⟩ | ⟨ho, -⟩
  · exact h
  · cases ho
  · cases ho

theorem Call.keepsSane (hw : FreeWritesWork dev) (call : Call) : KeepsSane (call.run dev) := by
  cases call with
  | mkdirPath path => exact KeepsSane.fsMkdirPath path
  | create name => exact KeepsSane.fsCreate name
  | writePath path data => exact KeepsSane.fsWritePath path data
  | copyPath srcPath dstPath => exact KeepsSane.fsCopyPath srcPath dstPath
  | rename srcPath dstPath => exact KeepsSane.fsRename srcPath dstPath
  | removePath path => exact KeepsSane.fsRemovePath hw path
  | removePathRecursive path => exact KeepsSane.fsRemovePathRecursive hw path
  | writePasswd hash => exact KeepsSane.writeSysFile (by change 4 ≤ 512; decide)

theorem Session.sane {allow : Fs → Call → Outcome Unit → Prop} (hw : FreeWritesWork dev) {s : Fs}
    (h : Session dev allow s) : Sane s.toVolume := by
  induction h with
  | format _ _ hrun => exact fsFormat_sane hrun
  | call _ _ hrun ih => exact (Call.keepsSane hw _).run ih hrun

end SevenOS
