import SevenOS.FileSystem.Proof.Volume

/-! # Programs on a disk that does not fail

Weakest preconditions of the transfers and of the small state changes when every
transfer works. What the operations do to the volume can then be read off their
text; log and scratch blocks come along unobserved.
-/

namespace SevenOS

open Prog

structure Device.Perfect (dev : Device) : Prop where
  reads : ∀ s lba, dev.readFails s lba = false
  writes : ∀ s lba, dev.writeFault s lba = none

def Device.Readable (dev : Device) : Prop := ∀ s lba, dev.readFails s lba = false

theorem Device.Perfect.readable {dev : Device} (hp : dev.Perfect) : dev.Readable := hp.reads

namespace Fs

def setVolume (s : Fs) (v : Volume) : Fs := { s with toVolume := v }
def setScratch (s : Fs) (b : Block) : Fs := { s with blockScratch := b }
def setScratch2 (s : Fs) (b : Block) : Fs := { s with blockScratch2 := b }
def noted (s : Fs) (t : Transfer) : Fs := { s with log := s.log ++ [t] }

variable (s : Fs) (v : Volume) (b : Block) (t : Transfer)

@[simp] theorem toVolume_setVolume : (s.setVolume v).toVolume = v := rfl
@[simp] theorem toVolume_setScratch : (s.setScratch b).toVolume = s.toVolume := rfl
@[simp] theorem toVolume_setScratch2 : (s.setScratch2 b).toVolume = s.toVolume := rfl
@[simp] theorem toVolume_noted : (s.noted t).toVolume = s.toVolume := rfl

@[simp] theorem scratch_setVolume : (s.setVolume v).blockScratch = s.blockScratch := rfl
@[simp] theorem scratch_setScratch : (s.setScratch b).blockScratch = b := rfl
@[simp] theorem scratch_setScratch2 : (s.setScratch2 b).blockScratch = s.blockScratch := rfl
@[simp] theorem scratch_noted : (s.noted t).blockScratch = s.blockScratch := rfl

@[simp] theorem scratch2_setVolume : (s.setVolume v).blockScratch2 = s.blockScratch2 := rfl
@[simp] theorem scratch2_setScratch : (s.setScratch b).blockScratch2 = s.blockScratch2 := rfl
@[simp] theorem scratch2_setScratch2 : (s.setScratch2 b).blockScratch2 = b := rfl
@[simp] theorem scratch2_noted : (s.noted t).blockScratch2 = s.blockScratch2 := rfl

/-! Volume edits are collected outermost. -/

@[simp] theorem setVolume_setVolume (v' : Volume) :
    (s.setVolume v).setVolume v' = s.setVolume v' := rfl
@[simp] theorem setVolume_setScratch :
    (s.setVolume v).setScratch b = (s.setScratch b).setVolume v := rfl
@[simp] theorem setVolume_setScratch2 :
    (s.setVolume v).setScratch2 b = (s.setScratch2 b).setVolume v := rfl
@[simp] theorem setVolume_noted : (s.setVolume v).noted t = (s.noted t).setVolume v := rfl

end Fs

@[simp] theorem Volume.disk_dataSector (v : Volume) (b : UInt32) :
    v.disk (v.dataSector b) = v.data b := rfl

theorem Volume.sectorOf_eq (v : Volume) (i : InodeNo) :
    v.sectorOf i = v.dataSector (v.inodes i).direct0 := rfl

@[simp] theorem Volume.disk_sectorOf (v : Volume) (i : InodeNo) :
    v.disk (v.sectorOf i) = v.blockOf i := rfl

namespace Volume

variable (v : Volume) (a b : UInt32) (i : InodeNo) (ino : Inode) (x : Block)

@[simp] theorem dataSector_setSector (l : UInt32) :
    (v.setSector l x).dataSector b = v.dataSector b := rfl
@[simp] theorem dataSector_setData : (v.setData a x).dataSector b = v.dataSector b := rfl
@[simp] theorem dataSector_useBlock : (v.useBlock a).dataSector b = v.dataSector b := rfl
@[simp] theorem dataSector_freeBlock : (v.freeBlock a).dataSector b = v.dataSector b := rfl
@[simp] theorem dataSector_putInode : (v.putInode i ino).dataSector b = v.dataSector b := rfl

end Volume

section Rules

variable {Q : Unit → Fs → Prop} {R D : Fs → Prop} {s : Fs}

theorem wp_note (t : Transfer) : wp (note t) Q R D s ↔ Q () (s.noted t) := Iff.rfl

@[simp] theorem wp_markBlockUsed (b : UInt32) :
    wp (markBlockUsed b) Q R D s ↔ Q () (s.setVolume (s.toVolume.useBlock b)) := Iff.rfl

@[simp] theorem wp_markBlockFree (b : UInt32) :
    wp (markBlockFree b) Q R D s ↔ Q () (s.setVolume (s.toVolume.freeBlock b)) := Iff.rfl

@[simp] theorem wp_setScratch (f : Fs → Block) :
    wp (modify fun s => { s with blockScratch := f s }) Q R D s ↔
      Q () (s.setScratch (f s)) := Iff.rfl

@[simp] theorem wp_setScratch2 (f : Fs → Block) :
    wp (modify fun s => { s with blockScratch2 := f s }) Q R D s ↔
      Q () (s.setScratch2 (f s)) := Iff.rfl

@[simp] theorem wp_modifyInode (i : InodeNo) (f : Inode → Inode) :
    wp (modifyInode i f) Q R D s ↔
      Q () (s.setVolume (s.toVolume.putInode i (f (s.inodes i)))) := Iff.rfl

namespace Device.Readable

variable {dev : Device} (hd : dev.Readable)

include hd

theorem wp_read (object : Nat) (lba : UInt32) {Q : Block → Fs → Prop} :
    wp (diskReadLba dev object lba) Q R D s ↔
      Q (s.disk lba) (s.noted ⟨false, lba, 1, object⟩) := by
  simp [diskReadLba, wp_note, hd _ _]

theorem wp_loadScratch (lba : UInt32) :
    wp (loadScratch dev lba) Q R D s ↔
      Q () ((s.noted ⟨false, lba, 1, 512⟩).setScratch (s.disk lba)) := by
  simp [loadScratch, hd.wp_read, wp_setScratch]

theorem wp_loadScratch2 (lba : UInt32) :
    wp (loadScratch2 dev lba) Q R D s ↔
      Q () ((s.noted ⟨false, lba, 1, 512⟩).setScratch2 (s.disk lba)) := by
  simp [loadScratch2, hd.wp_read, wp_setScratch2]

end Device.Readable

namespace Device.Perfect

variable {dev : Device} (hp : dev.Perfect)

include hp

@[simp] theorem wp_read (object : Nat) (lba : UInt32) {Q : Block → Fs → Prop} :
    wp (diskReadLba dev object lba) Q R D s ↔
      Q (s.disk lba) (s.noted ⟨false, lba, 1, object⟩) := hp.readable.wp_read object lba

theorem wp_writeSector (lba : UInt32) (b : Block) :
    wp (writeSector dev lba b) Q R D s ↔
      Q () (s.setVolume (s.toVolume.setSector lba b)) := by
  simp only [writeSector, wp_bind, wp_get, hp.writes, wp_modify]
  exact Iff.rfl

@[simp] theorem wp_write (object : Nat) (lba : UInt32) (b : Block) :
    wp (diskWriteLba dev object lba b) Q R D s ↔
      Q () ((s.noted ⟨true, lba, 1, object⟩).setVolume (s.toVolume.setSector lba b)) := by
  simp [diskWriteLba, wp_note, hp.wp_writeSector]

@[simp] theorem wp_loadScratch (lba : UInt32) :
    wp (loadScratch dev lba) Q R D s ↔
      Q () ((s.noted ⟨false, lba, 1, 512⟩).setScratch (s.disk lba)) :=
  hp.readable.wp_loadScratch lba

@[simp] theorem wp_loadScratch2 (lba : UInt32) :
    wp (loadScratch2 dev lba) Q R D s ↔
      Q () ((s.noted ⟨false, lba, 1, 512⟩).setScratch2 (s.disk lba)) :=
  hp.readable.wp_loadScratch2 lba

/-- The rules above, for a state known only by what it keeps. -/
theorem read_step {object : Nat} {lba : UInt32} {Q : Block → Fs → Prop}
    (h : ∀ s', s'.toVolume = s.toVolume → Q (s.disk lba) s') :
    wp (diskReadLba dev object lba) Q R D s := by
  rw [hp.wp_read]
  exact h _ rfl

theorem loadScratch_step {lba : UInt32}
    (h : ∀ s', s'.toVolume = s.toVolume → s'.blockScratch = s.disk lba → Q () s') :
    wp (loadScratch dev lba) Q R D s := by
  rw [hp.wp_loadScratch]
  exact h _ rfl rfl

theorem wp_writeSectors (object : Nat) (lba : UInt32) (n : Nat) (content : Nat → Block) :
    wp (diskWriteSectors dev object lba n content) Q R D s ↔
      Q () ((s.noted ⟨true, lba, n, object⟩).setVolume
        { s.toVolume with disk := Volume.writeSectors s.disk lba n content }) := by
  have loop : ∀ (ks : List Nat) (s : Fs),
      wp (ks.foldlM (fun _ k => writeSector dev (lba + UInt32.ofNat k) (content k)) ()) Q R D s ↔
        Q () (s.setVolume { s.toVolume with
          disk := ks.foldl (fun d k => assign d (lba + UInt32.ofNat k) (content k)) s.disk }) := by
    intro ks
    induction ks with
    | nil => intro s; rfl
    | cons k ks ih =>
        intro s
        rw [List.foldlM_cons, wp_bind, hp.wp_writeSector, ih]
        rfl
  rw [diskWriteSectors, wp_bind, wp_note, loop]
  rfl

@[simp] theorem wp_flushTables :
    wp (flushTables dev) Q R D s ↔
      Q () (((s.noted ⟨true, s.sb.bitmapLba, fsBitmapSectors, 4096⟩).noted
        ⟨true, s.sb.inodeTableLba, fsInodeTableSectors, 4096⟩).setVolume s.toVolume.flush) := by
  simp only [flushTables, flushBitmap, flushInodes, wp_bind, wp_get, hp.wp_writeSectors]
  rfl

end Device.Perfect

end Rules

end SevenOS
