import SevenOS.Lib.Paired
import SevenOS.FileSystem.Passwd

/-! # Formatting forgets

Two runs of `fs_format` over different memories and disks go in step: all they
branch on is the superblock, the tables and the blocks of inodes in use, and these
are written before they are read.
-/

namespace SevenOS

open Prog

variable {dev dev' : Device} {stray : InodeNo → Prop} {v v' : Volume} {s t : Fs}

/-! ## Two volumes -/

/-- Superblock and tables agree, and so do the blocks of the inodes in use, less those
that wait to be written. -/
structure Alike (pending : InodeNo → Prop) (v v' : Volume) : Prop where
  sb : v.sb = v'.sb
  bitmap : v.bitmap = v'.bitmap
  inodes : v.inodes = v'.inodes
  blocks : ∀ i, (v.inodes i).used ≠ 0 → ¬ pending i → v.blockOf i = v'.blockOf i

namespace Alike

variable {pending pending' : InodeNo → Prop}

theorem mono (h : Alike pending v v') (himp : ∀ i, pending i → pending' i) :
    Alike pending' v v' :=
  ⟨h.sb, h.bitmap, h.inodes, fun i hi hno => h.blocks i hi fun hp => hno (himp i hp)⟩

theorem complete (h : Alike pending v v') (hdone : ∀ i, ¬ pending i) :
    Alike (fun _ => False) v v' := h.mono fun i hi => hdone i hi

theorem sectorOf (h : Alike pending v v') (i : InodeNo) : v.sectorOf i = v'.sectorOf i := by
  rw [Volume.sectorOf, Volume.sectorOf, Volume.dataSector, Volume.dataSector, h.sb, h.inodes]

theorem allocInode (h : Alike pending v v') : allocInodeRaw v = allocInodeRaw v' := by
  rw [allocInodeRaw, allocInodeRaw, h.sb, h.inodes]

theorem allocBlock (h : Alike pending v v') : allocBlockRaw v = allocBlockRaw v' := by
  rw [allocBlockRaw, allocBlockRaw, h.sb, h.bitmap]

theorem isDir (h : Alike pending v v') (d : InodeNo) : isDirInode v d ↔ isDirInode v' d := by
  rw [isDirInode, isDirInode, h.inodes]

theorem emptied {root : Inode} (hsb : v.sb = v'.sb) (hbitmap : v.bitmap = v'.bitmap)
    (hinodes : v.inodes = assign (fun _ => Inode.zero) 0 root) (hsame : v.inodes = v'.inodes)
    (hroot : root.direct0 = 0) : Alike (fun i => i = 0 ∧ (v.inodes 0).direct0 = 0) v v' := by
  refine ⟨hsb, hbitmap, hsame, fun i hi hno => (hno ⟨?_, ?_⟩).elim⟩
  · by_contra hne
    rw [hinodes, assign_of_ne _ _ hne] at hi
    exact hi rfl
  · rw [hinodes, assign_same, hroot]

theorem setSector (h : Alike pending v v') (lba : UInt32) (b : Block) :
    Alike pending (v.setSector lba b) (v'.setSector lba b) := by
  refine ⟨h.sb, h.bitmap, h.inodes, fun i hi hno => ?_⟩
  change assign v.disk lba b (v.sectorOf i) = assign v'.disk lba b (v'.sectorOf i)
  rw [assign_apply, assign_apply, ← h.sectorOf i]
  split
  · rfl
  · have hblock := h.blocks i hi hno
    rw [← Volume.disk_sectorOf, ← Volume.disk_sectorOf, ← h.sectorOf i] at hblock
    exact hblock

/-- The block of an inode is written: it does not wait any longer. -/
theorem setBlock (h : Alike pending v v') (k : InodeNo) (b : Block) :
    Alike (fun i => pending i ∧ i ≠ k) (v.setSector (v.sectorOf k) b)
      (v'.setSector (v'.sectorOf k) b) := by
  refine ⟨h.sb, h.bitmap, h.inodes, fun i hi hno => ?_⟩
  by_cases hik : i = k
  · subst hik
    change assign v.disk (v.sectorOf i) b (v.sectorOf i) =
      assign v'.disk (v'.sectorOf i) b (v'.sectorOf i)
    rw [assign_same, assign_same]
  · rw [← h.sectorOf k]
    exact (h.setSector (v.sectorOf k) b).blocks i hi fun hp => hno ⟨hp, hik⟩

theorem setOther (h : Alike pending v v') {lba : UInt32}
    (hlba : ∀ i, (v.inodes i).used ≠ 0 → v.sectorOf i ≠ lba) (b b' : Block) :
    Alike pending (v.setSector lba b) (v'.setSector lba b') := by
  refine ⟨h.sb, h.bitmap, h.inodes, fun i hi hno => ?_⟩
  have hne : v.sectorOf i ≠ lba := hlba i hi
  change assign v.disk lba b (v.sectorOf i) = assign v'.disk lba b' (v'.sectorOf i)
  rw [assign_of_ne _ _ hne, assign_of_ne _ _ (h.sectorOf i ▸ hne)]
  exact h.blocks i hi hno

theorem useBlock (h : Alike pending v v') (b : UInt32) :
    Alike pending (v.useBlock b) (v'.useBlock b) :=
  ⟨h.sb, congrArg (fun bitmap : Bitmap => bitmap.setBit b.toNat) h.bitmap, h.inodes, h.blocks⟩

theorem putInode (h : Alike pending v v') (k : InodeNo) (ino : Inode) :
    Alike (fun i => pending i ∨ i = k) (v.putInode k ino) (v'.putInode k ino) := by
  have hinodes : (v.putInode k ino).inodes = (v'.putInode k ino).inodes := by
    rw [Volume.inodes_putInode, Volume.inodes_putInode, h.inodes]
  refine ⟨h.sb, h.bitmap, hinodes, fun i hi hno => ?_⟩
  rw [not_or] at hno
  have hold : (v.putInode k ino).inodes i = v.inodes i := assign_of_ne _ _ hno.2
  rw [hold] at hi
  have hblock := h.blocks i hi hno.1
  rw [Volume.blockOf, Volume.blockOf, ← hinodes, hold, Volume.data_putInode, Volume.data_putInode]
  rw [Volume.blockOf, Volume.blockOf, ← h.inodes] at hblock
  exact hblock

theorem resize (h : Alike pending v v') {k : InodeNo} (hused : (v.inodes k).used ≠ 0)
    (size : UInt32) : Alike pending (v.putInode k { v.inodes k with size := size })
      (v'.putInode k { v'.inodes k with size := size }) := by
  rw [← h.inodes]
  have hput := h.putInode k { v.inodes k with size := size }
  refine ⟨hput.sb, hput.bitmap, hput.inodes, fun i hi hno => ?_⟩
  by_cases hik : i = k
  · subst hik
    have hblock := h.blocks i hused hno
    rw [Volume.blockOf, Volume.blockOf, ← h.inodes] at hblock
    simpa [Volume.blockOf] using hblock
  · exact hput.blocks i hi fun hp => hp.elim hno hik

theorem writeSectors_congr {disk disk' : UInt32 → Block} {l : UInt32} (h : disk l = disk' l)
    (lba : UInt32) (n : Nat) (content : Nat → Block) :
    Volume.writeSectors disk lba n content l = Volume.writeSectors disk' lba n content l := by
  induction n with
  | zero => exact h
  | succ n ih =>
      rw [Volume.writeSectors_succ, Volume.writeSectors_succ, assign_apply, assign_apply, ih]

theorem writeSectors (h : Alike pending v v') (lba : UInt32) (n : Nat) (content : Nat → Block) :
    Alike pending { v with disk := Volume.writeSectors v.disk lba n content }
      { v' with disk := Volume.writeSectors v'.disk lba n content } := by
  refine ⟨h.sb, h.bitmap, h.inodes, fun i hi hno => ?_⟩
  have hblock := h.blocks i hi hno
  rw [← Volume.disk_sectorOf, ← Volume.disk_sectorOf, ← h.sectorOf i] at hblock
  change Volume.writeSectors v.disk lba n content (v.sectorOf i) =
    Volume.writeSectors v'.disk lba n content (v'.sectorOf i)
  rw [← h.sectorOf i]
  exact writeSectors_congr hblock lba n content

theorem flush (h : Alike pending v v') : Alike pending v.flush v'.flush := by
  rw [Volume.flush, Volume.flush, ← h.sb, ← h.bitmap, ← h.inodes]
  have hbitmap := h.writeSectors v.sb.bitmapLba fsBitmapSectors (bitmapSector v.bitmap)
  have hall := hbitmap.writeSectors v.sb.inodeTableLba fsInodeTableSectors (inodeSector v.inodes)
  simpa [← h.sb, ← h.bitmap, ← h.inodes] using hall

end Alike

/-! ## In step -/

section Steps

variable {α : Type} {Q : Unit → Fs → Fs → Prop} {Q' : α → Fs → Fs → Prop}

/-- Block and inode taken; the scratch blocks stay as they are. -/
theorem paired_take {block : UInt32} {k : InodeNo} {c : Inode → Inode} {f g : Unit → FsM α}
    (h : ∀ s' t' : Fs,
      s'.toVolume = (s.toVolume.useBlock block).putInode k (c (s.inodes k)) →
      t'.toVolume = (t.toVolume.useBlock block).putInode k (c (t.inodes k)) →
      s'.blockScratch = s.blockScratch ∧ t'.blockScratch = t.blockScratch →
      s'.blockScratch2 = s.blockScratch2 ∧ t'.blockScratch2 = t.blockScratch2 →
      Paired (f ()) (g ()) Q' s' t') :
    Paired (markBlockUsed block >>= fun _ => modifyInode k c >>= f)
      (markBlockUsed block >>= fun _ => modifyInode k c >>= g) Q' s t :=
  h _ _ rfl rfl ⟨rfl, rfl⟩ ⟨rfl, rfl⟩

/-- The file of this name is found or made; then only its block waits. -/
theorem paired_ensureSysEntry (h : Alike (fun _ => False) s.toVolume t.toVolume)
    (hb : s.blockScratch2 = t.blockScratch2) (filename : CStr) (len : UInt32) :
    Paired (ensureSysEntry filename len) (ensureSysEntry filename len) (fun k s' t' =>
      Alike (· = k) s'.toVolume t'.toVolume ∧ s'.blockScratch2 = t'.blockScratch2) s t := by
  refine .get ?_
  rw [← hb, ← h.inodes]
  cases hi : findDirEntry filename s.blockScratch2 s.inodes inodeFile with
  | some i =>
      obtain ⟨k, hit⟩ := findDirEntry_some (by decide) hi
      refine .demand rfl fun k' hk' => .modify (.pure ⟨?_, hb⟩)
      rw [hit.inodeIndex] at hk'
      cases hk'
      exact (h.resize hit.used len).mono fun i hi => hi.elim
  | none =>
      refine .demand h.allocInode fun k _ => .demand h.allocBlock fun b _ => ?_
      refine paired_take fun s₁ t₁ hs₁ ht₁ _ hb₁ => .demand rfl fun j _ => .modify (.pure ⟨?_, ?_⟩)
      · have hput := (h.useBlock b).putInode k ((s.inodes k).fresh inodeFile len b)
        change Alike _ s₁.toVolume t₁.toVolume
        rw [hs₁, ht₁, ← h.inodes]
        exact hput.mono fun i hi => hi.resolve_left id
      · change fillEntry s₁.blockScratch2 j k filename = fillEntry t₁.blockScratch2 j k filename
        rw [hb₁.1, hb₁.2, hb]

variable (hp : dev.Perfect) (hp' : dev'.Perfect)

include hp hp'

theorem paired_write {object : Nat} {lba lba' : UInt32} {b b' : Block}
    (h : ∀ s' t' : Fs, s'.toVolume = s.toVolume.setSector lba b →
      t'.toVolume = t.toVolume.setSector lba' b' →
      s'.blockScratch = s.blockScratch ∧ t'.blockScratch = t.blockScratch →
      s'.blockScratch2 = s.blockScratch2 ∧ t'.blockScratch2 = t.blockScratch2 → Q () s' t') :
    Paired (diskWriteLba dev object lba b) (diskWriteLba dev' object lba' b') Q s t :=
  .of_wp ((hp.wp_write object lba b).mpr ⟨rfl, rfl⟩) ((hp'.wp_write object lba' b').mpr ⟨rfl, rfl⟩)
    (h _ _ rfl rfl ⟨rfl, rfl⟩ ⟨rfl, rfl⟩)

theorem paired_writeSectors {object : Nat} {lba lba' : UInt32} {n : Nat}
    {content content' : Nat → Block} (hlba : lba = lba') (hcontent : content = content')
    {pending : InodeNo → Prop} (h : Alike pending s.toVolume t.toVolume) :
    Paired (diskWriteSectors dev object lba n content) (diskWriteSectors dev' object lba' n content')
      (fun _ s' t' => Alike pending s'.toVolume t'.toVolume) s t := by
  subst hlba hcontent
  exact .of_wp ((hp.wp_writeSectors object lba n content).mpr ⟨rfl, rfl⟩)
    ((hp'.wp_writeSectors object lba n content).mpr ⟨rfl, rfl⟩) (h.writeSectors lba n content)

theorem paired_flushTables (h : ∀ s' t' : Fs, s'.toVolume = s.toVolume.flush →
      t'.toVolume = t.toVolume.flush → Q () s' t') :
    Paired (flushTables dev) (flushTables dev') Q s t :=
  .of_wp (hp.wp_flushTables.mpr ⟨rfl, rfl⟩) (hp'.wp_flushTables.mpr ⟨rfl, rfl⟩) (h _ _ rfl rfl)

theorem paired_loadScratch {lba lba' : UInt32} (h : ∀ s' t' : Fs, s'.toVolume = s.toVolume →
      t'.toVolume = t.toVolume → s'.blockScratch = s.disk lba → t'.blockScratch = t.disk lba' →
      Q () s' t') : Paired (loadScratch dev lba) (loadScratch dev' lba') Q s t :=
  .of_wp ((hp.wp_loadScratch lba).mpr ⟨rfl, rfl⟩) ((hp'.wp_loadScratch lba').mpr ⟨rfl, rfl⟩)
    (h _ _ rfl rfl rfl rfl)

theorem paired_loadScratch2 {lba lba' : UInt32} (h : ∀ s' t' : Fs, s'.toVolume = s.toVolume →
      t'.toVolume = t.toVolume → s'.blockScratch2 = s.disk lba → t'.blockScratch2 = t.disk lba' →
      Q () s' t') : Paired (loadScratch2 dev lba) (loadScratch2 dev' lba') Q s t :=
  .of_wp ((hp.wp_loadScratch2 lba).mpr ⟨rfl, rfl⟩) ((hp'.wp_loadScratch2 lba').mpr ⟨rfl, rfl⟩)
    (h _ _ rfl rfl rfl rfl)

theorem paired_ensureRootDirBlock
    (h : Alike (fun i => i = 0 ∧ (s.inodes 0).direct0 = 0) s.toVolume t.toVolume) :
    Paired (ensureRootDirBlock dev) (ensureRootDirBlock dev')
      (fun _ s' t' => Alike (fun _ => False) s'.toVolume t'.toVolume) s t := by
  refine .get ?_
  rw [← h.inodes]
  by_cases h0 : (s.inodes 0).direct0 ≠ 0
  · rw [if_pos h0, if_pos h0]
    exact .pure (h.mono fun i hi => h0 hi.2)
  · rw [if_neg h0, if_neg h0]
    refine .demand h.allocBlock fun block _ => paired_take fun s₁ t₁ hs₁ ht₁ _ _ => .get ?_
    refine .step (paired_write hp hp' fun s₂ t₂ hs₂ ht₂ _ _ => ?_)
    refine paired_flushTables hp hp' fun s₃ t₃ hs₃ ht₃ => ?_
    have hput := (h.useBlock block).putInode 0 { s.inodes 0 with direct0 := block }
    rw [hs₃, ht₃, hs₂, ht₂, hs₁, ht₁, ← h.inodes]
    refine (hput.setBlock 0 Bytes.zero).flush.mono fun i hi => ?_
    obtain ⟨⟨hi, -⟩ | hi, hne⟩ := hi
    · exact hne hi
    · exact hne hi

theorem paired_ensureSysDir (h : Alike (fun _ => False) s.toVolume t.toVolume)
    (hb : s.blockScratch = t.blockScratch) :
    Paired (ensureSysDir dev) (ensureSysDir dev') (fun k s' t' =>
      Alike (fun _ => False) s'.toVolume t'.toVolume ∧ (s'.inodes k).used ≠ 0 ∧
        s'.blockScratch = t'.blockScratch) s t := by
  refine .get ?_
  rw [← hb, ← h.inodes]
  cases hi : findDirEntry sysName s.blockScratch s.inodes inodeDir with
  | some i =>
      obtain ⟨k, hit⟩ := findDirEntry_some (by decide) hi
      refine .demand rfl fun k' hk' => .require Iff.rfl fun _ => .pure ⟨h, ?_, hb⟩
      rw [hit.inodeIndex] at hk'
      cases hk'
      exact hit.used
  | none =>
      refine .demand h.allocInode fun k _ => .demand h.allocBlock fun b _ => ?_
      refine paired_take fun s₁ t₁ hs₁ ht₁ hb₁ _ => .demand rfl fun j _ => ?_
      refine .modify (.modify (.get ?_))
      refine .step (paired_write hp hp' fun s₂ t₂ hs₂ ht₂ hb₂ _ => .pure ⟨?_, ?_, ?_⟩)
      · have hput := (h.useBlock b).putInode k ((s.inodes k).fresh inodeDir 0 b)
        have hall := (hput.setBlock k Bytes.zero).complete fun i hi => hi.2 (hi.1.resolve_left id)
        rw [← hs₁, show (s.inodes k).fresh inodeDir 0 b = (t.inodes k).fresh inodeDir 0 b by
          rw [← h.inodes], ← ht₁] at hall
        rw [hs₂, ht₂]
        exact hall
      · rw [hs₂]
        change (s₁.inodes k).used ≠ 0
        rw [hs₁, Volume.inodes_putInode, assign_same]
        exact show (1 : UInt8) ≠ 0 by decide
      · rw [hb₂.1, hb₂.2]
        change fillEntry s₁.blockScratch j k sysName = fillEntry t₁.blockScratch j k sysName
        rw [hb₁.1, hb₁.2, hb]

theorem paired_writeSysEntry (h : Alike (fun _ => False) s.toVolume t.toVolume)
    (hb : s.blockScratch2 = t.blockScratch2) (sysInode : InodeNo) (filename : CStr)
    (data : List UInt8) :
    Paired (writeSysEntry dev sysInode filename data) (writeSysEntry dev' sysInode filename data)
      (fun _ s' t' => Alike (fun _ => False) s'.toVolume t'.toVolume) s t := by
  refine .bind (paired_ensureSysEntry h hb filename _) ?_
  rintro k s₁ t₁ ⟨h₁, hb₁⟩
  refine .get (.step (paired_write hp hp' fun s₂ t₂ hs₂ ht₂ _ _ => .modify (.get ?_)))
  refine .step (paired_write hp hp' fun s₃ t₃ hs₃ ht₃ _ _ => ?_)
  refine paired_flushTables hp hp' fun s₄ t₄ hs₄ ht₄ => ?_
  have h₂ : Alike (· = k) s₂.toVolume t₂.toVolume := by
    rw [hs₂, ht₂, ← h₁.sectorOf sysInode, ← hb₁]
    exact h₁.setSector _ _
  have h₃ := h₂.setBlock k (Bytes.zero.paste 0 (data.take 512))
  rw [hs₄, ht₄, hs₃, ht₃]
  exact h₃.flush.mono fun i hi => hi.2 hi.1

/-- What `write_sys_file` reads it has written before, or is the block of an inode in use. -/
theorem paired_writeSysFile
    (h : Alike (fun i => i = 0 ∧ (s.inodes 0).direct0 = 0) s.toVolume t.toVolume) (filename : CStr)
    (data : List UInt8) :
    Paired (writeSysFile dev filename data) (writeSysFile dev' filename data)
      (fun _ s' t' => Alike (fun _ => False) s'.toVolume t'.toVolume) s t := by
  refine .bind (paired_ensureRootDirBlock hp hp' h) fun _ s₁ t₁ h₁ => ?_
  have hread : Paired (readRootDirBlock dev) (readRootDirBlock dev') (fun _ s' t' =>
      Alike (fun _ => False) s'.toVolume t'.toVolume ∧ s'.blockScratch = t'.blockScratch) s₁ t₁ := by
    refine .get (.require (h₁.isDir 0) fun hroot => paired_loadScratch hp hp' ?_)
    intro s₂ t₂ hs₂ ht₂ hb₂ hb₂'
    rw [hs₂, ht₂, hb₂, hb₂']
    exact ⟨h₁, h₁.blocks 0 hroot.1 id⟩
  refine .bind hread ?_
  rintro - s₂ t₂ ⟨h₂, hb₂⟩
  refine .bind (paired_ensureSysDir hp hp' h₂ hb₂) ?_
  rintro d s₃ t₃ ⟨h₃, hd, hb₃⟩
  refine .get (.step (paired_write hp hp' fun s₄ t₄ hs₄ ht₄ _ _ => ?_))
  have h₄ : Alike (fun _ => False) s₄.toVolume t₄.toVolume := by
    rw [hs₄, ht₄, ← h₃.sectorOf 0, ← hb₃]
    exact h₃.setSector _ _
  refine .step (paired_loadScratch2 hp hp' fun s₅ t₅ hs₅ ht₅ hb₅ hb₅' => ?_)
  refine paired_writeSysEntry hp hp' (by rw [hs₅, ht₅]; exact h₄) ?_ d filename data
  have hblock := h₄.blocks d (by rw [hs₄]; exact hd) id
  rw [hb₅, hb₅']
  rw [← Volume.disk_sectorOf, ← Volume.disk_sectorOf] at hblock
  have hsector : s₄.sectorOf d = s₃.sectorOf d := by rw [hs₄]; rfl
  have hsector' : t₄.sectorOf d = t₃.sectorOf d := by rw [ht₄]; rfl
  rw [← hsector, ← hsector']
  exact hblock

/-- The superblock is written between, and may take other bytes along. -/
theorem paired_fsFormat (hsize : dev'.sectorCount = dev.sectorCount)
    (totalBlocks inodeCount : UInt32) :
    Paired (fsFormat dev totalBlocks inodeCount) (fsFormat dev' totalBlocks inodeCount)
      (fun _ s' t' => Alike (fun _ => False) s'.toVolume t'.toVolume) s t := by
  have hblocks : formatBlocks dev' totalBlocks = formatBlocks dev totalBlocks := by
    rw [formatBlocks, formatBlocks, hsize]
  have hcount := formatBlocks_bounds dev totalBlocks
  unfold fsFormat
  rw [hblocks]
  refine .modify (.modify (.bind ((paired_ensureRootDirBlock hp hp' ?_).also
    (formatRoot_spec hp ⟨rfl, rfl, rfl⟩ hcount rfl rfl (by simp) rfl rfl rfl)) ?_))
  · exact .emptied rfl rfl rfl rfl rfl
  rintro - s₁ t₁ ⟨⟨hinv, -, -⟩, h₁⟩
  refine .step (.get (paired_write hp hp' fun s₂ t₂ hs₂ ht₂ _ _ => ?_))
  have h₂ : Alike (fun _ => False) s₂.toVolume t₂.toVolume := by
    rw [hs₂, ht₂]
    refine h₁.setOther (fun i hi => ?_) _ _
    exact hinv.layout.dataSector_ne (hinv.alloc.blockBound hi) (by decide)
  refine .bind (.get (paired_writeSectors hp hp' (by rw [h₂.sb]) (by rw [h₂.bitmap]) h₂)) ?_
  intro _ s₃ t₃ h₃
  refine .bind (.get (paired_writeSectors hp hp' (by rw [h₃.sb]) (by rw [h₃.inodes]) h₃)) ?_
  intro _ s₄ t₄ h₄
  refine .bind (paired_writeSysFile hp hp' (h₄.mono fun _ hi => hi.elim) _ _) fun _ s₅ t₅ h₅ => ?_
  refine .bind (paired_writeSysFile hp hp' (h₅.mono fun _ hi => hi.elim) _ _) fun _ s₆ t₆ h₆ => ?_
  exact .of_wp ⟨rfl, rfl⟩ ⟨rfl, rfl⟩ ⟨h₆.sb, h₆.bitmap, h₆.inodes, h₆.blocks⟩

end Steps

/-! ## The two files -/

theorem Inv.files_alone (h : Inv stray v) (halone : ∀ i, Live v.inodes i → i = 0) (path : CStr) :
    v.files path = none := by
  cases hk : v.resolve path inodeFile with
  | none => rw [Volume.files, hk]; rfl
  | some k =>
      obtain ⟨hlive, hfile⟩ := h.resolve_live (by decide) hk
      rw [halone k hlive, h.linked.root.1.2] at hfile
      exact absurd hfile (by decide)

/-- "sys/status" -/
def sysStatus : CStr := joinPath sysName statusName

theorem fsFormat_files {totalBlocks inodeCount : UInt32} {s' : Fs} (hp : dev.Perfect)
    (hrun : fsFormat dev totalBlocks inodeCount s = (.ok (), s')) (path : CStr) :
    s'.toVolume.files path =
      if path = sysPasswd then some (hashBytes (fsHashPassword defaultPassword))
      else if path = sysStatus then some [0xFF] else none := by
  obtain ⟨v₀, v₁, v₂, h₀, -, halone, hstatus, hpasswd, hv⟩ := fsFormat_steps hp hrun
  have h₁ := (SysStored.flushed h₀ (by decide) hstatus).sound
  have hfiles : s'.toVolume.files path = v₂.files path := by rw [hv]; rfl
  rw [hfiles, SysStored.files h₁.inv (by decide) hpasswd, SysStored.files h₀.inv (by decide) hstatus,
    h₀.inv.files_alone halone]
  rw [show (4 : UInt32).toNat = (hashBytes (fnv1a32 defaultPassword)).length from rfl,
    passwdBlock, Bytes.firstBytes_paste _ _ (by change 4 ≤ 512; decide),
    show (1 : UInt32).toNat = [(0xFF : UInt8)].length from rfl,
    Bytes.firstBytes_paste _ _ (by decide)]
  rfl

/-! ## The own reading of `fs_is_formatted` -/

theorem Allocated.formattedInode {sb : Superblock} {bitmap : Bitmap} {tab : Table}
    (h : Allocated sb bitmap tab) {i : InodeNo} (hi : Live tab i) :
    SevenOS.formattedInode sb (tab i) := by
  refine ⟨hi, ?_, ?_⟩
  · intro h0
    have := h.blockPos i hi
    rw [h0] at this
    exact absurd this (by decide)
  · rw [UInt32.lt_iff_toNat_lt]
    exact h.blockLt i hi

theorem Inv.wp_findEntry (h : Inv stray v) {d k : InodeNo} {j : Slot} {name : CStr} {type : UInt8}
    (hd : Kept stray v.inodes d) (ht : type ≠ 0) (hit : Hit (v.dirAt d) v.inodes name type j k)
    {α : Type} {f : InodeNo → FsM α} {Q : α → Fs → Prop} {R D : Fs → Prop}
    (hf : wp (f k) Q R D s) :
    wp (demand (findDirEntry name (v.blockOf d) v.inodes type) >>= fun entry =>
      demand (inodeIndex (entryInode (v.blockOf d) entry)) >>= f) Q R D s := by
  simp only [wp_bind, wp_demand]
  refine ⟨fun j' hj' => ?_, fun hnone => (findDirEntry_none ht hnone j k hit).elim⟩
  obtain ⟨k', hit'⟩ := findDirEntry_some ht hj'
  obtain ⟨-, rfl⟩ := h.hit_unique hd hit hit'
  rw [hit'.inodeIndex]
  exact ⟨fun x hx => Option.some.inj hx ▸ hf, fun hno => by cases hno⟩

/-- The inode table as it is on the disk, in `g_inode_scratch`. -/
theorem Device.Perfect.scratchInodes_step (hp : dev.Perfect) {Q : Unit → Fs → Prop}
    {R D : Fs → Prop} (h : ∀ s' : Fs, s'.toVolume = s.toVolume →
      s'.inodeScratch = s.toVolume.inodeOnDisk → Q () s') :
    wp (diskReadSectors dev 4096 s.sb.inodeTableLba fsInodeTableSectors fun k b s =>
      { s with inodeScratch := storeInodeSector s.inodeScratch k b }) Q R D s := by
  refine (hp.wp_readSectors _ _ _ ?_).mpr ?_
  · exact fun _ _ _ => rfl
  · rw [foldl_field (fun s : Fs => s.inodeScratch) (fun tab s => { s with inodeScratch := tab })
      (fun _ => rfl) (fun _ _ => rfl) (fun _ _ _ => rfl) fun tab k =>
        storeInodeSector tab k (s.disk (s.sb.inodeTableLba + UInt32.ofNat k))]
    exact h _ rfl (s.toVolume.storeInodes s.inodeScratch)

theorem checkFormat_ok (hp : dev.Perfect) (h : Resting stray (fun _ => False) s.toVolume)
    {rest : List UInt8} (hstatus : s.toVolume.files sysStatus = some (0xFF :: rest)) :
    (checkFormat dev s.sb s).1 = .ok () := by
  obtain ⟨k, hk, hcontents⟩ := Option.map_eq_some_iff.mp hstatus
  obtain ⟨d, name, j, hparent, hit⟩ := (h.inv.resolve_some (by decide)).mp hk
  rw [Volume.Parent, show splitPath sysStatus = some (sysName, statusName) by decide] at hparent
  obtain ⟨⟨i, hdir⟩, rfl⟩ := hparent
  have hroot := h.inv.linked.root
  have hd := h.inv.keptDir hroot hdir
  -- the table it reads is the one in memory
  have htab : s.toVolume.inodeOnDisk = s.inodes := funext fun i => h.synced.inodes i id
  refine wp_outcome ?_
  rw [checkFormat, wp_bind, wp_require]
  refine ⟨fun _ => ?_, fun hno => (hno ⟨h.headed.magic, h.headed.blockSize⟩).elim⟩
  rw [wp_bind]
  refine hp.scratchInodes_step fun s₂ hs₂ htab₂ => ?_
  rw [wp_bind, wp_get]
  obtain ⟨v₂, _, tab₂, _, _, _⟩ := s₂
  obtain rfl : v₂ = s.toVolume := hs₂
  obtain rfl : tab₂ = s.inodes := htab₂.trans htab
  -- root, directory and file in turn
  rw [wp_bind, wp_require]
  refine ⟨fun _ => ?_, fun hno => (hno ⟨hroot.1.2, h.inv.alloc.formattedInode hroot.1.1⟩).elim⟩
  rw [wp_bind, hp.wp_loadScratch, wp_bind, wp_get]
  refine h.inv.wp_findEntry hroot (by decide) hdir ?_
  rw [wp_bind, wp_require]
  refine ⟨fun _ => ?_, fun hno => (hno ⟨hd.1.2, h.inv.alloc.formattedInode hd.1.1⟩).elim⟩
  rw [wp_bind, hp.wp_loadScratch2, wp_bind, wp_get]
  refine h.inv.wp_findEntry hd (by decide) hit ?_
  rw [wp_bind, wp_require]
  refine ⟨fun _ => ?_, fun hno => (hno (h.inv.alloc.formattedInode hit.used)).elim⟩
  rw [wp_bind, hp.wp_loadScratch, wp_bind, wp_get, wp_require]
  refine ⟨fun _ => rfl, fun hno => (hno ?_).elim⟩
  exact Bytes.at_of_firstBytes hcontents

/-- It comes back just when the sector has the return address where the stack has it. -/
theorem fsIsFormatted_ok (hp : dev.Perfect) (h : Resting stray (fun _ => False) s.toVolume)
    {rest : List UInt8} (hstatus : s.toVolume.files sysStatus = some (0xFF :: rest)) :
    (fsIsFormatted dev s).1 = .ok () ↔
      (s.disk fsSuperLba).get32 dev.frame.returnAt = dev.frame.returnTo := by
  have hcheck : (checkFormat dev s.sb (s.noted ⟨false, fsSuperLba, 1, 32⟩)).1 = .ok () :=
    checkFormat_ok (s := s.noted _) hp h hstatus
  by_cases hkept : (s.disk fsSuperLba).get32 dev.frame.returnAt = dev.frame.returnTo
  · refine iff_of_true (wp_outcome ?_) hkept
    rw [fsIsFormatted, wp_bind, hp.wp_read, CallFrame.wp_returning, if_pos hkept,
      h.headed.superblock, wp, run_eq hcheck]
  · refine iff_of_false (fun ho => ?_) hkept
    have hlost : (fsIsFormatted dev s).1 = .diverged := by
      refine wp_outcome ?_
      rw [fsIsFormatted, wp_bind, hp.wp_read, CallFrame.wp_returning, if_neg hkept]
    cases hlost.symm.trans ho

/-! ## The sector of the superblock -/

theorem Inv.disk_create (h : Inv stray v) {d k : InodeNo} {j : Slot} {name : CStr} {ino : Inode}
    (hc : v.CanTake k ino) (hd : Live v.inodes d) (content : Block) :
    (v.create d j name k ino content).disk fsSuperLba = v.disk fsSuperLba := by
  have hlayout : ((v.take k ino).setData ino.direct0 content).Layout :=
    ⟨h.layout.1, h.layout.2, h.layout.3⟩
  have htake : (v.take k ino).Layout := ⟨h.layout.1, h.layout.2, h.layout.3⟩
  have hblock : ino.direct0.toNat < 32768 := Nat.lt_of_lt_of_le hc.blockLt h.alloc.countLe
  rw [Volume.create, hlayout.disk_setData (h.alloc.blockBound hd) _ (by decide),
    htake.disk_setData hblock _ (by decide)]
  rfl

theorem Inv.disk_stored (h : Inv stray v) {d : InodeNo} {name : CStr} {size : UInt32}
    {content : Block} (hs : Stored stray v d name size content v') :
    v'.disk fsSuperLba = v.disk fsSuperLba := by
  rcases hs with ⟨j, k, b, htake, henter, hk0, rfl⟩ | ⟨j, k, hit, rfl⟩
  · have hlayout : (v.create d j name k ((v.inodes k).fresh inodeFile size b) content).Layout :=
      ⟨h.layout.1, h.layout.2, h.layout.3⟩
    rw [hlayout.disk_flush, h.disk_create htake henter.dir.1.1]
  · have hlayout : (v.rewrite k size content).Layout := ⟨h.layout.1, h.layout.2, h.layout.3⟩
    have hput : (v.putInode k { v.inodes k with size := size }).Layout :=
      ⟨h.layout.1, h.layout.2, h.layout.3⟩
    rw [hlayout.disk_flush, Volume.rewrite,
      hput.disk_setData (h.alloc.blockBound hit.used) _ (by decide)]
    rfl

theorem SysStored.disk_eq (h : Inv stray v) {filename : CStr} {size : UInt32} {content : Block}
    (hst : SysStored stray v filename size content v') :
    v'.disk fsSuperLba = v.disk fsSuperLba := by
  obtain ⟨-, v₁, d, hsys, hst⟩ := hst
  rw [(hsys.inv h).1.disk_stored hst]
  rcases hsys with ⟨-, rfl⟩ | ⟨j, b, -, -, htake, henter, hk0, rfl⟩
  · rfl
  · exact h.disk_create htake henter.dir.1.1 _

theorem fsFormat_superblock {totalBlocks inodeCount : UInt32} {s' : Fs} (hp : dev.Perfect)
    (hrun : fsFormat dev totalBlocks inodeCount s = (.ok (), s')) :
    ∃ sb : Superblock,
      s'.disk fsSuperLba = sb.encode (pastFormatted dev totalBlocks inodeCount s) := by
  obtain ⟨v₀, v₁, v₂, h₀, hsuper, -, hstatus, hpasswd, hv⟩ := fsFormat_steps hp hrun
  have h₁ := (SysStored.flushed h₀ (by decide) hstatus).sound
  refine ⟨v₀.sb, ?_⟩
  rw [hv, ← hsuper, ← SysStored.disk_eq h₀.inv hstatus, ← SysStored.disk_eq h₁.inv hpasswd]

/-! ## Afterwards -/

/-- Nothing is lost between the two: a mount finds the volume as it is. -/
theorem Sound.Flushed.reload (h : Sound.Flushed stray v) :
    ({ v with mounted := true } : Volume).reload = { v with mounted := true } := by
  obtain ⟨v₀, hsound, rfl⟩ := h
  have hbitmap := hsound.inv.layout.bitmapOnDisk_flush
  have hinodes : v₀.flush.inodeOnDisk = v₀.inodes := funext v₀.inodeOnDisk_flush
  rw [Volume.reload]
  change Volume.mk _ v₀.flush.bitmapOnDisk v₀.flush.inodeOnDisk true _ = _
  rw [hbitmap, hinodes]
  rfl

theorem fsFormat_remount {totalBlocks inodeCount : UInt32} {s' : Fs} (hp : dev.Perfect)
    (hrun : fsFormat dev totalBlocks inodeCount s = (.ok (), s')) :
    ∃ s'', fsInit dev s' = (.ok (), s'') ∧ s''.toVolume = s'.toVolume := by
  obtain ⟨v₀, v₁, v₂, h₀, -, -, hstatus, hpasswd, hv⟩ := fsFormat_steps hp hrun
  have h₁ := (SysStored.flushed h₀ (by decide) hstatus).sound
  have hflushed := SysStored.flushed h₁ (by decide) hpasswd
  have hheaded := (fsFormat_ready hp hrun).1.headed
  rcases wp_run (fsInit_spec hp hheaded rfl) rfl with ⟨_, ho, hreload⟩ | ⟨-, hno⟩ | ⟨-, hno⟩
  · refine ⟨_, Prod.ext ho rfl, hreload.trans ?_⟩
    rw [hv]
    exact hflushed.reload
  · exact hno.elim
  · exact hno.elim

/-- Nothing of what was there before is left: there are the two files, and the tables and
directories are those that the same call makes on every other machine. -/
structure Fresh (dev : Device) (totalBlocks inodeCount : UInt32) (after : Fs) : Prop where
  passwd : (fsReadPasswd dev after).1 = .ok (fsHashPassword defaultPassword)
  paths : ∀ path maxlen, (fsReadPath dev path maxlen after).1.isOk = true ↔
    path = sysStatus ∨ path = sysPasswd
  alike : ∀ dev' t, dev'.Perfect → dev'.sectorCount = dev.sectorCount →
    ∃ t' t'', fsFormat dev' totalBlocks inodeCount t = (.ok (), t') ∧
      fsInit dev' t' = (.ok (), t'') ∧ ∀ other, other = t' ∨ other = t'' →
        other.bitmap = after.bitmap ∧ other.inodes = after.inodes ∧
          ∀ i, Live after.inodes i → other.blockOf i = after.blockOf i

theorem fsFormat_fresh (hp : dev.Perfect) {totalBlocks inodeCount : UInt32} {s' after : Fs}
    (hrun : fsFormat dev totalBlocks inodeCount s = (.ok (), s'))
    (hv : after.toVolume = s'.toVolume) : Fresh dev totalBlocks inodeCount after := by
  have hrest : Resting (fun _ => False) (fun _ => False) after.toVolume :=
    hv ▸ fsFormat_resting hp hrun
  have hfiles : ∀ path, after.toVolume.files path =
      if path = sysPasswd then some (hashBytes (fsHashPassword defaultPassword))
      else if path = sysStatus then some [0xFF] else none := fun path =>
    hv ▸ fsFormat_files hp hrun path
  refine ⟨?_, ?_, ?_⟩
  · rw [wp_outcome (fsReadPasswd_returns hp hrest.toReady)]
    refine passwdOutcome_eq ?_
    rw [hfiles, if_pos rfl]
  · intro path maxlen
    rw [fsReadPath_files hp hrest.toReady, hfiles]
    by_cases hpasswd : path = sysPasswd
    · simp [hpasswd, readResult]
    · by_cases hstatus : path = sysStatus
      · rw [if_neg hpasswd, if_pos hstatus]
        simp [hstatus, readResult]
      · simp [hpasswd, hstatus, readResult]
  · intro dev' t hp' hsize
    obtain ⟨t', hrun', halike⟩ := (paired_fsFormat hp hp' hsize _ _).run hrun
    obtain ⟨t'', hinit', hsame'⟩ := fsFormat_remount hp' hrun'
    refine ⟨t', t'', hrun', hinit', fun other hother => ?_⟩
    have hv' : other.toVolume = t'.toVolume := by
      rcases hother with rfl | rfl
      · rfl
      · exact hsame'
    rw [hv, hv']
    exact ⟨halike.bitmap.symm, halike.inodes.symm, fun i hi => (halike.blocks i hi id).symm⟩

/-- Only `fs_is_formatted` can miss it, as it does not come back. -/
theorem fsFormat_isFormatted (hp : dev.Perfect) {totalBlocks inodeCount : UInt32} {s' after : Fs}
    (hrun : fsFormat dev totalBlocks inodeCount s = (.ok (), s'))
    (hv : after.toVolume = s'.toVolume) : (fsIsFormatted dev after).1 = .ok () ↔
      (pastFormatted dev totalBlocks inodeCount s).get32 (dev.frame.returnAt - 32) =
        dev.frame.returnTo := by
  have hrest : Resting (fun _ => False) (fun _ => False) after.toVolume :=
    hv ▸ fsFormat_resting hp hrun
  have hstatus : after.toVolume.files sysStatus = some (0xFF :: []) := by
    rw [hv, fsFormat_files hp hrun, if_neg (by decide), if_pos rfl]
  obtain ⟨sb, hsector⟩ := fsFormat_superblock hp hrun
  have hdisk : after.disk = s'.disk := congrArg Volume.disk hv
  rw [fsIsFormatted_ok hp hrest hstatus, hdisk, hsector,
    Superblock.encode_get32 sb _ dev.frame.behind dev.frame.reached]

/-- The calls that look at a disk just formatted do what they are for exactly when the bytes
that `fs_format` wrote behind the superblock have the return address of `fs_is_formatted`. -/
theorem fsFormat_forgets (hp : dev.Perfect) {totalBlocks inodeCount : UInt32} {s' : Fs}
    (hrun : fsFormat dev totalBlocks inodeCount s = (.ok (), s')) :
    (∃ s'', fsInit dev s' = (.ok (), s'') ∧ ∀ after, after = s' ∨ after = s'' →
      (fsIsFormatted dev after).1 = .ok () ∧ Fresh dev totalBlocks inodeCount after) ↔
      (pastFormatted dev totalBlocks inodeCount s).get32 (dev.frame.returnAt - 32) =
        dev.frame.returnTo := by
  constructor
  · rintro ⟨s'', -, hall⟩
    exact (fsFormat_isFormatted hp hrun rfl).mp (hall s' (.inl rfl)).1
  · intro hkept
    obtain ⟨s'', hinit, hsame⟩ := fsFormat_remount hp hrun
    refine ⟨s'', hinit, fun after hafter => ?_⟩
    have hv : after.toVolume = s'.toVolume := by
      rcases hafter with rfl | rfl
      · rfl
      · exact hsame
    exact ⟨(fsFormat_isFormatted hp hrun hv).mpr hkept, fsFormat_fresh hp hrun hv⟩

/-- A machine with that address behind `g_sb`. -/
def Device.spared : Device :=
  { Device.working with pastSb := fun _ => Bytes.zero.paste 12 (Bytes.bytesOf32 0x10A5C) }

/-- The first format after power-on. -/
theorem fsFormat_forgets_zeros :
    ∃ s'', fsInit .spared (fsFormat .spared 0 64 (.booted fun _ => Bytes.zero)).2 =
        (.ok (), s'') ∧ ∀ after,
        after = (fsFormat .spared 0 64 (.booted fun _ => Bytes.zero)).2 ∨ after = s'' →
      (fsIsFormatted .spared after).1 = .ok () ∧ Fresh .spared 0 64 after :=
  (fsFormat_forgets ⟨fun _ _ => rfl, fun _ _ => rfl⟩ (run_eq (by decide +kernel))).mpr
    (by decide +kernel)

/-- Zeros are written over the return address. -/
theorem not_fsFormat_forgets :
    ¬∀ (dev : Device) (s s' : Fs) (totalBlocks inodeCount : UInt32), dev.Perfect →
      fsFormat dev totalBlocks inodeCount s = (.ok (), s') →
      ∃ s'', fsInit dev s' = (.ok (), s'') ∧ ∀ after, after = s' ∨ after = s'' →
        (fsIsFormatted dev after).1 = .ok () ∧ Fresh dev totalBlocks inodeCount after := by
  intro h
  obtain ⟨s'', -, hall⟩ := h .working (.booted fun _ => Bytes.zero) _ 0 64
    Device.working_perfect (run_eq (by decide +kernel))
  have hlost : (fsIsFormatted .working
      (fsFormat .working 0 64 (.booted fun _ => Bytes.zero)).2).1 = .diverged := by
    decide +kernel
  cases hlost.symm.trans (hall _ (.inl rfl)).1

end SevenOS
