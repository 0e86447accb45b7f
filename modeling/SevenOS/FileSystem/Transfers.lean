import SevenOS.FileSystem.Exports
import SevenOS.FileSystem.BlockScan
import SevenOS.FileSystem.Proof.Notes
import SevenOS.FileSystem.Proof.Format

/-! # Transfers and their buffers

`ata_read_sectors` stores whole sectors and `ata_write_sectors` takes whole sectors,
so a buffer has to be as long as the sectors are. All are, but for a superblock of
32 bytes, which is read by `fs_init` and `fs_is_formatted` and written by `fs_format`
as if it were a block.
-/

namespace SevenOS

open Prog

variable {dev : Device} {α : Type} {s : Fs}

/-- The object that the buffer points to holds all the sectors. -/
def Transfer.Fits (t : Transfer) : Prop := 512 * t.sectors ≤ t.object

instance (t : Transfer) : Decidable t.Fits := inferInstanceAs (Decidable (_ ≤ _))

theorem Transfer.fits_block (write : Bool) (lba : UInt32) : Transfer.Fits ⟨write, lba, 1, 512⟩ :=
  Nat.le_refl _

theorem Transfer.fits_table (write : Bool) (lba : UInt32) : Transfer.Fits ⟨write, lba, 8, 4096⟩ :=
  Nat.le_refl _

/-- A program all of whose transfers fit. -/
abbrev Fitting (m : FsM α) : Prop := Noting Transfer.Fits m

namespace Noting

theorem read (lba : UInt32) : Fitting (SevenOS.diskReadLba dev 512 lba) :=
  diskReadLba (Transfer.fits_block _ _)

theorem write (lba : UInt32) (b : Block) : Fitting (SevenOS.diskWriteLba dev 512 lba b) :=
  diskWriteLba (Transfer.fits_block _ _) b

theorem load (lba : UInt32) : Fitting (SevenOS.loadScratch dev lba) :=
  loadScratch (Transfer.fits_block _ _)

theorem load2 (lba : UInt32) : Fitting (SevenOS.loadScratch2 dev lba) :=
  loadScratch2 (Transfer.fits_block _ _)

theorem tables : Fitting (SevenOS.flushTables dev) := flushTables fun _ => Transfer.fits_table _ _

theorem scratch (f : Fs → Block) : Fitting (Prog.modify fun s => { s with blockScratch := f s }) :=
  modify fun _ => rfl

theorem scratch2 (f : Fs → Block) :
    Fitting (Prog.modify fun s => { s with blockScratch2 := f s }) :=
  modify fun _ => rfl

theorem markBlockUsed (b : UInt32) : Fitting (markBlockUsed b) := modify fun _ => rfl

theorem markBlockFree (b : UInt32) : Fitting (markBlockFree b) := modify fun _ => rfl

theorem modifyInode (i : InodeNo) (f : Inode → Inode) : Fitting (modifyInode i f) :=
  modify fun _ => rfl

/-! ## Root directory and system files -/

theorem ensureRootDirBlock : Fitting (ensureRootDirBlock dev) := by
  refine get.bind fun s => ?_
  by_cases h : (s.inodes 0).direct0 ≠ 0
  · rw [if_pos h]
    exact pure _
  · rw [if_neg h]
    exact (demand _).bind fun _ => (markBlockUsed _).bind fun _ => (modifyInode _ _).bind fun _ =>
      get.bind fun _ => (write _ _).bind fun _ => tables

theorem readRootDirBlock : Fitting (readRootDirBlock dev) :=
  get.bind fun _ => (require _).bind fun _ => load _

theorem loadDirBlock (d : InodeNo) : Fitting (loadDirBlock dev d) :=
  get.bind fun _ => (require _).bind fun _ => read _

theorem writeDirBlock (d : InodeNo) (b : Block) : Fitting (writeDirBlock dev d b) :=
  get.bind fun _ => (require _).bind fun _ => write _ _

theorem ensureSysDir : Fitting (ensureSysDir dev) := by
  refine get.bind fun s => ?_
  cases findDirEntry sysName s.blockScratch s.inodes inodeDir with
  | none =>
      exact (demand _).bind fun _ => (demand _).bind fun _ => (markBlockUsed _).bind fun _ =>
        (modifyInode _ _).bind fun _ => (demand _).bind fun _ => (scratch _).bind fun _ =>
        (scratch2 _).bind fun _ => get.bind fun _ => (write _ _).bind fun _ => pure _
  | some i => exact (demand _).bind fun _ => (require _).bind fun _ => pure _

theorem ensureSysEntry (filename : CStr) (len : UInt32) :
    Fitting (ensureSysEntry filename len) := by
  refine get.bind fun s => ?_
  cases findDirEntry filename s.blockScratch2 s.inodes inodeFile with
  | none =>
      exact (demand _).bind fun _ => (demand _).bind fun _ => (markBlockUsed _).bind fun _ =>
        (modifyInode _ _).bind fun _ => (demand _).bind fun _ => (scratch2 _).bind fun _ => pure _
  | some i => exact (demand _).bind fun _ => (modifyInode _ _).bind fun _ => pure _

theorem writeSysEntry (d : InodeNo) (filename : CStr) (data : List UInt8) :
    Fitting (writeSysEntry dev d filename data) :=
  (ensureSysEntry _ _).bind fun _ => get.bind fun _ => (write _ _).bind fun _ =>
    (scratch _).bind fun _ => get.bind fun _ => (write _ _).bind fun _ => tables

/-- `write_sys_file` behind the look at the root block. -/
theorem sysTail (d : InodeNo) (filename : CStr) (data : List UInt8) : Fitting (do
    let s ← Prog.get
    SevenOS.diskWriteLba dev 512 (s.sectorOf 0) s.blockScratch
    SevenOS.loadScratch2 dev (s.sectorOf d)
    SevenOS.writeSysEntry dev d filename data) :=
  get.bind fun _ => (write _ _).bind fun _ => (load2 _).bind fun _ => writeSysEntry _ _ _

theorem writeSysFile (filename : CStr) (data : List UInt8) :
    Fitting (writeSysFile dev filename data) :=
  ensureRootDirBlock.bind fun _ => readRootDirBlock.bind fun _ => ensureSysDir.bind fun d =>
    sysTail d filename data

theorem readSysFile (filename : CStr) (maxlen : UInt32) :
    Fitting (readSysFile dev filename maxlen) :=
  get.bind fun _ => (require _).bind fun _ => (require _).bind fun _ => (load _).bind fun _ =>
    get.bind fun _ => (demand _).bind fun _ => (demand _).bind fun _ => (require _).bind fun _ =>
    (load2 _).bind fun _ => get.bind fun _ => (demand _).bind fun _ => (demand _).bind fun _ =>
    (require _).bind fun _ => (load _).bind fun _ => get.bind fun _ => pure _

theorem fsReadPasswd : Fitting (fsReadPasswd dev) :=
  (readSysFile _ _).bind fun _ => (require _).bind fun _ => pure _

/-! ## Listing, lookup and reading -/

theorem lookupDir (dirname : CStr) : Fitting (lookupDir dirname) :=
  get.bind fun _ => (demand _).bind fun _ => demand _

theorem fsListRoot (maxEntries : UInt32) : Fitting (fsListRoot dev maxEntries) := by
  refine get.bind fun s => (require _).bind fun _ => ?_
  exact ite (pure _) (ite (pure _) ((read _).bind fun _ => pure _))

theorem fsListDir (dirname : CStr) (maxEntries : UInt32) :
    Fitting (fsListDir dev dirname maxEntries) := by
  refine get.bind fun s => (require _).bind fun _ => ite (pure _) ?_
  exact (require _).bind fun _ => (load _).bind fun _ => (lookupDir _).bind fun _ =>
    get.bind fun _ => (require _).bind fun _ => (load2 _).bind fun _ => get.bind fun _ => pure _

theorem fsIsDir (path : CStr) : Fitting (fsIsDir dev path) := by
  refine get.bind fun _ => (require _).bind fun _ => (require _).bind fun _ =>
    (require _).bind fun _ => (load _).bind fun _ => ?_
  cases splitPath path with
  | none => exact get.bind fun _ => require _
  | some parts =>
      exact (require _).bind fun _ => (lookupDir _).bind fun _ => get.bind fun _ =>
        (require _).bind fun _ => (load2 _).bind fun _ => get.bind fun _ => require _

theorem fsRead (name : CStr) (maxlen : UInt32) : Fitting (fsRead dev name maxlen) :=
  get.bind fun _ => (require _).bind fun _ => (require _).bind fun _ => (require _).bind fun _ =>
    (load _).bind fun _ => get.bind fun _ => (demand _).bind fun _ => (demand _).bind fun _ =>
    (require _).bind fun _ => (load2 _).bind fun _ => get.bind fun _ => pure _

theorem fsReadPath (path : CStr) (maxlen : UInt32) : Fitting (fsReadPath dev path maxlen) := by
  refine get.bind fun _ => (require _).bind fun _ => (require _).bind fun _ => ?_
  cases splitPath path with
  | none => exact fsRead _ _
  | some parts =>
      exact (require _).bind fun _ => (require _).bind fun _ => (load _).bind fun _ =>
        (lookupDir _).bind fun _ => get.bind fun _ => (require _).bind fun _ =>
        (load2 _).bind fun _ => get.bind fun _ => (demand _).bind fun _ => (demand _).bind fun _ =>
        (require _).bind fun _ => (load _).bind fun _ => get.bind fun _ => pure _

/-! ## Creation and writing -/

theorem prepareEntry (name : CStr) (type : UInt8) : Fitting (prepareEntry dev name type) := by
  refine get.bind fun _ => (require _).bind fun _ => (require _).bind fun _ =>
    (require _).bind fun _ => ensureRootDirBlock.bind fun _ => get.bind fun s =>
    (demand _).bind fun _ => (demand _).bind fun _ => (read _).bind fun b => ?_
  cases scanEntries outOfTable name type b s.inodes with
  | bad => exact refuse
  | found j k => exact refuse
  | absent free => exact (demand _).bind fun _ => pure _

theorem fsMkdir (name : CStr) : Fitting (fsMkdir dev name) :=
  (prepareEntry _ _).bind fun _ => (markBlockUsed _).bind fun _ => (modifyInode _ _).bind fun _ =>
    get.bind fun _ => (write _ _).bind fun _ => (write _ _).bind fun _ => tables

theorem fsCreate (name : CStr) : Fitting (fsCreate dev name) :=
  (prepareEntry _ _).bind fun _ => (markBlockUsed _).bind fun _ => (modifyInode _ _).bind fun _ =>
    get.bind fun _ => (write _ _).bind fun _ => tables

theorem fsMkdirPath (path : CStr) : Fitting (fsMkdirPath dev path) := by
  refine get.bind fun _ => (require _).bind fun _ => (require _).bind fun _ => ?_
  cases splitPath path with
  | none => exact fsMkdir _
  | some parts =>
      refine (require _).bind fun _ => (require _).bind fun _ => (require _).bind fun _ =>
        ensureRootDirBlock.bind fun _ => get.bind fun _ => (load _).bind fun _ =>
        (lookupDir _).bind fun _ => get.bind fun _ => (require _).bind fun _ =>
        (load2 _).bind fun _ => get.bind fun s => ?_
      cases scanEntries neverBad parts.2 inodeDir s.blockScratch2 s.inodes with
      | bad => exact refuse
      | found j k => exact refuse
      | absent free =>
          exact (demand _).bind fun _ => (demand _).bind fun _ => (demand _).bind fun _ =>
            (markBlockUsed _).bind fun _ => (modifyInode _ _).bind fun _ => get.bind fun _ =>
            (write _ _).bind fun _ => (scratch2 _).bind fun _ => get.bind fun _ =>
            (write _ _).bind fun _ => tables

theorem claimFile (free : Option Slot) : Fitting (claimFile free) :=
  (demand _).bind fun _ => get.bind fun _ => (demand _).bind fun _ => (demand _).bind fun _ =>
    (markBlockUsed _).bind fun _ => (modifyInode _ _).bind fun _ => pure _

theorem fsWrite (name data : CStr) : Fitting (fsWrite dev name data) := by
  refine get.bind fun _ => (require _).bind fun _ => (require _).bind fun _ =>
    (require _).bind fun _ => ensureRootDirBlock.bind fun _ => get.bind fun s =>
    (read _).bind fun b => ?_
  have finish : ∀ (b : Block) (k : InodeNo), Fitting (do
      SevenOS.modifyInode k fun ino => { ino with size := dataLength data }
      let s ← Prog.get
      SevenOS.diskWriteLba dev 512 (s.sectorOf 0) b
      SevenOS.diskWriteLba dev 512 (s.sectorOf k) (fileBlock data)
      SevenOS.flushTables dev) := fun b k =>
    (modifyInode _ _).bind fun _ => get.bind fun _ => (write _ _).bind fun _ =>
      (write _ _).bind fun _ => tables
  cases scanEntries outOfTable name inodeFile b s.inodes with
  | bad => exact refuse.bind fun _ => finish _ _
  | found j k => exact (pure (b, k)).bind fun _ => finish _ _
  | absent free => exact (claimFile _).bind fun _ => finish _ _

theorem fsWritePath (path data : CStr) : Fitting (fsWritePath dev path data) := by
  refine get.bind fun _ => (require _).bind fun _ => (require _).bind fun _ => ?_
  cases splitPath path with
  | none => exact fsWrite _ _
  | some parts =>
      refine (require _).bind fun _ => (require _).bind fun _ => (load _).bind fun _ =>
        (lookupDir _).bind fun d => get.bind fun _ => (require _).bind fun _ =>
        (load2 _).bind fun _ => get.bind fun s => ?_
      have finish : ∀ k : InodeNo, Fitting (do
          SevenOS.modifyInode k fun ino => { ino with size := dataLength data }
          let s ← Prog.get
          SevenOS.diskWriteLba dev 512 (s.sectorOf d) s.blockScratch2
          SevenOS.diskWriteLba dev 512 (s.sectorOf k) (fileBlock data)
          SevenOS.flushTables dev) := fun k =>
        (modifyInode _ _).bind fun _ => get.bind fun _ => (write _ _).bind fun _ =>
          (write _ _).bind fun _ => tables
      cases scanEntries outOfTable parts.2 inodeFile s.blockScratch2 s.inodes with
      | bad => exact refuse.bind fun _ => finish _
      | found j k => exact (pure k).bind fun _ => finish _
      | absent free =>
          exact (claimFile _).bind fun _ => (scratch2 _).bind fun _ => finish _

/-! ## Copying and renaming -/

theorem copySource (srcPath : CStr) : Fitting (copySource dev srcPath) := by
  refine get.bind fun _ => (require _).bind fun _ => (load _).bind fun _ => ?_
  cases splitPath srcPath with
  | none => exact get.bind fun _ => (demand _).bind fun _ => demand _
  | some parts =>
      exact (require _).bind fun _ => (lookupDir _).bind fun _ => get.bind fun _ =>
        (require _).bind fun _ => (load2 _).bind fun _ => get.bind fun _ =>
        (demand _).bind fun _ => demand _

theorem copyTarget (srcPath dstPath : CStr) : Fitting (copyTarget dev srcPath dstPath) := by
  rw [SevenOS.copyTarget]
  cases splitPath dstPath with
  | some parts =>
      exact (require _).bind fun _ => get.bind fun _ => (load _).bind fun _ =>
        (lookupDir _).bind fun _ => pure _
  | none =>
      refine get.bind fun _ => (load _).bind fun _ => get.bind fun s => ?_
      cases findDirEntry dstPath s.blockScratch s.inodes inodeDir with
      | none => exact pure _
      | some i => exact (demand _).bind fun _ => pure _

theorem fsCopyPath (srcPath dstPath : CStr) : Fitting (fsCopyPath dev srcPath dstPath) := by
  refine get.bind fun _ => (require _).bind fun _ => (require _).bind fun _ =>
    (copySource _).bind fun _ => get.bind fun s₁ => (require _).bind fun _ =>
    (read _).bind fun fileData => ensureRootDirBlock.bind fun _ => (copyTarget _ _).bind fun target =>
    (require _).bind fun _ => get.bind fun _ => (require _).bind fun _ => (load2 _).bind fun _ =>
    get.bind fun s => ?_
  have finish : ∀ k, Fitting (do
      let s ← Prog.get
      SevenOS.diskWriteLba dev 512 (s.sectorOf target.1) s.blockScratch2
      SevenOS.diskWriteLba dev 512 (s.sectorOf k) fileData
      SevenOS.flushTables dev) := fun k =>
    get.bind fun _ => (write _ _).bind fun _ => (write _ _).bind fun _ => tables
  cases scanEntries neverBad target.2 inodeFile s.blockScratch2 s.inodes with
  | bad => exact refuse.bind fun _ => finish _
  | found j k => exact (modifyInode _ _).bind fun _ => finish _
  | absent free =>
      exact (demand _).bind fun _ => (demand _).bind fun _ => (demand _).bind fun _ =>
        (markBlockUsed _).bind fun _ => (modifyInode _ _).bind fun _ => (scratch2 _).bind fun _ =>
        finish _

theorem renameDir (dirname : CStr) : Fitting (renameDir dev dirname) := by
  refine (loadDirBlock _).bind fun b => get.bind fun s => ?_
  cases findDirEntry dirname b s.inodes inodeDir with
  | none => exact pure _
  | some i => exact (demand _).bind fun _ => pure _

theorem renameSource (srcPath : CStr) : Fitting (renameSource dev srcPath) := by
  rw [SevenOS.renameSource]
  cases splitPath srcPath with
  | none => exact pure _
  | some parts =>
      exact (require _).bind fun _ => (require _).bind fun _ => (renameDir _).bind fun _ =>
        (demand _).bind fun _ => pure _

theorem renameTarget (srcName dstPath : CStr) : Fitting (renameTarget dev srcName dstPath) := by
  rw [SevenOS.renameTarget]
  cases splitPath dstPath with
  | some parts =>
      exact (require _).bind fun _ => (renameDir _).bind fun _ => (demand _).bind fun _ =>
        ite (pure _) (pure _)
  | none =>
      refine (renameDir _).bind fun dir => ?_
      cases dir with
      | none => exact pure _
      | some d => exact pure _

theorem fsRename (srcPath dstPath : CStr) : Fitting (fsRename dev srcPath dstPath) := by
  refine get.bind fun _ => (require _).bind fun _ => (require _).bind fun _ =>
    (renameSource _).bind fun _ => (require _).bind fun _ => (loadDirBlock _).bind fun _ =>
    get.bind fun _ => (demand _).bind fun _ => (demand _).bind fun _ =>
    (renameTarget _ _).bind fun _ => (require _).bind fun _ => (require _).bind fun _ => ?_
  refine ite (pure _) ((loadDirBlock _).bind fun _ => get.bind fun _ => ite (pure _) ?_)
  exact (require _).bind fun _ => ite (writeDirBlock _ _) ((demand _).bind fun _ =>
    (writeDirBlock _ _).bind fun _ => writeDirBlock _ _)

/-! ## Removing -/

theorem releaseBlock (k : InodeNo) : Fitting (releaseBlock dev k) :=
  get.bind fun _ => ite ((markBlockFree _).bind fun _ => write _ _) (pure _)

theorem removeEntryFromDir (d : InodeNo) (filename : CStr) :
    Fitting (removeEntryFromDir dev d filename) := by
  refine get.bind fun _ => (require _).bind fun _ => (load _).bind fun _ => get.bind fun s => ?_
  cases scanEntries rootOrOutOfTable filename inodeFile s.blockScratch s.inodes with
  | bad => exact refuse
  | absent free => exact refuse
  | found j k =>
      have finish : Fitting (do
          Prog.modify fun s => { s with blockScratch := clearEntry s.blockScratch j }
          SevenOS.modifyInode k fun _ => Inode.zero
          let s ← Prog.get
          SevenOS.diskWriteLba dev 512 (s.sectorOf d) s.blockScratch
          SevenOS.flushTables dev) :=
        (scratch _).bind fun _ => (modifyInode _ _).bind fun _ => get.bind fun _ =>
          (write _ _).bind fun _ => tables
      exact (require _).bind fun _ => ite ((markBlockFree _).bind fun _ => (scratch2 _).bind fun _ =>
        get.bind fun _ => (write _ _).bind fun _ => finish) finish

/-- Induction on the nesting: the entries are done one after the other. -/
theorem removeDirContents (frames : Nat) (d : InodeNo) :
    Fitting (removeDirContents dev frames d) := by
  induction frames generalizing d with
  | zero => exact diverge
  | succ frames ih =>
      refine get.bind fun _ => (require _).bind fun _ => (require _).bind fun _ =>
        (read _).bind fun b => bind (foldlM _ (fun b i => ?_) b) fun _ => get.bind fun _ => write _ _
      have finish : ∀ k, Fitting (do
          SevenOS.releaseBlock dev k
          SevenOS.modifyInode k fun _ => Inode.zero
          return clearEntry b i) := fun k =>
        (releaseBlock k).bind fun _ => (modifyInode _ _).bind fun _ => pure _
      exact ite (pure _) ((require _).bind fun _ => (demand _).bind fun k => get.bind fun s =>
        ite ((ih k).bind fun _ => finish k) ((require _).bind fun _ => finish k))

theorem removeEntryFromDirRecursive (d : InodeNo) (filename : CStr) :
    Fitting (removeEntryFromDirRecursive dev d filename) := by
  refine get.bind fun s => (require _).bind fun _ => (read _).bind fun b => ?_
  cases findRemovable filename b s.inodes with
  | bad => exact refuse
  | absent free => exact refuse
  | found j k =>
      have finish : Fitting (do
          SevenOS.releaseBlock dev k
          SevenOS.modifyInode k fun _ => Inode.zero
          let s ← Prog.get
          SevenOS.diskWriteLba dev 512 (s.sectorOf d) (clearEntry b j)
          SevenOS.flushTables dev) :=
        (releaseBlock k).bind fun _ => (modifyInode _ _).bind fun _ => get.bind fun _ =>
          (write _ _).bind fun _ => tables
      exact ite ((removeDirContents _ _).bind fun _ => finish) ((require _).bind fun _ => finish)

theorem removeParent (dirname filename : CStr) : Fitting (removeParent dev dirname filename) :=
  (require _).bind fun _ => get.bind fun _ => (require _).bind fun _ => (load _).bind fun _ =>
    lookupDir _

theorem fsRemove (name : CStr) : Fitting (fsRemove dev name) :=
  get.bind fun _ => (require _).bind fun _ => (require _).bind fun _ => (require _).bind fun _ =>
    (require _).bind fun _ => removeEntryFromDir _ _

theorem fsRemovePath (path : CStr) : Fitting (fsRemovePath dev path) := by
  refine get.bind fun _ => (require _).bind fun _ => (require _).bind fun _ => ?_
  cases splitPath path with
  | none => exact fsRemove _
  | some parts => exact (removeParent _ _).bind fun _ => removeEntryFromDir _ _

theorem fsRemovePathRecursive (path : CStr) : Fitting (fsRemovePathRecursive dev path) := by
  refine get.bind fun _ => (require _).bind fun _ => (require _).bind fun _ => ?_
  cases splitPath path with
  | none => exact (require _).bind fun _ => removeEntryFromDirRecursive _ _
  | some parts => exact (removeParent _ _).bind fun _ => removeEntryFromDirRecursive _ _

end Noting

/-! ## The transfers of a superblock -/

/-- A transfer that does not fit is noted from `s` on. -/
abbrev Overruns (s s' : Fs) : Prop := AddsOne (fun t => ¬ t.Fits) s s'

namespace Overruns

theorem noted {s' : Fs} (h : Adds Transfer.Fits s s') (write : Bool) :
    Overruns s (s'.noted ⟨write, fsSuperLba, 1, 32⟩) := by
  obtain ⟨added, hlog, -⟩ := h
  refine ⟨added ++ [⟨write, fsSuperLba, 1, 32⟩], ?_, ⟨write, fsSuperLba, 1, 32⟩, by simp, ?_⟩
  · rw [← List.append_assoc, ← hlog]
    rfl
  · change ¬ Transfer.Fits ⟨write, fsSuperLba, 1, 32⟩
    simp [Transfer.Fits]

theorem bind {β : Type} {m : FsM β} {f : β → FsM α} {s' : Fs} (hm : Ends (Overruns s) m s')
    (hf : ∀ b, Fitting (f b)) : Ends (Overruns s) (m >>= f) s' :=
  Ends.bind hm fun b s'' h => (hf b).keepsOne s s'' h

theorem fsInit (s : Fs) : Ends (Overruns s) (fsInit dev) s := by
  have hload : Ends (Overruns s) (orElse (loadSuperblock dev) (failMount .io)) s := by
    refine wp_orElse.mpr (wp_mono ?_ (fun _ _ h => h)
      (fun s' h => (Noting.failMount (P := Transfer.Fits) .io).keepsOne s s' h) fun _ h => h)
    exact Overruns.bind (m := note _) (noted (.refl _ s) false) fun _ =>
      Noting.readSectors _ _ (fun _ b s => { s with sb := Superblock.decode b }) fun _ _ _ => rfl
  exact Overruns.bind hload fun _ => Noting.get.bind fun _ =>
    Noting.ite ((Noting.failMount _).bind fun _ => Noting.loadTables (Transfer.fits_table false))
      (Noting.loadTables (Transfer.fits_table false))

theorem fsIsFormatted (s : Fs) : Ends (Overruns s) (fsIsFormatted dev) s := by
  have hload : Ends (Overruns s) (diskReadLba dev 32 fsSuperLba) s :=
    Overruns.bind (m := note _) (noted (.refl _ s) false) fun _ =>
      Noting.get.bind fun _ => (Noting.require _).bind fun _ => Noting.pure _
  exact Overruns.bind hload fun b s s' hs => dev.frame.ends_returning b
    (Noting.checkFormat (Transfer.fits_block false) (Transfer.fits_table false) (Superblock.decode b)
      s s' hs)

/-- `fs_format` from the write of the superblock on. -/
theorem writeSuperblock {s' : Fs} (h : Adds Transfer.Fits s s') : Ends (Overruns s) (do
    writeSuperblock dev
    flushBitmap dev
    flushInodes dev
    writeStatusFlag dev 0xFF
    writeSysFile dev passwdName (hashBytes (fnv1a32 defaultPassword))
    modify fun s => { s with lastError := .none, mounted := true }) s' := by
  have hwrite : Ends (Overruns s) (SevenOS.writeSuperblock dev) s' :=
    Ends.get (Overruns.bind (m := note _) (noted h true) fun _ => Noting.writeSector _ _)
  exact Overruns.bind hwrite fun _ =>
    (Noting.flushBitmap fun _ => Transfer.fits_table _ _).bind fun _ =>
    (Noting.flushInodes fun _ => Transfer.fits_table _ _).bind fun _ =>
    (Noting.writeSysFile _ _).bind fun _ => (Noting.writeSysFile _ _).bind fun _ =>
    Noting.modify fun _ => rfl

end Overruns

/-! ## Every call -/

/-- The first block is the root's. -/
def Fs.rooted (s : Fs) : Fs :=
  { s with
    bitmap := s.bitmap.setBit 1
    inodes := assign s.inodes 0 { s.inodes 0 with direct0 := 1 } }

/-- The 17 sectors that are written before the superblock: the root block, which is
all zeros, and the tables. -/
def writeRoot (dev : Device) : FsM Unit := do
  let s ← get
  diskWriteLba dev 512 (s.sectorOf 0) Bytes.zero
  flushTables dev

/-- The drive is left without a root directory: it has no block for it, or it refuses
one of the sectors. -/
def Rootless (dev : Device) (totalBlocks inodeCount : UInt32) (s : Fs) : Prop :=
  formatBlocks dev totalBlocks = 1 ∨
    (writeRoot dev (s.cleared dev totalBlocks inodeCount).rooted).1 ≠ .ok ()

instance (dev : Device) (totalBlocks inodeCount : UInt32) (s : Fs) :
    Decidable (Rootless dev totalBlocks inodeCount s) := inferInstanceAs (Decidable (_ ∨ _))

/-- When a call does not touch the superblock of the disk. -/
def Export.SparesSuperblock (dev : Device) (s : Fs) : Export → Prop
  | init => False
  | isFormatted => False
  | format totalBlocks inodeCount => Rootless dev totalBlocks inodeCount s
  | _ => True

/-- An empty bitmap has block 1 to give, when there is a block 1. -/
theorem allocBlockRaw_empty {v : Volume} (hbitmap : v.bitmap = Bytes.zero) {totalBlocks : UInt32}
    (hcount : v.sb.blockCount = formatBlocks dev totalBlocks) :
    allocBlockRaw v = if formatBlocks dev totalBlocks = 1 then none else some 1 := by
  have hbounds := formatBlocks_bounds dev totalBlocks
  have hone : formatBlocks dev totalBlocks = 1 ↔ (formatBlocks dev totalBlocks).toNat = 1 :=
    UInt32.toNat_inj.symm
  have hlimit : scanLimit v.sb.blockCount = (formatBlocks dev totalBlocks).toNat := by
    rw [scanLimit, hcount]
    split
    · omega
    · rfl
  have hzero : ∀ j, v.bitmap.testBit j = false := fun j => by simp [hbitmap, Bytes.testBit]
  have hscan := allocBlockRaw_leastClear v
  rw [hlimit] at hscan
  cases h : allocBlockRaw v with
  | none =>
      rw [h] at hscan
      have hno : ¬ 1 < (formatBlocks dev totalBlocks).toNat := fun hlt => by
        have := hscan 1 (Nat.le_refl 1) hlt
        rw [hzero 1] at this
        cases this
      rw [if_pos (hone.mpr (by omega))]
  | some b =>
      rw [h] at hscan
      obtain ⟨hpos, hlt, -, hbefore⟩ := hscan
      have hb : b = 1 := by
        apply UInt32.toNat.inj
        change b.toNat = 1
        by_contra hne
        have := hbefore 1 (Nat.le_refl 1) (by omega)
        rw [hzero 1] at this
        cases this
      rw [if_neg fun hcount1 => by rw [hone] at hcount1; omega, hb]

theorem Noting.writeRoot : Fitting (writeRoot dev) :=
  get.bind fun _ => (write _ _).bind fun _ => tables

/-- The root block is made but for a count of one or a refused sector. -/
theorem ensureRootDirBlock_fits (totalBlocks inodeCount : UInt32) (s : Fs) :
    wp (ensureRootDirBlock dev)
      (fun _ s' => ¬ Rootless dev totalBlocks inodeCount s ∧ Adds Transfer.Fits s s')
      (fun s' => Rootless dev totalBlocks inodeCount s ∧ Adds Transfer.Fits s s')
      (fun s' => Rootless dev totalBlocks inodeCount s ∧ Adds Transfer.Fits s s')
      (s.cleared dev totalBlocks inodeCount) := by
  have hno : ¬ ((s.cleared dev totalBlocks inodeCount).inodes 0).direct0 ≠ 0 := by
    simp [Fs.cleared, Inode.zero]
  have hcount : (s.cleared dev totalBlocks inodeCount).sb.blockCount =
      formatBlocks dev totalBlocks := rfl
  rw [ensureRootDirBlock, wp_bind, wp_get, if_neg hno, wp_bind, allocBlockRaw_empty rfl hcount]
  by_cases hone : formatBlocks dev totalBlocks = 1
  · rw [if_pos hone]
    exact ⟨.inl hone, [], by simp [Fs.cleared], by simp⟩
  · rw [if_neg hone]
    change wp (writeRoot dev) _ _ _ (s.cleared dev totalBlocks inodeCount).rooted
    have hroot : Noting Transfer.Fits (writeRoot dev) := Noting.writeRoot
    have hadds := hroot s (s.cleared dev totalBlocks inodeCount).rooted
      ⟨[], by simp [Fs.cleared, Fs.rooted], by simp⟩
    refine wp_mono (wp_known hadds) (fun _ s' h => ⟨?_, h.2⟩)
      (fun _ h => ⟨.inr fun hok => ?_, h.2⟩) fun _ h => ⟨.inr fun hok => ?_, h.2⟩
    · intro hroot
      cases hroot with
      | inl hone' => exact hone hone'
      | inr hfail => exact hfail h.1
    · cases h.1.symm.trans hok
    · cases h.1.symm.trans hok

/-- Every transfer of `fs_format` fits just when it stops before the superblock. -/
theorem fsFormat_fits (totalBlocks inodeCount : UInt32) (s : Fs) :
    Ends (fun s' => Rootless dev totalBlocks inodeCount s ∧ Adds Transfer.Fits s s' ∨
      ¬ Rootless dev totalBlocks inodeCount s ∧ Overruns s s')
      (fsFormat dev totalBlocks inodeCount) s := by
  refine wp_call (m := ensureRootDirBlock dev) (s := s.cleared dev totalBlocks inodeCount)
    (ensureRootDirBlock_fits totalBlocks inodeCount s) (fun _ s' h => ?_) (fun _ h => .inl h)
    fun _ h => .inl h
  exact wp_mono (Overruns.writeSuperblock h.2) (fun _ _ ho => .inr ⟨h.1, ho⟩)
    (fun _ ho => .inr ⟨h.1, ho⟩) fun _ ho => .inr ⟨h.1, ho⟩

theorem Call.fitting (call : Call) : Fitting (call.run dev) := by
  cases call with
  | mkdirPath path => exact Noting.fsMkdirPath path
  | create name => exact Noting.fsCreate name
  | writePath path data => exact Noting.fsWritePath path data
  | copyPath srcPath dstPath => exact Noting.fsCopyPath srcPath dstPath
  | rename srcPath dstPath => exact Noting.fsRename srcPath dstPath
  | removePath path => exact Noting.fsRemovePath path
  | removePathRecursive path => exact Noting.fsRemovePathRecursive path
  | writePasswd hash => exact Noting.writeSysFile _ _

/-- Every transfer of a call fits just when the call does not get to the superblock. -/
theorem transfers_fit (dev : Device) (e : Export) (s : Fs) :
    Adds Transfer.Fits s (e.run dev s).2 ↔ e.SparesSuperblock dev s := by
  have fits : ∀ {m : FsM Unit}, Fitting m → (Adds Transfer.Fits s (m s).2 ↔ True) := fun h =>
    iff_of_true (Ends.run (h s s (.refl _ s))) trivial
  have overruns : ∀ {m : FsM Unit}, Ends (Overruns s) m s →
      (Adds Transfer.Fits s (m s).2 ↔ False) := fun h =>
    iff_of_false (fun hfit => hfit.not_addsOne h.run) id
  cases e with
  | init => exact overruns (Overruns.fsInit s)
  | isFormatted => exact overruns (Overruns.fsIsFormatted s)
  | format totalBlocks inodeCount =>
      have hends : Ends _ (fsFormat dev totalBlocks inodeCount) s :=
        fsFormat_fits totalBlocks inodeCount s
      cases hends.run with
      | inl h => exact iff_of_true h.2 h.1
      | inr h => exact iff_of_false (fun hfit => hfit.not_addsOne h.2) h.1
  | listRoot maxEntries => exact fits (Noting.forget (Noting.fsListRoot maxEntries))
  | listDir dirname maxEntries => exact fits (Noting.forget (Noting.fsListDir dirname maxEntries))
  | mkdir name => exact fits (Noting.fsMkdir name)
  | isDir path => exact fits (Noting.fsIsDir path)
  | write name data => exact fits (Noting.fsWrite name data)
  | remove name => exact fits (Noting.fsRemove name)
  | read name maxlen => exact fits (Noting.forget (Noting.fsRead name maxlen))
  | readPath path maxlen => exact fits (Noting.forget (Noting.fsReadPath path maxlen))
  | hashPassword password => exact fits (Noting.forget (Noting.pure _))
  | readPasswd => exact fits (Noting.forget Noting.fsReadPasswd)
  | lastError => exact fits (Noting.forget (Noting.get.bind fun _ => Noting.pure _))
  | megabytes => exact fits (Noting.forget (Noting.fsGetDiskBytes.bind fun _ => Noting.pure _))
  | diskBytes => exact fits (Noting.forget Noting.fsGetDiskBytes)
  | usage =>
      exact fits (Noting.forget (Noting.get.bind fun _ => (Noting.require _).bind fun _ =>
        Noting.pure _))
  | change call => exact fits call.fitting

/-- `fs_init` reads a whole sector into the 32 bytes of `g_sb`. -/
theorem not_transfers_fit :
    ¬ ∀ (dev : Device) (e : Export) (s : Fs), Adds Transfer.Fits s (e.run dev s).2 := by
  intro h
  obtain ⟨added, hlog, hfits⟩ := h Device.working .init (Fs.booted fun _ => Bytes.zero)
  have hnoted : ((Export.init.run Device.working (Fs.booted fun _ => Bytes.zero)).2.log) =
      [⟨false, 128, 1, 32⟩] := by decide +kernel
  have hfit : Transfer.Fits ⟨false, 128, 1, 32⟩ := by
    apply hfits
    rw [hnoted] at hlog
    rw [← show _ = added from hlog]
    exact List.mem_singleton_self _
  exact absurd hfit (by decide)

end SevenOS
