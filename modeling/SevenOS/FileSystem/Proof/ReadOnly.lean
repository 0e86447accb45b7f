import SevenOS.FileSystem.Proof.Perfect

/-! # Reading changes no volume

On any device, whether its transfers work or not: what only reads leaves
superblock, tables and disk alone.
-/

namespace SevenOS

open Prog

variable {dev : Device} {α β : Type}

/-- The program changes scratch memory only. -/
def ReadOnly (m : FsM α) : Prop := ∀ v : Volume, Keeps (fun s : Fs => s.toVolume = v) m

namespace ReadOnly

theorem pure (a : α) : ReadOnly (Pure.pure a) := fun _ => Keeps.pure a

theorem refuse : ReadOnly (Prog.refuse : FsM α) := fun _ => Keeps.refuse

theorem get : ReadOnly (Prog.get : FsM Fs) := fun _ => Keeps.get

theorem require (p : Prop) [Decidable p] : ReadOnly (Prog.require p) := fun _ => Keeps.require p

theorem demand (o : Option α) : ReadOnly (Prog.demand o) := fun _ => Keeps.demand o

theorem bind {m : FsM β} {f : β → FsM α} (hm : ReadOnly m) (hf : ∀ b, ReadOnly (f b)) :
    ReadOnly (m >>= f) := fun v => (hm v).bind fun b => hf b v

theorem ite {p : Prop} [Decidable p] {m n : FsM α} (hm : ReadOnly m) (hn : ReadOnly n) :
    ReadOnly (if p then m else n) := fun v => Keeps.ite (fun _ => hm v) fun _ => hn v

theorem run {m : FsM α} (h : ReadOnly m) {s s' : Fs} {o : Outcome α} (hrun : m s = (o, s')) :
    s'.toVolume = s.toVolume :=
  (h s.toVolume).run rfl hrun

theorem volume {m : FsM α} (h : ReadOnly m) (s : Fs) : (m s).2.toVolume = s.toVolume :=
  h.run (o := (m s).1) rfl

/-- The rule for a call: the callee's value is arbitrary, the volume is the same. -/
theorem step {m : FsM β} (h : ReadOnly m) {Q : β → Fs → Prop} {R D : Fs → Prop} {s : Fs}
    (hQ : ∀ b s', s'.toVolume = s.toVolume → Q b s') (hR : ∀ s', s'.toVolume = s.toVolume → R s')
    (hD : ∀ s', s'.toVolume = s.toVolume → D s') : wp m Q R D s :=
  wp_mono (h s.toVolume s rfl) hQ hR hD

theorem note (t : Transfer) : ReadOnly (note t) := fun _ => Keeps.modify fun _ h => h

theorem diskReadLba (object : Nat) (lba : UInt32) : ReadOnly (diskReadLba dev object lba) :=
  (note _).bind fun _ => get.bind fun _ => (require _).bind fun _ => pure _

theorem loadScratch (lba : UInt32) : ReadOnly (loadScratch dev lba) :=
  (diskReadLba _ _).bind fun _ _ => Keeps.modify fun _ h => h

theorem loadScratch2 (lba : UInt32) : ReadOnly (loadScratch2 dev lba) :=
  (diskReadLba _ _).bind fun _ _ => Keeps.modify fun _ h => h

theorem lookupDir (dirname : CStr) : ReadOnly (lookupDir dirname) :=
  get.bind fun _ => (demand _).bind fun _ => demand _

theorem loadDirBlock (dir : InodeNo) : ReadOnly (loadDirBlock dev dir) :=
  get.bind fun _ => (require _).bind fun _ => diskReadLba _ _

theorem readRootDirBlock : ReadOnly (readRootDirBlock dev) :=
  get.bind fun _ => (require _).bind fun _ => loadScratch _

theorem readSysFile (filename : CStr) (maxlen : UInt32) :
    ReadOnly (readSysFile dev filename maxlen) :=
  get.bind fun _ => (require _).bind fun _ => (require _).bind fun _ =>
    (loadScratch _).bind fun _ => get.bind fun _ => (demand _).bind fun _ =>
    (demand _).bind fun _ => (require _).bind fun _ => (loadScratch2 _).bind fun _ =>
    get.bind fun _ => (demand _).bind fun _ => (demand _).bind fun _ => (require _).bind fun _ =>
    (loadScratch _).bind fun _ => get.bind fun _ => pure _

theorem fsReadPasswd : ReadOnly (fsReadPasswd dev) :=
  (readSysFile _ _).bind fun _ => (require _).bind fun _ => pure _

theorem copySource (srcPath : CStr) : ReadOnly (copySource dev srcPath) := by
  refine get.bind fun _ => (require _).bind fun _ => (loadScratch _).bind fun _ => ?_
  cases splitPath srcPath with
  | none => exact get.bind fun _ => (demand _).bind fun _ => demand _
  | some parts =>
      exact (require _).bind fun _ => (lookupDir _).bind fun _ => get.bind fun _ =>
        (require _).bind fun _ => (loadScratch2 _).bind fun _ => get.bind fun _ =>
        (demand _).bind fun _ => demand _

theorem copyTarget (srcPath dstPath : CStr) : ReadOnly (copyTarget dev srcPath dstPath) := by
  unfold SevenOS.copyTarget
  cases splitPath dstPath with
  | some parts =>
      exact (require _).bind fun _ => get.bind fun _ => (loadScratch _).bind fun _ =>
        (lookupDir _).bind fun _ => pure _
  | none =>
      refine get.bind fun _ => (loadScratch _).bind fun _ => get.bind fun s => ?_
      cases findDirEntry dstPath s.blockScratch s.inodes inodeDir with
      | none => exact pure _
      | some i => exact (demand _).bind fun _ => pure _

theorem removeParent (dirname filename : CStr) : ReadOnly (removeParent dev dirname filename) :=
  (require _).bind fun _ => get.bind fun _ => (require _).bind fun _ =>
    (loadScratch _).bind fun _ => lookupDir _

theorem renameDir (dirname : CStr) : ReadOnly (renameDir dev dirname) := by
  refine (loadDirBlock _).bind fun b => get.bind fun s => ?_
  cases findDirEntry dirname b s.inodes inodeDir with
  | none => exact pure _
  | some i => exact (demand _).bind fun _ => pure _

theorem renameSource (srcPath : CStr) : ReadOnly (renameSource dev srcPath) := by
  unfold SevenOS.renameSource
  cases splitPath srcPath with
  | none => exact pure _
  | some parts =>
      exact (require _).bind fun _ => (require _).bind fun _ => (renameDir _).bind fun _ =>
        (demand _).bind fun _ => pure _

theorem renameTarget (srcName dstPath : CStr) :
    ReadOnly (renameTarget dev srcName dstPath) := by
  unfold SevenOS.renameTarget
  cases splitPath dstPath with
  | some parts =>
      exact (require _).bind fun _ => (renameDir _).bind fun _ => (demand _).bind fun _ =>
        ite (pure _) (pure _)
  | none =>
      refine (renameDir _).bind fun o => ?_
      cases o with
      | none => exact pure _
      | some d => exact pure _

theorem fsListRoot (maxEntries : UInt32) : ReadOnly (fsListRoot dev maxEntries) :=
  get.bind fun _ => (require _).bind fun _ => ite (pure _) <| ite (pure _) <|
    (diskReadLba _ _).bind fun _ => pure _

theorem fsListDir (dirname : CStr) (maxEntries : UInt32) :
    ReadOnly (fsListDir dev dirname maxEntries) :=
  get.bind fun _ => (require _).bind fun _ => ite (pure _) <| (require _).bind fun _ =>
    (loadScratch _).bind fun _ => (lookupDir _).bind fun _ => get.bind fun _ =>
    (require _).bind fun _ => (loadScratch2 _).bind fun _ => get.bind fun _ => pure _

theorem fsIsDir (path : CStr) : ReadOnly (fsIsDir dev path) := by
  refine get.bind fun _ => (require _).bind fun _ => (require _).bind fun _ =>
    (require _).bind fun _ => (loadScratch _).bind fun _ => ?_
  cases splitPath path with
  | none => exact get.bind fun _ => require _
  | some parts =>
      exact (require _).bind fun _ => (lookupDir _).bind fun _ => get.bind fun _ =>
        (require _).bind fun _ => (loadScratch2 _).bind fun _ => get.bind fun _ => require _

theorem fsRead (name : CStr) (maxlen : UInt32) : ReadOnly (fsRead dev name maxlen) :=
  get.bind fun _ => (require _).bind fun _ => (require _).bind fun _ => (require _).bind fun _ =>
    (loadScratch _).bind fun _ => get.bind fun _ => (demand _).bind fun _ =>
    (demand _).bind fun _ => (require _).bind fun _ => (loadScratch2 _).bind fun _ =>
    get.bind fun _ => pure _

theorem fsReadPath (path : CStr) (maxlen : UInt32) : ReadOnly (fsReadPath dev path maxlen) := by
  refine get.bind fun _ => (require _).bind fun _ => (require _).bind fun _ => ?_
  cases splitPath path with
  | none => exact fsRead _ _
  | some parts =>
      exact (require _).bind fun _ => (require _).bind fun _ => (loadScratch _).bind fun _ =>
        (lookupDir _).bind fun _ => get.bind fun _ => (require _).bind fun _ =>
        (loadScratch2 _).bind fun _ => get.bind fun _ => (demand _).bind fun _ =>
        (demand _).bind fun _ => (require _).bind fun _ => (loadScratch _).bind fun _ =>
        get.bind fun _ => pure _

end ReadOnly

/-! ## Reads that fail -/

/-- The last transfer was a read, and the device failed it. -/
def FailedRead (dev : Device) (s : Fs) : Prop :=
  ∃ t, s.log.getLast? = some t ∧ t.write = false ∧ dev.readFails s t.lba = true

section Rules

variable {s : Fs} {Q : Unit → Fs → Prop} {R D : Fs → Prop} {lba : UInt32}

theorem wp_diskReadLba {object : Nat} {Q : Block → Fs → Prop}
    (hQ : ∀ s', s'.toVolume = s.toVolume → Q (s.disk lba) s')
    (hR : ∀ s', FailedRead dev s' → R s') : wp (diskReadLba dev object lba) Q R D s := by
  simp only [diskReadLba, wp_bind, wp_note, wp_get, wp_require, wp_pure]
  refine ⟨fun _ => hQ _ rfl, fun hfails => hR _ ⟨⟨false, lba, 1, object⟩, ?_, rfl, ?_⟩⟩
  · simp [Fs.noted]
  · simpa using hfails

theorem wp_loadScratch
    (hQ : ∀ s', s'.toVolume = s.toVolume → s'.blockScratch = s.disk lba → Q () s')
    (hR : ∀ s', FailedRead dev s' → R s') : wp (loadScratch dev lba) Q R D s := by
  rw [loadScratch, wp_bind]
  exact wp_diskReadLba (fun s' hv => hQ _ hv rfl) hR

theorem wp_loadScratch2
    (hQ : ∀ s', s'.toVolume = s.toVolume → s'.blockScratch2 = s.disk lba → Q () s')
    (hR : ∀ s', FailedRead dev s' → R s') : wp (loadScratch2 dev lba) Q R D s := by
  rw [loadScratch2, wp_bind]
  exact wp_diskReadLba (fun s' hv => hQ _ hv rfl) hR

end Rules

/-! ## Writing keeps the tables in memory -/

section Writing

variable (P : Superblock → Bitmap → (InodeNo → Inode) → Prop)

theorem writeSector_tables (lba : UInt32) (b : Block) :
    Keeps (fun s : Fs => P s.sb s.bitmap s.inodes) (writeSector dev lba b) := by
  refine Keeps.get.bind fun s => ?_
  cases dev.writeFault s lba with
  | none => exact Keeps.modify fun _ h => h
  | some left => exact Keeps.bind (Keeps.modify fun _ h => h) fun _ => Keeps.refuse

theorem diskWriteLba_tables (object : Nat) (lba : UInt32) (b : Block) :
    Keeps (fun s : Fs => P s.sb s.bitmap s.inodes) (diskWriteLba dev object lba b) :=
  Keeps.bind (Keeps.modify fun _ h => h) fun _ => writeSector_tables P lba b

theorem diskWriteSectors_tables (object : Nat) (lba : UInt32) (sectors : Nat)
    (data : Nat → Block) : Keeps (fun s : Fs => P s.sb s.bitmap s.inodes)
      (diskWriteSectors dev object lba sectors data) :=
  Keeps.bind (Keeps.modify fun _ h => h) fun _ =>
    Keeps.foldlM _ (fun _ _ _ => writeSector_tables P _ _) ()

theorem flushTables_tables : Keeps (fun s : Fs => P s.sb s.bitmap s.inodes) (flushTables dev) :=
  Keeps.bind (Keeps.get.bind fun _ => diskWriteSectors_tables P _ _ _ _) fun _ =>
    Keeps.get.bind fun _ => diskWriteSectors_tables P _ _ _ _

end Writing

end SevenOS
