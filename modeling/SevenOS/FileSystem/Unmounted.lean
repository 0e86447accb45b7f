import SevenOS.FileSystem.Transfers
import SevenOS.FileSystem.Proof.ReadOnly

/-! # Calls before a mount

Whatever a failed mount left in memory, a call that looks at `g_mounted` first is
refused with nothing done, and what does not look at it only reads. The exception
is `fs_write_passwd`: `write_sys_file` has no such check, and it writes whenever
the tables in memory let it get that far.
-/

namespace SevenOS

open Prog

variable {dev : Device} {α β : Type}

/-- The transfers noted from `s` to `s'` are all reads. -/
def OnlyReads (s s' : Fs) : Prop :=
  ∃ added, s'.log = s.log ++ added ∧ ∀ t ∈ added, t.write = false

theorem OnlyReads.refl (s : Fs) : OnlyReads s s := ⟨[], by simp, by simp⟩

/-- A program that issues no disk write. -/
def Reading (m : FsM α) : Prop := ∀ s : Fs, Keeps (OnlyReads s) m

theorem Reading.of_noting {m : FsM α} (h : Noting (fun t => t.write = false) m) : Reading m := h

/-! ## The check of `g_mounted` -/

variable {s : Fs}

/-- What looks at `g_mounted` first is refused and has done nothing. -/
theorem guarded_refused (h : s.mounted = false) (f : Fs → FsM α) :
    (do let s ← get; require s.mounted; f s : FsM α) s = (.refused, s) := by
  have hrefuse : (require (s.mounted = true) : FsM Unit) = refuse := by
    rw [require, if_neg (by simp [h])]
  change (require (s.mounted = true) >>= fun _ => f s) s = _
  rw [hrefuse]
  rfl

theorem forget_refused {m : FsM α} (h : m s = (.refused, s)) :
    Export.forget m s = (.refused, s) := by
  change Prog.bind m _ s = _
  rw [Prog.bind, h]

theorem prepareEntry_refused (h : s.mounted = false) (name : CStr) (type : UInt8)
    (f : InodeNo × UInt32 × Block × Slot → FsM Unit) :
    (prepareEntry dev name type >>= f) s = (.refused, s) := by
  have hprepare : prepareEntry dev name type s = (.refused, s) := guarded_refused h _
  change Prog.bind _ _ s = _
  rw [Prog.bind, hprepare]

/-- The calls whose first step looks at `g_mounted`. -/
def Export.Guarded : Export → Prop
  | .init => False
  | .format _ _ => False
  | .hashPassword _ => False
  | .lastError => False
  | .isFormatted => False
  | .megabytes => False
  | .diskBytes => False
  | .change (.writePasswd _) => False
  | _ => True

theorem Export.guarded_refused {e : Export} (he : e.Guarded) (h : s.mounted = false) :
    e.run dev s = (.refused, s) := by
  cases e with
  | listRoot maxEntries => exact forget_refused (SevenOS.guarded_refused h _)
  | listDir dirname maxEntries => exact forget_refused (SevenOS.guarded_refused h _)
  | mkdir name => exact prepareEntry_refused h name inodeDir _
  | isDir path => exact SevenOS.guarded_refused h _
  | write name data => exact SevenOS.guarded_refused h _
  | remove name => exact SevenOS.guarded_refused h _
  | read name maxlen => exact forget_refused (SevenOS.guarded_refused h _)
  | readPath path maxlen => exact forget_refused (SevenOS.guarded_refused h _)
  | readPasswd =>
      refine forget_refused ?_
      have hread : readSysFile dev passwdName 4 s = (.refused, s) := SevenOS.guarded_refused h _
      change Prog.bind _ _ s = _
      rw [Prog.bind, hread]
  | usage => exact forget_refused (SevenOS.guarded_refused h _)
  | change call =>
      cases call with
      | mkdirPath path => exact SevenOS.guarded_refused h _
      | create name => exact prepareEntry_refused h name inodeFile _
      | writePath path data => exact SevenOS.guarded_refused h _
      | copyPath srcPath dstPath => exact SevenOS.guarded_refused h _
      | rename srcPath dstPath => exact SevenOS.guarded_refused h _
      | removePath path => exact SevenOS.guarded_refused h _
      | removePathRecursive path => exact SevenOS.guarded_refused h _
      | writePasswd hash => exact he.elim
  | _ => exact he.elim

/-! ## Writing behind a first write -/

/-- A write is among the transfers noted from `s` to `s'`. -/
def Written (s s' : Fs) : Prop :=
  ∃ added, s'.log = s.log ++ added ∧ ∃ t ∈ added, t.write = true

theorem Written.not_onlyReads {s s' : Fs} (h : Written s s') : ¬OnlyReads s s' := by
  rintro ⟨reads, hreads, hall⟩
  obtain ⟨added, hadded, t, ht, hwrite⟩ := h
  have hsame : added = reads := List.append_cancel_left (hadded.symm.trans hreads)
  rw [hall t (hsame ▸ ht)] at hwrite
  cases hwrite

/-- A program that takes nothing off the log. -/
def Logging (m : FsM α) : Prop := ∀ s : Fs, Keeps (Written s) m

namespace Logging

theorem of_noting {m : FsM α} {P : Transfer → Prop} (h : Noting P m) : Logging m := fun s =>
  h.keepsOne s

theorem first_write {s s' : Fs} (h : OnlyReads s s') (object : Nat) (lba : UInt32) (b : Block)
    {Q : Unit → Fs → Prop} (hQ : ∀ s'', Written s s'' → Q () s'') :
    wp (SevenOS.diskWriteLba dev object lba b) Q (Written s) (Written s) s' := by
  obtain ⟨added, hlog, -⟩ := h
  have hnoted : Written s (s'.noted ⟨true, lba, 1, object⟩) :=
    ⟨added ++ [⟨true, lba, 1, object⟩], by rw [← List.append_assoc, ← hlog]; rfl,
      ⟨true, lba, 1, object⟩, by simp, rfl⟩
  rw [SevenOS.diskWriteLba, wp_bind, wp_note]
  have hsector : Logging (writeSector dev lba b) :=
    of_noting (Noting.writeSector (P := Transfer.Fits) lba b)
  exact wp_mono (hsector s _ hnoted) (fun _ s'' h'' => hQ s'' h'') (fun _ h => h) fun _ h => h

end Logging

/-! ## `fs_write_passwd` -/

/-- With this root block in memory, `write_sys_file` gets to a write: the `sys` directory
has a block, or there are an inode, a block and a slot to make it with. -/
def Volume.SysWritable (v : Volume) (root : Block) : Prop :=
  match findDirEntry sysName root v.inodes inodeDir with
  | none => (allocInodeRaw v).isSome ∧ (allocBlockRaw v).isSome ∧ (firstFreeSlot root).isSome
  | some i => ∃ k, inodeIndex (entryInode root i) = some k ∧ (v.inodes k).direct0 ≠ 0

/-- `fs_write_passwd` gets to a write: for a root block of its own, or past reading the
root block it has. -/
def PasswdWrites (dev : Device) (s : Fs) : Prop :=
  if (s.inodes 0).direct0 = 0 then (allocBlockRaw s.toVolume).isSome = true
  else
    isDirInode s.toVolume 0 ∧
      dev.readFails (s.noted ⟨false, s.sectorOf 0, 1, 512⟩) (s.sectorOf 0) = false ∧
      s.toVolume.SysWritable (s.disk (s.sectorOf 0))

/-- The run ends with a write behind it. -/
abbrev EndsWritten (s₀ : Fs) (m : FsM α) (s : Fs) : Prop :=
  wp m (fun _ => Written s₀) (Written s₀) (Written s₀) s

/-- The run is refused and has only read. -/
abbrev EndsRead (s₀ : Fs) (m : FsM α) (s : Fs) : Prop :=
  wp m (fun _ _ => False) (OnlyReads s₀) (fun _ => False) s

theorem ensureSysDir_written {f : InodeNo → FsM α} {s₀ : Fs} (h : OnlyReads s₀ s)
    (hlog : ∀ d, Logging (f d)) (hf : ∀ d, EndsWritten s₀ (f d) s)
    (hw : s.toVolume.SysWritable s.blockScratch) :
    EndsWritten s₀ (ensureSysDir dev >>= f) s := by
  rw [Volume.SysWritable] at hw
  rw [EndsWritten, wp_bind, ensureSysDir, wp_bind, wp_get]
  cases hfind : findDirEntry sysName s.blockScratch s.inodes inodeDir with
  | none =>
      simp only [hfind, Option.isSome_iff_exists] at hw
      obtain ⟨⟨k, hk⟩, ⟨b, hb⟩, j, hj⟩ := hw
      simp only [hk, hb, hj, wp_bind, wp_demand, wp_markBlockUsed, wp_modifyInode, wp_setScratch,
        wp_setScratch2, wp_get, Option.some.injEq, reduceCtorEq, false_implies, and_true,
        forall_eq']
      refine Logging.first_write ?_ _ _ _ fun s'' h'' => ?_
      · exact h
      · exact hlog k s₀ s'' h''
  | some i =>
      simp only [hfind] at hw
      obtain ⟨k, hk, hblock⟩ := hw
      obtain ⟨k', hit⟩ := findDirEntry_some (by decide) hfind
      have hkk : k' = k := by
        have := hit.inodeIndex
        rw [hk] at this
        exact (Option.some.inj this).symm
      subst hkk
      simp only [wp_bind, hk, wp_demand, wp_require, wp_pure, Option.some.injEq, reduceCtorEq,
        false_implies, and_true, forall_eq']
      exact ⟨fun _ => hf k', fun hno => (hno ⟨hit.type, hblock⟩).elim⟩

theorem ensureSysDir_read {f : InodeNo → FsM α} {s₀ : Fs} (h : OnlyReads s₀ s)
    (hw : ¬s.toVolume.SysWritable s.blockScratch) : EndsRead s₀ (ensureSysDir dev >>= f) s := by
  rw [Volume.SysWritable] at hw
  rw [EndsRead, wp_bind, ensureSysDir, wp_bind, wp_get]
  cases hfind : findDirEntry sysName s.blockScratch s.inodes inodeDir with
  | none =>
      simp only [hfind, Option.isSome_iff_exists] at hw
      simp only [wp_bind, wp_demand, wp_markBlockUsed, wp_modifyInode]
      refine ⟨fun k hk => ⟨fun b hb => ⟨fun j hj => ?_, fun _ => h⟩, fun _ => h⟩, fun _ => h⟩
      exact (hw ⟨⟨k, hk⟩, ⟨b, hb⟩, j, hj⟩).elim
  | some i =>
      simp only [hfind] at hw
      simp only [wp_bind, wp_demand, wp_require, wp_pure]
      refine ⟨fun k hk => ⟨fun hdir => ?_, fun _ => h⟩, fun _ => h⟩
      exact (hw ⟨k, hk, hdir.2⟩).elim

/-- `fs_write_passwd` without the check: it has written, or was refused after reading. -/
theorem writeSysFile_written (filename : CStr) (data : List UInt8) (hw : PasswdWrites dev s) :
    EndsWritten s (writeSysFile dev filename data) s := by
  rw [PasswdWrites] at hw
  rw [EndsWritten, writeSysFile, wp_bind, ensureRootDirBlock, wp_bind, wp_get]
  have tail := fun d => @Noting.sysTail dev d filename data
  have rest : Logging (do
      readRootDirBlock dev
      let sysInode ← ensureSysDir dev
      let s ← get
      diskWriteLba dev 512 (s.sectorOf 0) s.blockScratch
      loadScratch2 dev (s.sectorOf sysInode)
      writeSysEntry dev sysInode filename data) :=
    .of_noting (Noting.readRootDirBlock.bind fun _ => Noting.ensureSysDir.bind tail)
  by_cases hroot : (s.inodes 0).direct0 = 0
  · rw [if_pos hroot] at hw
    obtain ⟨b, hb⟩ := Option.isSome_iff_exists.mp hw
    rw [if_neg (by simpa using hroot), wp_bind, wp_demand]
    refine ⟨fun b _ => ?_, fun hno => by rw [hb] at hno; cases hno⟩
    rw [wp_bind, wp_markBlockUsed, wp_bind, wp_modifyInode, wp_bind, wp_get, wp_bind]
    refine Logging.first_write ?_ _ _ _ fun s₁ h₁ => ?_
    · exact OnlyReads.refl s
    · have hflush : Logging (flushTables dev) := .of_noting Noting.tables
      exact wp_mono (hflush s s₁ h₁) (fun _ s₂ h₂ => rest s s₂ h₂) (fun _ h => h) fun _ h => h
  · rw [if_neg hroot] at hw
    obtain ⟨hdir, hread, hsys⟩ := hw
    rw [if_pos hroot, wp_pure, wp_bind, readRootDirBlock, wp_bind, wp_get, wp_bind]
    refine (wp_require _).mpr ⟨fun _ => ?_, fun hno => (hno hdir).elim⟩
    rw [loadScratch, wp_bind, diskReadLba, wp_bind, wp_note, wp_bind, wp_get, wp_bind]
    refine (wp_require _).mpr ⟨fun _ => ?_, fun hno => (hno hread).elim⟩
    rw [wp_pure, wp_setScratch]
    have hnoted : OnlyReads s ((s.noted ⟨false, s.sectorOf 0, 1, 512⟩).setScratch
        (s.disk (s.sectorOf 0))) := ⟨[_], rfl, by simp⟩
    refine ensureSysDir_written hnoted (fun d => .of_noting (tail d)) (fun d => ?_) hsys
    rw [EndsWritten, wp_bind, wp_get, wp_bind]
    refine Logging.first_write hnoted _ _ _ fun s₁ h₁ => ?_
    exact Logging.of_noting ((Noting.load2 _).bind fun _ => Noting.writeSysEntry d filename data)
      s s₁ h₁

theorem writeSysFile_read (filename : CStr) (data : List UInt8) (hw : ¬PasswdWrites dev s) :
    EndsRead s (writeSysFile dev filename data) s := by
  rw [PasswdWrites] at hw
  rw [EndsRead, writeSysFile, wp_bind, ensureRootDirBlock, wp_bind, wp_get]
  by_cases hroot : (s.inodes 0).direct0 = 0
  · rw [if_pos hroot] at hw
    rw [if_neg (by simpa using hroot), wp_bind, wp_demand]
    exact ⟨fun b hb => (hw (by rw [hb]; rfl)).elim, fun _ => .refl s⟩
  · rw [if_neg hroot] at hw
    rw [if_pos hroot, wp_pure, wp_bind, readRootDirBlock, wp_bind, wp_get, wp_bind]
    refine (wp_require _).mpr ⟨fun hdir => ?_, fun _ => .refl s⟩
    rw [loadScratch, wp_bind, diskReadLba, wp_bind, wp_note, wp_bind, wp_get, wp_bind]
    have hnoted : OnlyReads s ((s.noted ⟨false, s.sectorOf 0, 1, 512⟩).setScratch
        (s.disk (s.sectorOf 0))) := ⟨[_], rfl, by simp⟩
    refine (wp_require _).mpr ⟨fun hread => ?_, fun _ => hnoted⟩
    rw [wp_pure, wp_setScratch]
    exact ensureSysDir_read hnoted fun hsys => hw ⟨hdir, hread, hsys⟩

/-! ## All calls -/

/-- The call issues no disk write, and a mutation reports failure. -/
def Untouched (dev : Device) (s : Fs) (e : Export) : Prop :=
  OnlyReads s (e.run dev s).2 ∧ (e.Mutates → (e.run dev s).1 ≠ .ok ())

theorem untouched_of_refused {e : Export} (h : e.run dev s = (.refused, s)) :
    Untouched dev s e := by
  rw [Untouched, h]
  exact ⟨.refl s, fun _ => by simp⟩

theorem untouched_of_reading {e : Export} (h : Reading (e.run dev)) (he : ¬e.Mutates) :
    Untouched dev s e :=
  ⟨(h s).run (.refl s) rfl, fun hm => (he hm).elim⟩

theorem untouched_writePasswd (hash : UInt32) :
    Untouched dev s (.change (.writePasswd hash)) ↔ ¬PasswdWrites dev s := by
  generalize hrun : fsWritePasswd dev hash s = r
  obtain ⟨o, s'⟩ := r
  have hcall : (Export.change (.writePasswd hash)).run dev s = (o, s') := hrun
  constructor
  · rintro ⟨hreads, -⟩ hw
    rw [hcall] at hreads
    have hwritten : Written s s' := by
      rcases wp_run (writeSysFile_written passwdName (hashBytes hash) hw) hrun with
        ⟨_, -, h⟩ | ⟨-, h⟩ | ⟨-, h⟩ <;> exact h
    exact hwritten.not_onlyReads hreads
  · intro hw
    rcases wp_run (writeSysFile_read passwdName (hashBytes hash) hw) hrun with
      ⟨_, -, h⟩ | ⟨ho, h⟩ | ⟨-, h⟩
    · exact h.elim
    · rw [Untouched, hcall]
      exact ⟨h, fun _ => by simp [ho]⟩
    · exact h.elim

/-- Not mounted, whatever the tables hold: every call but `fs_format` leaves the disk
alone and refuses to change anything, exactly when it is not an `fs_write_passwd` that gets
to a write. -/
theorem unmounted_untouched (dev : Device) (s : Fs) (e : Export) (hunmounted : s.mounted = false)
    (hformat : ∀ totalBlocks inodeCount, e ≠ .format totalBlocks inodeCount) :
    Untouched dev s e ↔ ∀ hash, e = .change (.writePasswd hash) → ¬PasswdWrites dev s := by
  by_cases hpasswd : ∃ hash, e = .change (.writePasswd hash)
  · obtain ⟨hash, rfl⟩ := hpasswd
    rw [untouched_writePasswd]
    exact ⟨fun h _ _ => h, fun h => h hash rfl⟩
  · refine iff_of_true ?_ fun hash he => (hpasswd ⟨hash, he⟩).elim
    by_cases hguard : e.Guarded
    · exact untouched_of_refused (e.guarded_refused hguard hunmounted)
    · cases e with
      | init => exact untouched_of_reading (.of_noting (Noting.fsInit fun _ _ _ => rfl)) id
      | format totalBlocks inodeCount => exact (hformat totalBlocks inodeCount rfl).elim
      | hashPassword str =>
          exact untouched_of_reading
            (.of_noting ((Noting.pure _).bind fun _ => Noting.pure _)) id
      | lastError =>
          exact untouched_of_reading
            (.of_noting ((Noting.get.bind fun _ => Noting.pure _).bind fun _ => Noting.pure _)) id
      | isFormatted =>
          exact untouched_of_reading (.of_noting (Noting.fsIsFormatted fun _ _ _ => rfl)) id
      | megabytes =>
          exact untouched_of_reading
            (.of_noting (Noting.forget (Noting.fsGetDiskBytes.bind fun _ => Noting.pure _))) id
      | diskBytes =>
          exact untouched_of_reading (.of_noting (Noting.forget Noting.fsGetDiskBytes)) id
      | change call =>
          cases call with
          | writePasswd hash => exact (hpasswd ⟨hash, rfl⟩).elim
          | _ => exact (hguard trivial).elim
      | _ => exact (hguard trivial).elim

/-- The machine after `fs_init` has refused a disk of zeros. -/
def Fs.unmounted : Fs := (fsInit .working (.booted fun _ => Bytes.zero)).2

theorem unmounted_untouched_create :
    Untouched .working .unmounted (.change (.create nameA)) ↔
      ∀ hash, Export.change (.create nameA) = .change (.writePasswd hash) →
        ¬PasswdWrites .working .unmounted :=
  unmounted_untouched .working .unmounted (.change (.create nameA)) (by decide +kernel)
    fun _ _ h => Export.noConfusion h

/-- With the zeros for a superblock, `fs_write_passwd` writes to sector 1. -/
theorem not_unmounted_untouched :
    Fs.unmounted.mounted = false ∧
      ¬Untouched .working .unmounted (.change (.writePasswd 1)) := by
  refine ⟨by decide +kernel, fun h => (untouched_writePasswd 1).mp h ?_⟩
  have hroot : (Fs.unmounted.inodes 0).direct0 = 0 := by decide +kernel
  rw [PasswdWrites, if_pos hroot]
  decide +kernel

end SevenOS
