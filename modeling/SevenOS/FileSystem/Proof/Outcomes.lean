import SevenOS.FileSystem.Proof.Format
import SevenOS.FileSystem.Session

/-! # Outcomes of a session

One statement about all the calls: what a successful one has done, what a
refused one has left, and that the volume stays sound either way.
-/

namespace SevenOS

open Prog

variable {dev : Device} {stray : InodeNo → Prop} {v v' : Volume} {s : Fs}

/-- A volume between two calls. -/
structure Sound (stray : InodeNo → Prop) (v : Volume) : Prop where
  inv : Inv stray v
  headed : Headed v

namespace Sound

theorem setData (h : Sound stray v) {b : UInt32} (hb : b.toNat < 32768) {x : Block}
    (hinv : Inv stray (v.setData b x)) : Sound stray (v.setData b x) :=
  ⟨hinv, h.headed.setData h.inv.layout hb x⟩

theorem flush (h : Sound stray v) : Sound stray v.flush :=
  ⟨h.inv.flush, (h.headed.flush h.inv.layout).toHeaded⟩

theorem create (h : Sound stray v) {d : InodeNo} {j : Slot} {name : CStr} {k : InodeNo}
    {ino : Inode} {content : Block} (hc : v.CanTake k ino)
    (he : v.CanEnter stray d j name ino.type) (hk0 : k ≠ 0)
    (hempty : ino.type = inodeDir → listing content = fun _ => none) :
    Sound stray (v.create d j name k ino content) := by
  refine ⟨h.inv.create hc he hk0 hempty, ?_⟩
  have hlayout := h.inv.layout
  have htake : Headed (v.take k ino) := ⟨h.headed.superblock, h.headed.magic, h.headed.blockSize⟩
  have hblock : ino.direct0.toNat < 32768 := Nat.lt_of_lt_of_le hc.blockLt h.inv.alloc.countLe
  have hfirst := htake.setData ⟨hlayout.1, hlayout.2, hlayout.3⟩ hblock content
  exact hfirst.setData ⟨hlayout.1, hlayout.2, hlayout.3⟩ (h.inv.alloc.blockBound he.dir.1.1) _

theorem rewrite (h : Sound stray v) {k : InodeNo} (hk : Live v.inodes k)
    (hfile : (v.inodes k).type = inodeFile) {size : UInt32} (hsize : size.toNat ≤ 512)
    (content : Block) : Sound stray (v.rewrite k size content) := by
  refine ⟨h.inv.rewrite hk hfile hsize content, ?_⟩
  have hlayout := h.inv.layout
  have hput : Headed (v.putInode k { v.inodes k with size := size }) :=
    ⟨h.headed.superblock, h.headed.magic, h.headed.blockSize⟩
  exact hput.setData ⟨hlayout.1, hlayout.2, hlayout.3⟩ (h.inv.alloc.blockBound hk) _

def Flushed (stray : InodeNo → Prop) (v' : Volume) : Prop :=
  ∃ v, Sound stray v ∧ v' = v.flush

theorem Flushed.sound (h : Flushed stray v) : Sound stray v := by
  obtain ⟨v₀, h, rfl⟩ := h
  exact h.flush

theorem Flushed.synced (h : Flushed stray v) : Synced (fun _ => False) v := by
  obtain ⟨v₀, h, rfl⟩ := h
  exact h.headed.flush h.inv.layout

theorem created (h : Sound stray v) {d : InodeNo} {name : CStr} {type : UInt8} {size : UInt32}
    {content : UInt32 → Block}
    (hempty : type = inodeDir → ∀ b, listing (content b) = fun _ => none)
    (hc : Created stray v d name type size content v') : Flushed stray v' := by
  obtain ⟨j, k, b, htake, henter, hk0, rfl⟩ := hc
  exact ⟨_, h.create htake henter hk0 fun ht => hempty ht b, rfl⟩

theorem stored (h : Sound stray v) {d : InodeNo} {name : CStr} {size : UInt32} {content : Block}
    (hd : Kept stray v.inodes d) (hsize : size.toNat ≤ 512)
    (hs : Stored stray v d name size content v') : Flushed stray v' := by
  rcases hs with hc | ⟨j, k, hit, rfl⟩
  · exact h.created (fun ht => absurd ht (by decide)) hc
  · exact ⟨_, h.rewrite (h.inv.named hd hit).2.1 hit.type hsize content, rfl⟩

theorem sysDir (h : Sound stray v) {k : InodeNo} (hs : SysDir stray v v' k) : Sound stray v' := by
  rcases hs with ⟨-, rfl⟩ | ⟨j, b, -, -, htake, henter, hk0, rfl⟩
  · exact h
  · exact h.create htake henter hk0 fun _ => listing_zero

theorem renamed (h : Sound stray v) {srcPath dstPath : CStr}
    (hr : Renamed v srcPath dstPath v') : Sound stray v' := by
  rcases hr with ⟨rfl, -⟩ | ⟨d, srcName, j, k, type, d', name, isDir, hparent, hentry, htarget, hself,
    hfits, habsent, hv'⟩
  · exact h
  · have hd := h.inv.parent_kept hparent
    have hd' := h.inv.renameTarget_kept htarget
    have hbound := h.inv.alloc.blockBound hd.1.1
    rcases hv' with ⟨rfl, rfl⟩ | ⟨hne, j', hfree, rfl⟩
    · refine h.setData hbound (h.inv.renameAt hd hentry.1.entry hfits ?_)
      rw [hentry.1.type]
      exact habsent
    · have henter : v.CanEnter stray d' j' name (v.inodes k).type :=
        ⟨hd', hfree, hfits, by rw [hentry.1.type]; exact habsent⟩
      have hinv := h.inv.move hd hne hentry.1.entry henter
      have hlayout := h.inv.layout
      refine ⟨hinv, ?_⟩
      exact (h.headed.setData hlayout hbound _).setData ⟨hlayout.1, hlayout.2, hlayout.3⟩
        (h.inv.alloc.blockBound hd'.1.1) _

theorem removedAt (h : Sound stray v) {path : CStr} {types : UInt8 → Prop}
    (hr : RemovedAt stray v path types v') : Flushed stray v' := by
  obtain ⟨d, name, j, k, type, v₁, hparent, -, hit, hrem, rfl⟩ := hr
  obtain ⟨ws, hw⟩ := h.inv.parent_walk hparent
  have hd := h.inv.parent_kept hparent
  obtain ⟨-, hk, hks⟩ := h.inv.named hd hit
  have hinv := h.inv.removed_below hw hd hit.entry hrem
  have hsb := hrem.sb
  refine ⟨v₁, ⟨hinv, ?_, by rw [hsb]; exact h.headed.magic,
    by rw [hsb]; exact h.headed.blockSize⟩, rfl⟩
  rw [hsb, hrem.disk fsSuperLba]
  · exact h.headed.superblock
  · exact (h.inv.layout.dataSector_ne (h.inv.alloc.blockBound hd.1.1) (by decide)).symm
  · intro i hi
    exact (h.inv.layout.dataSector_ne
      (h.inv.alloc.blockBound (h.inv.below_live hk hks hi).1) (by decide)).symm

end Sound

/-! ## All calls -/

/-- The bytes that `fs_write_passwd` stores. -/
def passwdBlock (hash : UInt32) : Block := Bytes.zero.paste 0 (hashBytes hash)

/-- A file of the `sys` directory, itself made if need be, gets a size and content. -/
def SysStored (stray : InodeNo → Prop) (v : Volume) (filename : CStr) (size : UInt32)
    (content : Block) (v' : Volume) : Prop :=
  ¬ SysLeaks v filename ∧ ∃ v₁ d, SysDir stray v v₁ d ∧ Stored stray v₁ d filename size content v'

/-- What a call has done when it returned true. -/
def Done (stray : InodeNo → Prop) (v : Volume) : Call → Volume → Prop
  | .mkdirPath path, v' => ∃ d name, v.Parent path d name ∧
      Created stray v d name inodeDir 0 (fun _ => Bytes.zero) v'
  | .create name, v' => Created stray v 0 name inodeFile 0 v.data v'
  | .writePath path data, v' => ∃ d name, v.Parent path d name ∧
      Stored stray v d name (dataLength data) (fileBlock data) v'
  | .copyPath srcPath dstPath, v' => ∃ k d name, v.FileAt srcPath k ∧
      v.CopyTarget srcPath dstPath d name ∧
      Stored stray v d name (v.inodes k).size (v.blockOf k) v'
  | .rename srcPath dstPath, v' => Renamed v srcPath dstPath v'
  | .removePath path, v' => RemovedAt stray v path (· = inodeFile) v'
  | .removePathRecursive path, v' => RemovedAt stray v path (fun _ => True) v'
  | .writePasswd hash, v' => SysStored stray v passwdName 4 (passwdBlock hash) v'

/-- What a call has left when it returned false. -/
def Left (stray : InodeNo → Prop) (v : Volume) : Call → Volume → Prop
  | .writePasswd _, v' => ¬ SysLeaks v passwdName ∧ v' = v ∨
      SysLeaks v passwdName ∧ SysLeft stray v v'
  | _, v' => v' = v

/-- No write of the call stores a name that does not fit. -/
def Call.Fits (v : Volume) : Call → Prop
  | .writePath path _ => ¬ Overflows v path
  | _ => True

theorem Call.run_spec (hp : dev.Perfect) (h : Inv stray s.toVolume) (call : Call)
    (hfit : call.Fits s.toVolume) :
    wp (call.run dev) (fun _ s' => Done stray s.toVolume call s'.toVolume)
      (fun s' => Left stray s.toVolume call s'.toVolume) (fun _ => False) s := by
  cases call with
  | mkdirPath path => exact fsMkdirPath_spec hp h path
  | create name => exact fsCreate_spec hp h name
  | writePath path data => exact fsWritePath_spec hp h path data hfit
  | copyPath srcPath dstPath => exact fsCopyPath_spec hp h srcPath dstPath
  | rename srcPath dstPath => exact fsRename_spec hp h srcPath dstPath
  | removePath path => exact fsRemovePath_spec hp h path
  | removePathRecursive path => exact fsRemovePathRecursive_spec hp h path
  | writePasswd hash =>
      exact writeSysFile_spec hp h (by decide) (by decide)
        (show (hashBytes hash).length ≤ 512 by change 4 ≤ 512; decide)

theorem Call.Ordinary.fits {call : Call} (h : call.Ordinary) (v : Volume) : call.Fits v := by
  cases call with
  | writePath path data =>
      rintro ⟨dirname, rest, i, d, hsplit, hlong, -⟩
      rcases (h path (by simp [Call.paths])).split with ⟨hnone, -⟩ | ⟨d', n', hsome, -, hn, -⟩
      · rw [hnone] at hsplit
        cases hsplit
      · rw [hsome] at hsplit
        cases hsplit
        have := hn.2.1
        omega
  | _ => trivial

theorem SysStored.flushed (h : Sound stray v) {filename : CStr} {size : UInt32} {content : Block}
    (hsize : size.toNat ≤ 512) (hst : SysStored stray v filename size content v') :
    Sound.Flushed stray v' := by
  obtain ⟨-, v₁, d, hs, hst⟩ := hst
  exact (h.sysDir hs).stored (hs.inv h.inv).2 hsize hst

theorem Sound.done_flushed (h : Sound stray v) {call : Call} (hd : Done stray v call v')
    (hne : ∀ srcPath dstPath, call ≠ .rename srcPath dstPath) : Sound.Flushed stray v' := by
  cases call with
  | mkdirPath path =>
      obtain ⟨d, name, -, hc⟩ := hd
      exact h.created (fun _ _ => listing_zero) hc
  | create name => exact h.created (fun ht => absurd ht (by decide)) hd
  | writePath path data =>
      obtain ⟨d, name, hparent, hst⟩ := hd
      exact h.stored (h.inv.parent_kept hparent) (dataLength_le data) hst
  | copyPath srcPath dstPath =>
      obtain ⟨k, d, name, ⟨_, _, _, _, hsrc⟩, htarget, hst⟩ := hd
      exact h.stored (h.inv.copyTarget_kept htarget) (h.inv.alloc.sizeLe k hsrc.used) hst
  | rename srcPath dstPath => exact (hne srcPath dstPath rfl).elim
  | removePath path => exact h.removedAt hd
  | removePathRecursive path => exact h.removedAt hd
  | writePasswd hash => exact SysStored.flushed h (by decide) hd

theorem Sound.done (h : Sound stray v) {call : Call} (hd : Done stray v call v') :
    Sound stray v' := by
  by_cases hr : ∃ srcPath dstPath, call = .rename srcPath dstPath
  · obtain ⟨srcPath, dstPath, rfl⟩ := hr
    exact h.renamed hd
  · exact (h.done_flushed hd fun srcPath dstPath heq => hr ⟨srcPath, dstPath, heq⟩).sound

theorem Sound.sysLeft (h : Sound stray v) (hl : SysLeft stray v v') :
    ∃ stray', (∀ i, stray i → stray' i) ∧ Sound stray' v' := by
  rcases hl with ⟨k, ino, hc, -, -, -, -, rfl⟩ | ⟨k, -, hs⟩
  · exact ⟨_, fun i hi => .inl hi, h.inv.take hc, h.headed.superblock, h.headed.magic,
      h.headed.blockSize⟩
  · exact ⟨stray, fun _ hi => hi, h.sysDir hs⟩

theorem Sound.left (h : Sound stray v) {call : Call} (hl : Left stray v call v') :
    ∃ stray', (∀ i, stray i → stray' i) ∧ Sound stray' v' := by
  have same : v' = v → ∃ stray', (∀ i, stray i → stray' i) ∧ Sound stray' v' := by
    rintro rfl
    exact ⟨stray, fun _ hi => hi, h⟩
  cases call with
  | writePasswd hash =>
      rcases hl with ⟨-, hv⟩ | ⟨-, hleft⟩
      · exact same hv
      · exact h.sysLeft hleft
  | _ => exact same hl

/-! ## Mounted volumes stay mounted -/

theorem Created.mounted {d : InodeNo} {name : CStr} {type : UInt8} {size : UInt32}
    {content : UInt32 → Block} (h : Created stray v d name type size content v') :
    v'.mounted = v.mounted := by
  obtain ⟨j, k, b, -, -, -, rfl⟩ := h
  rfl

theorem Stored.mounted {d : InodeNo} {name : CStr} {size : UInt32} {content : Block}
    (h : Stored stray v d name size content v') : v'.mounted = v.mounted := by
  rcases h with h | ⟨j, k, -, rfl⟩
  · exact h.mounted
  · rfl

theorem SysDir.mounted {k : InodeNo} (h : SysDir stray v v' k) : v'.mounted = v.mounted := by
  rcases h with ⟨-, rfl⟩ | ⟨j, b, -, -, -, -, -, rfl⟩ <;> rfl

theorem RemovedAt.mounted {path : CStr} {types : UInt8 → Prop}
    (h : RemovedAt stray v path types v') : v'.mounted = v.mounted := by
  obtain ⟨d, name, j, k, type, v₁, -, -, -, hrem, rfl⟩ := h
  exact hrem.mounted

theorem Done.mounted {call : Call} (h : Done stray v call v') : v'.mounted = v.mounted := by
  cases call with
  | mkdirPath path =>
      obtain ⟨d, name, -, hc⟩ := h
      exact hc.mounted
  | create name => exact Created.mounted h
  | writePath path data =>
      obtain ⟨d, name, -, hst⟩ := h
      exact hst.mounted
  | copyPath srcPath dstPath =>
      obtain ⟨k, d, name, -, -, hst⟩ := h
      exact hst.mounted
  | rename srcPath dstPath =>
      rcases h with ⟨rfl, -⟩ | ⟨d, srcName, j, k, type, d', name, isDir, -, -, -, -, -, -,
        ⟨-, rfl⟩ | ⟨-, j', -, rfl⟩⟩ <;> rfl
  | removePath path => exact RemovedAt.mounted h
  | removePathRecursive path => exact RemovedAt.mounted h
  | writePasswd hash =>
      obtain ⟨-, v₁, d, hs, hst⟩ := h
      exact hst.mounted.trans hs.mounted

theorem Left.mounted {call : Call} (h : Left stray v call v') : v'.mounted = v.mounted := by
  cases call with
  | writePasswd hash =>
      rcases h with ⟨-, rfl⟩ | ⟨-, ⟨k, ino, -, -, -, -, -, rfl⟩ | ⟨k, -, hs⟩⟩
      · rfl
      · rfl
      · exact hs.mounted
  | _ => exact congrArg Volume.mounted h

/-! ## The first state -/

/-- A mounted one. -/
structure Ready (stray : InodeNo → Prop) (v : Volume) : Prop extends Sound stray v where
  mounted : v.mounted = true

theorem formatRoot_spec (hp : dev.Perfect) {root : Inode} (hlayout : s.toVolume.Layout)
    (hcount : 1 ≤ s.sb.blockCount.toNat ∧ s.sb.blockCount.toNat ≤ 32768)
    (hbitmap : s.bitmap = Bytes.zero) (htab : s.inodes = assign (fun _ => Inode.zero) 0 root)
    (hused : root.used ≠ 0) (htype : root.type = inodeDir) (hsize : root.size = 0)
    (hblock : root.direct0 = 0) :
    wp (ensureRootDirBlock dev)
      (fun _ s' => Inv (fun _ => False) s'.toVolume ∧ s'.sb = s.sb ∧ ∀ i, Live s'.inodes i → i = 0)
      (fun _ => True) (fun _ => False) s := by
  have hroot : s.inodes 0 = root := by rw [htab, assign_same]
  simp only [ensureRootDirBlock, wp_bind, wp_get]
  rw [if_neg (by rw [hroot, hblock]; simp)]
  simp only [wp_bind, wp_demand, wp_markBlockUsed, wp_modifyInode, wp_get, hp.wp_write,
    hp.wp_flushTables]
  refine ⟨fun b hb => ?_, fun _ => trivial⟩
  obtain ⟨hpos, hlt, -⟩ := allocBlockRaw_free hb
  have hlimit : blockLimit s.sb = s.sb.blockCount :=
    (allocated_empty hcount.1 hcount.2).blockLimit_eq
  rw [hlimit] at hlt
  have hb32 : b.toNat < 32768 := Nat.lt_of_lt_of_le hlt hcount.2
  refine ⟨@inv_root _ _ b rfl ?_ hcount { root with direct0 := b } ?_ ?_ hused htype ?_ rfl hpos
    hlt ?_, rfl, fun i hi => ?_⟩
  · exact ⟨hlayout.1, hlayout.2, hlayout.3⟩
  · simp [hbitmap]
  · simp [htab, assign_assign]
  · simp [hsize]
  · rw [Fs.toVolume_setVolume, Volume.Layout.data_flush _ hb32]
    · simp [Volume.sectorOf_eq, Volume.data, Volume.setSector, Volume.dataSector]
    · exact ⟨hlayout.1, hlayout.2, hlayout.3⟩
  · by_contra hne
    simp [Live, htab, hne, Inode.zero] at hi

theorem Inv.setSuperblock (h : Inv stray v) (b : Block) :
    Inv stray (v.setSector fsSuperLba b) := by
  refine ⟨⟨h.layout.1, h.layout.2, h.layout.3⟩, h.alloc, ?_⟩
  refine h.linked.congr (fun _ => Iff.rfl) (fun _ _ => rfl) fun d hd => ?_
  have hne : v.sectorOf d ≠ fsSuperLba :=
    h.layout.dataSector_ne (h.alloc.blockBound hd.1.1) (by decide)
  exact congrArg listing (assign_of_ne _ _ hne)

/-- `fs_format` makes a root and then the two files of the `sys` directory. -/
theorem fsFormat_spec (hp : dev.Perfect) (totalBlocks inodeCount : UInt32) :
    wp (fsFormat dev totalBlocks inodeCount)
      (fun _ s' => ∃ v₀ v₁ v₂, Sound (fun _ => False) v₀ ∧
        v₀.disk fsSuperLba = v₀.sb.encode (pastFormatted dev totalBlocks inodeCount s) ∧
        (∀ i, Live v₀.inodes i → i = 0) ∧
        SysStored (fun _ => False) v₀ statusName 1 (Bytes.zero.paste 0 [0xFF]) v₁ ∧
        SysStored (fun _ => False) v₁ passwdName 4 (passwdBlock (fnv1a32 defaultPassword)) v₂ ∧
        s'.toVolume = { v₂ with mounted := true })
      (fun _ => True) (fun _ => False) s := by
  have hcount := formatBlocks_bounds dev totalBlocks
  have hroot := formatRoot_spec (s := s.cleared dev totalBlocks inodeCount) hp ⟨rfl, rfl, rfl⟩
    hcount rfl rfl (by decide) rfl rfl rfl
  rw [fsFormat, wp_bind, wp_modify, wp_bind, wp_modifyInode]
  refine wp_call (m := ensureRootDirBlock dev) (wp_reached hroot) ?_ (fun _ h => h.2)
    (fun _ h => h.2)
  rintro - s₁ ⟨hs₁, hinv, hsb, halone⟩
  -- the superblock and the tables of the empty volume are written
  have hfirst : Sound (fun _ => False)
      (s₁.toVolume.setSector fsSuperLba (s₁.sb.encode (dev.pastSb s₁))).flush := by
    refine Sound.flush ⟨hinv.setSuperblock _, ?_, ?_, ?_⟩
    · simp only [Volume.setSector, assign_same, Superblock.decode_encode]
    · rw [Volume.sb_setSector, hsb]
      rfl
    · rw [Volume.sb_setSector, hsb]
      rfl
  simp only [writeSuperblock, flushBitmap, flushInodes, wp_bind, wp_get, hp.wp_write,
    hp.wp_writeSectors, writeStatusFlag]
  refine wp_mono (writeSysFile_spec hp (show Inv (fun _ => False) _ from ?_) (by decide)
    (by decide) (by decide)) ?_ (fun _ _ => trivial) (fun _ h => h)
  · exact hfirst.inv
  intro _ s₂ hstatus
  have hsound : Sound (fun _ => False) s₂.toVolume :=
    (SysStored.flushed hfirst (show (1 : UInt32).toNat ≤ 512 by decide) hstatus).sound
  refine wp_mono (writeSysFile_spec hp hsound.inv (by decide) (by decide)
    (by change 4 ≤ 512; decide)) ?_ (fun _ _ => trivial) (fun _ h => h)
  intro _ s₃ hpasswd
  have hpast : pastFormatted dev totalBlocks inodeCount s = dev.pastSb s₁ :=
    congrArg dev.pastSb hs₁.symm
  refine ⟨_, s₂.toVolume, s₃.toVolume, hfirst, ?_, halone, hstatus, hpasswd, rfl⟩
  rw [hpast, (hinv.setSuperblock _).layout.disk_flush]
  change assign s₁.disk fsSuperLba _ fsSuperLba = _
  rw [assign_same]
  rfl

/-- Setting the flag changes nothing that is looked at on the disk. -/
theorem Sound.mount (h : Sound stray v) : Ready stray { v with mounted := true } :=
  ⟨⟨⟨⟨h.inv.layout.1, h.inv.layout.2, h.inv.layout.3⟩, h.inv.alloc, h.inv.linked⟩,
    h.headed.superblock, h.headed.magic, h.headed.blockSize⟩, rfl⟩

theorem fsFormat_steps {totalBlocks inodeCount : UInt32} {s' : Fs} (hp : dev.Perfect)
    (hrun : fsFormat dev totalBlocks inodeCount s = (.ok (), s')) :
    ∃ v₀ v₁ v₂, Sound (fun _ => False) v₀ ∧
      v₀.disk fsSuperLba = v₀.sb.encode (pastFormatted dev totalBlocks inodeCount s) ∧
      (∀ i, Live v₀.inodes i → i = 0) ∧
      SysStored (fun _ => False) v₀ statusName 1 (Bytes.zero.paste 0 [0xFF]) v₁ ∧
      SysStored (fun _ => False) v₁ passwdName 4 (passwdBlock (fnv1a32 defaultPassword)) v₂ ∧
      s'.toVolume = { v₂ with mounted := true } := by
  rcases wp_run (fsFormat_spec hp totalBlocks inodeCount) hrun with ⟨_, -, h⟩ | ⟨ho, -⟩ | ⟨ho, -⟩
  · exact h
  · cases ho
  · cases ho

theorem fsFormat_ready {totalBlocks inodeCount : UInt32} {s' : Fs} (hp : dev.Perfect)
    (hrun : fsFormat dev totalBlocks inodeCount s = (.ok (), s')) :
    Ready (fun _ => False) s'.toVolume ∧ Synced (fun _ => False) s'.toVolume := by
  obtain ⟨v₀, v₁, v₂, h₀, -, -, hstatus, hpasswd, hv⟩ := fsFormat_steps hp hrun
  have h₁ := (SysStored.flushed h₀ (by decide) hstatus).sound
  have hlast := SysStored.flushed h₁ (by decide) hpasswd
  have hsync := hlast.synced
  rw [hv]
  exact ⟨hlast.sound.mount, ⟨hsync.superblock, hsync.magic, hsync.blockSize⟩, hsync.inodes,
    hsync.zeroed, hsync.bits⟩

/-! ## Every state of a session -/

theorem Call.run_cases (hp : dev.Perfect) (h : Inv stray s.toVolume) {call : Call}
    (hfit : call.Fits s.toVolume) {o : Outcome Unit} {s' : Fs} (hrun : call.run dev s = (o, s')) :
    o = .ok () ∧ Done stray s.toVolume call s'.toVolume ∨
      o = .refused ∧ Left stray s.toVolume call s'.toVolume := by
  rcases wp_run (call.run_spec hp h hfit) hrun with ⟨_, ho, hdone⟩ | ⟨ho, hleft⟩ | ⟨-, hfalse⟩
  · exact .inl ⟨ho, hdone⟩
  · exact .inr ⟨ho, hleft⟩
  · exact hfalse.elim

theorem Session.ready {allow : Fs → Call → Outcome Unit → Prop} (hp : dev.Perfect)
    (hfit : ∀ s call o, allow s call o → call.Fits s.toVolume) (h : Session dev allow s) :
    ∃ stray, Ready stray s.toVolume := by
  induction h with
  | format _ _ hrun => exact ⟨_, (fsFormat_ready hp hrun).1⟩
  | call _ hallow hrun ih =>
      obtain ⟨stray, hready⟩ := ih
      rcases Call.run_cases hp hready.inv (hfit _ _ _ hallow) hrun with ⟨-, hdone⟩ | ⟨-, hleft⟩
      · exact ⟨stray, hready.done hdone, hdone.mounted.trans hready.mounted⟩
      · obtain ⟨stray', -, hsound⟩ := hready.left hleft
        exact ⟨stray', hsound, hleft.mounted.trans hready.mounted⟩

end SevenOS
