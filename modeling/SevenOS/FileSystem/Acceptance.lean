import SevenOS.FileSystem.RenameFaults

/-! # What is accepted

When each call returns true, told by the volume that it finds. The checks stand in
another order in every routine, and some are made twice; what they come to is that
the path leads to a directory, and that what is asked for is there or that there is
a slot, an inode and a block for it.
-/

namespace SevenOS

open Prog

variable {dev : Device} {stray : InodeNo → Prop} {v : Volume} {s : Fs}

/-- A name that every routine but one insists on before it stores it. -/
def NameStands (name : CStr) : Prop := name ≠ CStr.empty ∧ name.length < 30

/-- Directory `d` has no entry of this name and type, and there is room for one. -/
structure Volume.HasRoom (v : Volume) (d : InodeNo) (name : CStr) (type : UInt8) : Prop where
  absent : ∀ i k, ¬ Hit (v.dirAt d) v.inodes name type i k
  slot : ∃ j, v.dirAt d j = none
  alloc : CanAlloc v

/-- The file of this name is there, or there is room for it. -/
def Volume.CanStore (v : Volume) (d : InodeNo) (name : CStr) : Prop :=
  (∃ j k, Hit (v.dirAt d) v.inodes name inodeFile j k) ∨ v.HasRoom d name inodeFile

/-- Where the entry would go it is already, or its name is free there and, in another
directory, there is a slot. -/
def Volume.CanRename (v : Volume) (srcPath dstPath : CStr) : Prop :=
  ∃ d srcName j k type d' name isDir, v.Parent srcPath d srcName ∧
    v.RenameEntry d srcName j k type ∧ v.RenameTarget srcName dstPath d' name isDir ∧
    NameStands name ∧
    (isDir = true ∧ type = inodeDir ∧ d' = k ∨ d' = d ∧ name = srcName ∨
      (∀ i k', ¬ Hit (v.dirAt d') v.inodes name type i k') ∧
        (d' = d ∨ ∃ j', v.dirAt d' j' = none))

/-- The file can be stored in the `sys` directory, which is there or can be made with an inode
and a block to spare. -/
def Volume.CanStoreSys (v : Volume) (filename : CStr) : Prop :=
  (∃ i d, Hit (v.dirAt 0) v.inodes sysName inodeDir i d ∧ v.CanStore d filename) ∨
    v.HasRoom 0 sysName inodeDir ∧ ¬ LastAlloc v

/-- The volumes on which a call returns true. -/
def Accepts (v : Volume) : Call → Prop
  | .mkdirPath path => ∃ d name, v.Parent path d name ∧ NameStands name ∧
      ((splitPath path).isSome → slash ∉ name.chars) ∧ v.HasRoom d name inodeDir
  | .create name => NameStands name ∧ v.HasRoom 0 name inodeFile
  | .writePath path _ => ∃ d name, v.Parent path d name ∧ name ≠ CStr.empty ∧
      (splitPath path = none → name.length < 30) ∧ v.CanStore d name
  | .copyPath srcPath dstPath => ∃ k d name, v.FileAt srcPath k ∧
      v.CopyTarget srcPath dstPath d name ∧ NameStands name ∧ v.CanStore d name
  | .rename srcPath dstPath => v.CanRename srcPath dstPath
  | .removePath path => ∃ k, v.FileAt path k
  | .removePathRecursive path => ∃ d j k, v.RemoveAt path d j k
  | .writePasswd _ => v.CanStoreSys passwdName

/-! ## What the scans and allocators say -/

theorem findFreeInode_none (hm : v.mounted = true) :
    findFreeInode v = none ↔ ∀ i, ¬ FreeInode v i := by
  rw [findFreeInode, if_pos hm]
  exact allocInodeRaw_none

theorem findFreeBlock_none (hm : v.mounted = true) :
    findFreeBlock v = none ↔ ∀ b, ¬ FreeBlock v b := by
  rw [findFreeBlock, if_pos hm]
  exact allocBlockRaw_none

theorem not_canAlloc_of_inode (h : ∀ i, ¬ FreeInode v i) : ¬ CanAlloc v := by
  rintro ⟨⟨i, hi⟩, -⟩
  exact h i hi

theorem not_canAlloc_of_block (h : ∀ b, ¬ FreeBlock v b) : ¬ CanAlloc v := by
  rintro ⟨-, b, hb⟩
  exact h b hb

/-- In a directory that is looked after a scan finds the entry or tells the first free slot,
whichever numbers it shies at. -/
theorem Inv.scan_tells (h : Inv stray v) {d : InodeNo} (hd : Kept stray v.inodes d)
    {bad : UInt8 → Bool} (hbad : ∀ k, bad (inodeByte k) = false) (name : CStr) (type : UInt8) :
    (∃ j k, scanEntries bad name type (v.blockOf d) v.inodes = .found j k ∧
        Hit (v.dirAt d) v.inodes name type j k) ∨
      scanEntries bad name type (v.blockOf d) v.inodes = .absent (firstFreeSlot (v.blockOf d)) ∧
        ∀ j k, ¬ Hit (v.dirAt d) v.inodes name type j k := by
  cases hscan : scanEntries bad name type (v.blockOf d) v.inodes with
  | bad =>
      obtain ⟨i, n, he, hn⟩ := scan_bad hscan
      obtain ⟨k, rfl, -⟩ := h.linked.names d i name n hd he
      rw [hbad k] at hn
      cases hn
  | found j k => exact .inl ⟨j, k, rfl, (scan_found hscan).1⟩
  | absent free =>
      obtain ⟨hmiss, rfl⟩ := scan_absent hscan
      exact .inr ⟨rfl, fun j k => hmiss j k (hbad k)⟩

theorem Volume.CanStore.room {d : InodeNo} {name : CStr} (h : v.CanStore d name)
    (hmiss : ∀ j k, ¬ Hit (v.dirAt d) v.inodes name inodeFile j k) :
    v.HasRoom d name inodeFile := by
  rcases h with ⟨j, k, hit⟩ | hroom
  · exact (hmiss j k hit).elim
  · exact hroom

/-! ## Creating -/

theorem prepareEntry_decides (hp : dev.Perfect) (h : Ready stray s.toVolume) (name : CStr)
    (type : UInt8) :
    Decides (NameStands name ∧ s.toVolume.HasRoom 0 name type) (prepareEntry dev name type) s := by
  have hinv := h.inv
  simp only [Decides, prepareEntry, wp_bind, wp_get, wp_require, hinv.wp_ensureRootDirBlock,
    wp_demand, hp.wp_read, Volume.disk_sectorOf]
  refine ⟨fun _ => ⟨fun hname => ⟨fun hlen => ⟨fun k hk => ⟨fun b hb => ?_, fun hb ha => ?_⟩,
    fun hk ha => ?_⟩, fun hno ha => hno ha.1.2⟩, fun hno ha => hno ha.1.1⟩,
    fun hno => (hno h.mounted).elim⟩
  · have halloc : CanAlloc s.toVolume := ⟨⟨k, allocInodeRaw_free (findFreeInode_some hk)⟩,
      b.toNat, allocBlockRaw_free (findFreeBlock_some hb)⟩
    rcases hinv.scan_tells hinv.linked.root outOfTable_inodeByte name type with
      ⟨j, k', hscan, hit⟩ | ⟨hscan, hmiss⟩
    · rw [hscan]
      exact fun ha => ha.2.absent j k' hit
    · rw [hscan]
      simp only [wp_bind, wp_demand, wp_pure]
      exact ⟨fun j hj => ⟨⟨hname, hlen⟩, hmiss, ⟨j, firstFreeSlot_some hj⟩, halloc⟩,
        fun hfull ha => ha.2.slot.elim fun j hj => firstFreeSlot_none hfull j hj⟩
  · exact not_canAlloc_of_block ((findFreeBlock_none h.mounted).mp hb) ha.2.alloc
  · exact not_canAlloc_of_inode ((findFreeInode_none h.mounted).mp hk) ha.2.alloc

theorem fsMkdir_decides (hp : dev.Perfect) (h : Ready stray s.toVolume) (name : CStr) :
    Decides (NameStands name ∧ s.toVolume.HasRoom 0 name inodeDir) (fsMkdir dev name) s := by
  refine .call (prepareEntry_decides hp h name inodeDir) (fun _ hno => hno) ?_
  rintro ⟨k, b, dirBlock, j⟩ s₁ ha
  simpa only [Decides, wp_bind, wp_markBlockUsed, wp_modifyInode, wp_get, hp.wp_write,
    hp.wp_flushTables] using ha

theorem fsCreate_decides (hp : dev.Perfect) (h : Ready stray s.toVolume) (name : CStr) :
    Decides (NameStands name ∧ s.toVolume.HasRoom 0 name inodeFile) (fsCreate dev name) s := by
  refine .call (prepareEntry_decides hp h name inodeFile) (fun _ hno => hno) ?_
  rintro ⟨k, b, dirBlock, j⟩ s₁ ha
  simpa only [Decides, wp_bind, wp_markBlockUsed, wp_modifyInode, wp_get, hp.wp_write,
    hp.wp_flushTables] using ha

/-- What is asked of the directory and the name that a path leads to. -/
theorem Inv.exists_parent (h : Inv stray v) {path name : CStr} {d : InodeNo}
    (hparent : v.Parent path d name) {A : InodeNo → CStr → Prop} :
    (∃ d name, v.Parent path d name ∧ A d name) ↔ A d name := by
  refine ⟨?_, fun ha => ⟨d, name, hparent, ha⟩⟩
  rintro ⟨d', name', hparent', ha⟩
  obtain ⟨rfl, rfl⟩ := h.parent_det hparent hparent'
  exact ha

/-- No path goes through a directory that the root does not list. -/
theorem not_parent_of_miss {path dirname rest name : CStr} {d : InodeNo}
    (hsplit : splitPath path = some (dirname, rest))
    (hmiss : ∀ i d, ¬ Hit (v.dirAt 0) v.inodes dirname inodeDir i d) : ¬ v.Parent path d name := by
  intro hparent
  rw [Volume.Parent, hsplit] at hparent
  obtain ⟨⟨i, hit⟩, -⟩ := hparent
  exact hmiss i d hit

theorem Volume.Parent.rest {path dirname rest name : CStr} {d : InodeNo}
    (h : v.Parent path d name) (hsplit : splitPath path = some (dirname, rest)) : name = rest := by
  rw [Volume.Parent, hsplit] at h
  exact h.2

theorem fsMkdirPath_decides (hp : dev.Perfect) (h : Ready stray s.toVolume) (path : CStr) :
    Decides (Accepts s.toVolume (.mkdirPath path)) (fsMkdirPath dev path) s := by
  have hinv := h.inv
  simp only [Decides, fsMkdirPath, wp_bind, wp_get, wp_require]
  refine ⟨fun _ => ⟨fun _ => ?_, fun hempty => ?_⟩, fun hno => (hno h.mounted).elim⟩
  · cases hsplit : splitPath path with
    | none =>
        refine (fsMkdir_decides hp h path).congr ?_
        rw [Accepts, hinv.exists_parent (.ofRoot hsplit), hsplit]
        simp
    | some parts =>
        obtain ⟨parentName, newdir⟩ := parts
        simp only [wp_bind, wp_require, hinv.wp_ensureRootDirBlock, wp_get, hp.wp_loadScratch]
        refine ⟨fun hne => ⟨fun hslash => ⟨fun hlen => ?_, ?_⟩, ?_⟩, ?_⟩
        · refine wp_lookupDir rfl (fun i d hit => ?_) fun hmiss => ?_
          · have hd := hinv.keptDir hinv.linked.root hit
            have hparent : s.toVolume.Parent path d newdir := .ofDir hsplit hit
            simp only [hp.wp_loadScratch2]
            refine ⟨fun _ => ?_, fun hno => (hno (hinv.direct0_ne hd.1.1)).elim⟩
            rw [Accepts, hinv.exists_parent hparent]
            simp only [Fs.toVolume_noted, Fs.toVolume_setScratch, Fs.toVolume_setScratch2,
              Fs.scratch2_setScratch2, Volume.disk_sectorOf]
            rcases @Inv.scan_tells _ _ hinv _ hd neverBad (fun _ => rfl) newdir inodeDir with
              ⟨j, k, hscan, hdir⟩ | ⟨hscan, hmiss⟩
            · rw [hscan]
              exact fun ha => ha.2.2.absent j k hdir
            · rw [hscan]
              simp only [wp_bind, wp_demand, wp_markBlockUsed, wp_modifyInode, wp_get, hp.wp_write,
                wp_setScratch2, hp.wp_flushTables]
              refine ⟨fun j hj => ⟨fun k hk => ⟨fun b hb => ?_, fun hb ha => ?_⟩, fun hk ha => ?_⟩,
                fun hfull ha => ?_⟩
              · exact ⟨⟨hne, hlen⟩, fun _ => hslash, hmiss, ⟨j, firstFreeSlot_some hj⟩,
                  ⟨k, allocInodeRaw_free hk⟩, b.toNat, allocBlockRaw_free hb⟩
              · exact not_canAlloc_of_block (allocBlockRaw_none.mp hb) ha.2.2.alloc
              · exact not_canAlloc_of_inode (allocInodeRaw_none.mp hk) ha.2.2.alloc
              · exact ha.2.2.slot.elim fun j hj => firstFreeSlot_none hfull j hj
          · rintro ⟨d, name, hparent, -⟩
            exact not_parent_of_miss hsplit hmiss hparent
        · rintro hlong ⟨d, name, hparent, hstands, -⟩
          exact hlong (hparent.rest hsplit ▸ hstands.2)
        · rintro hslash ⟨d, name, hparent, -, hplain, -⟩
          refine hslash (hparent.rest hsplit ▸ hplain ?_)
          rw [hsplit]
          rfl
        · rintro hempty ⟨d, name, hparent, hstands, -⟩
          exact hempty (hparent.rest hsplit ▸ hstands.1)
  · obtain rfl := Decidable.not_not.mp hempty
    rintro ⟨d, name, hparent, hstands, -⟩
    exact hstands.1 hparent.2

/-! ## Writing -/

/-- It is refused without a slot, and without an inode or a block. -/
theorem wp_claimFile_room {s₁ : Fs} (hv : s₁.toVolume = v) (hm : v.mounted = true)
    {free : Option Slot} {Q : Slot × InodeNo → Fs → Prop} {R D : Fs → Prop}
    (hit : ∀ j k s', free = some j → CanAlloc v → Q (j, k) s')
    (miss : free = none ∨ ¬ CanAlloc v → R s₁) : wp (claimFile free) Q R D s₁ := by
  subst hv
  simp only [claimFile, wp_bind, wp_demand, wp_get, wp_markBlockUsed, wp_modifyInode, wp_pure]
  refine ⟨fun j hj => ⟨fun k hk => ⟨fun b hb => hit j k _ hj ?_, fun hb => miss (.inr ?_)⟩,
    fun hk => miss (.inr ?_)⟩, fun hnone => miss (.inl hnone)⟩
  · exact ⟨⟨k, allocInodeRaw_free (findFreeInode_some hk)⟩, b.toNat,
      allocBlockRaw_free (findFreeBlock_some hb)⟩
  · exact not_canAlloc_of_block ((findFreeBlock_none hm).mp hb)
  · exact not_canAlloc_of_inode ((findFreeInode_none hm).mp hk)

theorem Volume.HasRoom.free {d : InodeNo} {name : CStr} {type : UInt8}
    (h : v.HasRoom d name type) : firstFreeSlot (v.blockOf d) ≠ none := by
  intro hfull
  obtain ⟨j, hj⟩ := h.slot
  exact firstFreeSlot_none hfull j hj

theorem fsWrite_decides (hp : dev.Perfect) (h : Ready stray s.toVolume) (name data : CStr) :
    Decides (NameStands name ∧ s.toVolume.CanStore 0 name) (fsWrite dev name data) s := by
  have hinv := h.inv
  simp only [Decides, fsWrite, wp_bind, wp_get, wp_require, hinv.wp_ensureRootDirBlock, hp.wp_read,
    Volume.disk_sectorOf]
  refine ⟨fun _ => ⟨fun hname => ⟨fun hlen => ?_, fun hno ha => hno ha.1.2⟩,
    fun hno ha => hno ha.1.1⟩, fun hno => (hno h.mounted).elim⟩
  rcases hinv.scan_tells hinv.linked.root outOfTable_inodeByte name inodeFile with
    ⟨j, k, hscan, hit⟩ | ⟨hscan, hmiss⟩
  · rw [hscan]
    simp only [wp_pure, wp_bind, wp_modifyInode, wp_get, hp.wp_write, hp.wp_flushTables]
    exact ⟨⟨hname, hlen⟩, .inl ⟨j, k, hit⟩⟩
  · rw [hscan]
    simp only [wp_bind]
    refine wp_claimFile_room (by rfl) h.mounted (fun j k s' hj halloc => ?_) fun hno => ?_
    · simp only [wp_pure, wp_modifyInode, wp_get, hp.wp_write, hp.wp_flushTables]
      exact ⟨⟨hname, hlen⟩, .inr ⟨hmiss, ⟨j, firstFreeSlot_some hj⟩, halloc⟩⟩
    · intro ha
      have hroom := ha.2.room hmiss
      exact hno.elim hroom.free fun hfull => hfull hroom.alloc

theorem fsWritePath_decides (hp : dev.Perfect) (h : Ready stray s.toVolume) (path data : CStr) :
    Decides (Accepts s.toVolume (.writePath path data)) (fsWritePath dev path data) s := by
  have hinv := h.inv
  simp only [Decides, fsWritePath, wp_bind, wp_get, wp_require]
  refine ⟨fun _ => ⟨fun _ => ?_, fun hempty => ?_⟩, fun hno => (hno h.mounted).elim⟩
  · cases hsplit : splitPath path with
    | none =>
        refine (fsWrite_decides hp h path data).congr ?_
        rw [Accepts, hinv.exists_parent (.ofRoot hsplit), hsplit]
        simp [NameStands, and_assoc]
    | some parts =>
        obtain ⟨dirname, filename⟩ := parts
        simp only [wp_bind, wp_require, wp_get, hp.wp_loadScratch]
        refine ⟨fun hname => ⟨fun _ => ?_, fun hno => (hno hinv.rootReadable).elim⟩,
          fun hempty => ?_⟩
        · refine wp_lookupDir rfl (fun i d hit => ?_) fun hmiss => ?_
          · have hd := hinv.keptDir hinv.linked.root hit
            have hparent : s.toVolume.Parent path d filename := .ofDir hsplit hit
            simp only [hp.wp_loadScratch2]
            refine ⟨fun _ => ?_, fun hno => (hno (hinv.direct0_ne hd.1.1)).elim⟩
            rw [Accepts, hinv.exists_parent hparent, hsplit]
            simp only [Fs.toVolume_noted, Fs.toVolume_setScratch, Fs.toVolume_setScratch2,
              Fs.scratch2_setScratch2, Volume.disk_sectorOf]
            rcases hinv.scan_tells hd outOfTable_inodeByte filename inodeFile with
              ⟨j, k, hscan, hit⟩ | ⟨hscan, hmiss⟩
            · rw [hscan]
              simp only [wp_pure, wp_bind, wp_modifyInode, wp_get, hp.wp_write, hp.wp_flushTables]
              exact ⟨hname, fun hno => (Option.some_ne_none _ hno).elim, .inl ⟨j, k, hit⟩⟩
            · rw [hscan]
              simp only [wp_bind]
              refine wp_claimFile_room (by rfl) h.mounted (fun j k s' hj halloc => ?_) fun hno => ?_
              · simp only [wp_pure, wp_modifyInode, wp_get, wp_setScratch2, hp.wp_write,
                  hp.wp_flushTables]
                exact ⟨hname, fun hno => (Option.some_ne_none _ hno).elim,
                  .inr ⟨hmiss, ⟨j, firstFreeSlot_some hj⟩, halloc⟩⟩
              · intro ha
                have hroom := ha.2.2.room hmiss
                exact hno.elim hroom.free fun hfull => hfull hroom.alloc
          · rintro ⟨d, name, hparent, -⟩
            exact not_parent_of_miss hsplit hmiss hparent
        · rintro ⟨d, name, hparent, hname, -⟩
          exact hempty (hparent.rest hsplit ▸ hname)
  · obtain rfl := Decidable.not_not.mp hempty
    rintro ⟨d, name, hparent, hname, -⟩
    exact hname hparent.2

/-! ## Copying -/

theorem Inv.hit_stands (h : Inv stray v) {d k : InodeNo} (hd : Kept stray v.inodes d)
    {name : CStr} {type : UInt8} {j : Slot} (hit : Hit (v.dirAt d) v.inodes name type j k) :
    NameStands name := by
  obtain ⟨hpos, hlt⟩ := h.linked.fits d hd j _ _ hit.entry
  refine ⟨?_, hlt⟩
  rintro rfl
  exact absurd hpos (by decide)

/-- A source that cannot be copied is not there. -/
theorem copySource_finds (hp : dev.Perfect) (h : Inv stray s.toVolume) (srcPath : CStr) :
    wp (copySource dev srcPath)
      (fun k s' => s'.toVolume = s.toVolume ∧ s.toVolume.FileAt srcPath k)
      (fun _ => ∀ k, ¬ s.toVolume.FileAt srcPath k) (fun _ => False) s := by
  simp only [copySource, wp_bind, wp_get, wp_require, hp.wp_loadScratch]
  refine ⟨fun _ => ?_, fun hno => (hno h.rootReadable).elim⟩
  -- the search of directory `d` for the name
  have search : ∀ {d name j}, s.toVolume.Parent srcPath d name →
      findDirEntry name (s.blockOf d) s.inodes inodeFile = j → j = none →
      ∀ k, ¬ s.toVolume.FileAt srcPath k := by
    rintro d name j hparent hfind rfl k ⟨d', name', j', hparent', hit⟩
    obtain ⟨rfl, rfl⟩ := h.parent_det hparent hparent'
    exact findDirEntry_none (by decide) hfind j' k hit
  cases hsplit : splitPath srcPath with
  | none =>
      have hparent : s.toVolume.Parent srcPath 0 srcPath := .ofRoot hsplit
      simp only [wp_bind, wp_get, wp_demand, Fs.scratch_setScratch, Fs.toVolume_setScratch,
        Fs.toVolume_noted, Volume.disk_sectorOf]
      refine ⟨fun i hi => ?_, fun hnone => search hparent rfl hnone⟩
      obtain ⟨k, hit⟩ := findDirEntry_some (by decide) hi
      rw [hit.inodeIndex]
      refine ⟨fun k' hk' => ?_, fun hno => (Option.some_ne_none _ hno).elim⟩
      cases hk'
      exact ⟨trivial, 0, srcPath, i, hparent, hit⟩
  | some parts =>
      obtain ⟨srcDir, srcName⟩ := parts
      simp only [wp_bind, wp_require]
      refine ⟨fun _ => ?_, fun hempty => ?_⟩
      · refine wp_lookupDir rfl (fun i d hit => ?_) fun hmiss => ?_
        · have hd := h.keptDir h.linked.root hit
          have hparent : s.toVolume.Parent srcPath d srcName := .ofDir hsplit hit
          simp only [wp_get, hp.wp_loadScratch2, wp_demand, Fs.scratch2_setScratch2,
            Fs.toVolume_setScratch2, Fs.toVolume_setScratch, Fs.toVolume_noted,
            Volume.disk_sectorOf]
          refine ⟨fun _ => ⟨fun j hj => ?_, fun hnone => search hparent rfl hnone⟩,
            fun hno => (hno (h.direct0_ne hd.1.1)).elim⟩
          obtain ⟨k, hfile⟩ := findDirEntry_some (by decide) hj
          rw [hfile.inodeIndex]
          refine ⟨fun k' hk' => ?_, fun hno => (Option.some_ne_none _ hno).elim⟩
          cases hk'
          exact ⟨trivial, d, srcName, j, hparent, hfile⟩
        · rintro k ⟨d, name, j, hparent, -⟩
          exact not_parent_of_miss hsplit hmiss hparent
      · rintro k ⟨d, name, j, hparent, hit⟩
        exact hempty (hparent.rest hsplit ▸ (h.hit_stands (h.parent_kept hparent) hit).1)

/-- A target that is refused is none, or without a name. -/
theorem copyTarget_finds (hp : dev.Perfect) (srcPath dstPath : CStr) :
    wp (copyTarget dev srcPath dstPath)
      (fun r s' => s'.toVolume = s.toVolume ∧ s.toVolume.CopyTarget srcPath dstPath r.1 r.2)
      (fun _ => ∀ d name, s.toVolume.CopyTarget srcPath dstPath d name → ¬ NameStands name)
      (fun _ => False) s := by
  unfold copyTarget Volume.CopyTarget
  cases splitPath dstPath with
  | some parts =>
      obtain ⟨dstDir, dstName⟩ := parts
      simp only [wp_bind, wp_require, wp_get, hp.wp_loadScratch]
      refine ⟨fun _ => ?_, fun hempty d name htarget hstands => ?_⟩
      · refine wp_lookupDir rfl (fun i d hit => ⟨rfl, ⟨i, hit⟩, rfl⟩) fun hmiss d name htarget => ?_
        exact htarget.1.elim fun i hit => (hmiss i d hit).elim
      · exact hempty (htarget.2 ▸ hstands.1)
  | none =>
      simp only [wp_bind, wp_get, hp.wp_loadScratch, Fs.scratch_setScratch, Fs.toVolume_setScratch,
        Fs.toVolume_noted, Volume.disk_sectorOf]
      cases hfind : findDirEntry dstPath (s.blockOf 0) s.inodes inodeDir with
      | none => exact ⟨rfl, .inr ⟨findDirEntry_none (by decide) hfind, rfl, rfl⟩⟩
      | some i =>
          obtain ⟨d, hit⟩ := findDirEntry_some (by decide) hfind
          simp only [wp_bind, wp_demand, hit.inodeIndex]
          refine ⟨fun d' hd' => ?_, fun hno => (Option.some_ne_none _ hno).elim⟩
          cases hd'
          exact ⟨rfl, .inl ⟨⟨i, hit⟩, rfl⟩⟩

theorem Inv.copyTarget_det (h : Inv stray v) {srcPath dstPath name name' : CStr} {d d' : InodeNo}
    (ht : v.CopyTarget srcPath dstPath d name) (ht' : v.CopyTarget srcPath dstPath d' name') :
    d = d' ∧ name = name' := by
  unfold Volume.CopyTarget at ht ht'
  split at ht
  · next hsplit =>
      rw [hsplit] at ht'
      obtain ⟨⟨i, hit⟩, rfl⟩ := ht
      obtain ⟨⟨i', hit'⟩, rfl⟩ := ht'
      exact ⟨(h.hit_unique h.linked.root hit hit').2, rfl⟩
  · next hsplit =>
      rw [hsplit] at ht'
      rcases ht with ⟨⟨i, hit⟩, rfl⟩ | ⟨hmiss, rfl, hname⟩
      · rcases ht' with ⟨⟨i', hit'⟩, rfl⟩ | ⟨hmiss', -⟩
        · exact ⟨(h.hit_unique h.linked.root hit hit').2, rfl⟩
        · exact (hmiss' i d hit).elim
      · rcases ht' with ⟨⟨i', hit'⟩, -⟩ | ⟨-, rfl, hname'⟩
        · exact (hmiss i' d' hit').elim
        · exact ⟨rfl, hname.trans hname'.symm⟩

theorem fsCopyPath_decides (hp : dev.Perfect) (h : Ready stray s.toVolume)
    (srcPath dstPath : CStr) :
    Decides (Accepts s.toVolume (.copyPath srcPath dstPath))
      (fsCopyPath dev srcPath dstPath) s := by
  have hinv := h.inv
  simp only [Decides, fsCopyPath, wp_bind, wp_get, wp_require]
  refine ⟨fun _ => ⟨fun _ => ?_, ?_⟩, fun hno => (hno h.mounted).elim⟩
  · refine wp_mono (copySource_finds hp hinv srcPath) ?_ ?_ (fun _ h => h)
    · rintro src s₁ ⟨hv₁, hsrc⟩
      have hsrcLive : Live s.inodes src := by
        obtain ⟨d, name, j, -, hit⟩ := hsrc
        exact hit.used
      simp only [hp.wp_read, hv₁]
      refine ⟨fun _ => ?_, fun hno => (hno (hinv.direct0_ne hsrcLive)).elim⟩
      rw [Inv.wp_ensureRootDirBlock (show Inv stray _ by simpa [hv₁] using hinv)]
      refine wp_mono (copyTarget_finds hp srcPath dstPath) ?_ ?_ (fun _ h => h)
      · rintro ⟨d, name⟩ s₂ ⟨hv₂, htarget⟩
        rw [Fs.toVolume_noted, hv₁] at hv₂ htarget
        have hd := hinv.copyTarget_kept htarget
        have hiff : Accepts s.toVolume (.copyPath srcPath dstPath) ↔
            NameStands name ∧ s.toVolume.CanStore d name := by
          constructor
          · rintro ⟨k, d', name', -, htarget', ha⟩
            obtain ⟨rfl, rfl⟩ := hinv.copyTarget_det htarget htarget'
            exact ha
          · exact fun ha => ⟨src, d, name, hsrc, htarget, ha⟩
        rw [hiff]
        simp only [hp.wp_loadScratch2, Fs.scratch2_setScratch2, Fs.toVolume_setScratch2,
          Fs.toVolume_noted, Volume.disk_sectorOf, hv₂]
        refine ⟨fun hname => ⟨fun _ => ?_, fun hno => ?_⟩, fun hno ha => hno ha.1⟩
        · rcases @Inv.scan_tells _ _ hinv _ hd neverBad (fun _ => rfl) name inodeFile with
            ⟨j, k, hscan, hit⟩ | ⟨hscan, hmiss⟩
          · rw [hscan]
            simp only [wp_bind, wp_modifyInode, wp_pure, wp_get, hp.wp_write, hp.wp_flushTables]
            exact ⟨hname, .inl ⟨j, k, hit⟩⟩
          · rw [hscan]
            simp only [wp_bind, wp_demand, wp_markBlockUsed, wp_modifyInode, wp_setScratch2,
              wp_pure, wp_get, hp.wp_write, hp.wp_flushTables]
            refine ⟨fun j hj => ⟨fun k hk => ⟨fun b hb => ?_, fun hb ha => ?_⟩, fun hk ha => ?_⟩,
              fun hfull ha => ?_⟩
            · exact ⟨hname, .inr ⟨hmiss, ⟨j, firstFreeSlot_some hj⟩,
                ⟨k, allocInodeRaw_free hk⟩, b.toNat, allocBlockRaw_free hb⟩⟩
            · exact not_canAlloc_of_block (allocBlockRaw_none.mp hb) (ha.2.room hmiss).alloc
            · exact not_canAlloc_of_inode (allocInodeRaw_none.mp hk) (ha.2.room hmiss).alloc
            · exact (ha.2.room hmiss).free hfull
        · exact (hno ⟨hd.1.1, hinv.direct0_ne hd.1.1⟩).elim
      · rintro s₂ hno ⟨k, d, name, -, htarget, hstands, -⟩
        rw [Fs.toVolume_noted, hv₁] at hno
        exact hno d name htarget hstands
    · rintro s₁ hno ⟨k, d, name, hsrc, -⟩
      exact hno k hsrc
  · rintro hempty ⟨k, d, name, ⟨d₁, name₁, j, hparent, hit⟩, htarget, hstands, -⟩
    refine hempty ⟨?_, ?_⟩
    · rintro rfl
      exact (hinv.hit_stands (hinv.parent_kept hparent) hit).1 hparent.2
    · rintro rfl
      rcases htarget with ⟨⟨i, hdir⟩, -⟩ | ⟨-, -, rfl⟩
      · exact (hinv.hit_stands hinv.linked.root hdir).1 rfl
      · exact hstands.1 rfl

/-! ## Renaming -/

theorem renameDir_finds (hp : dev.Perfect) (h : Inv stray s.toVolume) (dirname : CStr) :
    wp (renameDir dev dirname)
      (fun o s' => s'.toVolume = s.toVolume ∧ s.toVolume.RootDir dirname o)
      (fun _ => False) (fun _ => False) s := by
  simp only [renameDir, wp_bind, wp_get, wp_loadDirBlock hp h h.linked.root.1, Fs.toVolume_noted]
  cases hfind : findDirEntry dirname (s.blockOf 0) s.inodes inodeDir with
  | none => exact ⟨rfl, findDirEntry_none (by decide) hfind⟩
  | some i =>
      obtain ⟨d, hit⟩ := findDirEntry_some (by decide) hfind
      simp only [wp_bind, wp_demand, wp_pure, hit.inodeIndex]
      refine ⟨fun d' hd' => ?_, fun hno => (Option.some_ne_none _ hno).elim⟩
      cases hd'
      exact ⟨rfl, i, hit⟩

/-- A source that is refused leads to no directory, or has no name. -/
theorem renameSource_finds (hp : dev.Perfect) (h : Inv stray s.toVolume) (srcPath : CStr) :
    wp (renameSource dev srcPath)
      (fun r s' => s'.toVolume = s.toVolume ∧ s.toVolume.Parent srcPath r.1 r.2)
      (fun _ => ∀ d name, s.toVolume.Parent srcPath d name → ¬ NameStands name)
      (fun _ => False) s := by
  unfold renameSource
  cases hsplit : splitPath srcPath with
  | none => exact ⟨rfl, .ofRoot hsplit⟩
  | some parts =>
      obtain ⟨dirname, name⟩ := parts
      simp only [wp_bind, wp_require, wp_demand, wp_pure]
      refine ⟨fun _ => ⟨fun _ => ?_, fun hempty d n hparent hstands => ?_⟩,
        fun hempty d n hparent => ?_⟩
      · refine wp_mono (renameDir_finds hp h dirname) ?_ (fun _ h => h.elim) (fun _ h => h)
        rintro o s₁ ⟨hv, hroot⟩
        refine ⟨fun d hd => ⟨hv, ?_⟩, fun hnone d n hparent => ?_⟩
        · subst hd
          obtain ⟨i, hit⟩ := hroot
          exact .ofDir hsplit hit
        · subst hnone
          exact (not_parent_of_miss hsplit hroot hparent).elim
      · exact hempty (hparent.rest hsplit ▸ hstands.1)
      · rw [Volume.Parent, hsplit] at hparent
        obtain ⟨⟨i, hit⟩, -⟩ := hparent
        exact (hempty (h.hit_stands h.linked.root hit).1).elim

theorem renameTarget_finds (hp : dev.Perfect) (h : Inv stray s.toVolume) (srcName dstPath : CStr) :
    wp (renameTarget dev srcName dstPath)
      (fun r s' => s'.toVolume = s.toVolume ∧
        s.toVolume.RenameTarget srcName dstPath r.1 r.2.1 r.2.2)
      (fun _ => ∀ d name isDir, ¬ s.toVolume.RenameTarget srcName dstPath d name isDir)
      (fun _ => False) s := by
  unfold renameTarget Volume.RenameTarget
  cases splitPath dstPath with
  | some parts =>
      obtain ⟨dirname, rest⟩ := parts
      simp only [wp_bind, wp_require, wp_demand]
      refine ⟨fun _ => ?_, fun hempty d name isDir htarget => ?_⟩
      · refine wp_mono (renameDir_finds hp h dirname) ?_ (fun _ h => h.elim) (fun _ h => h)
        rintro o s₁ ⟨hv, hroot⟩
        refine ⟨fun d hd => ?_, fun hnone d name isDir htarget => ?_⟩
        · subst hd
          by_cases hrest : rest = CStr.empty
          · simp only [hrest, if_true, wp_pure]
            exact ⟨hv, hroot, .inl ⟨trivial, trivial, trivial⟩⟩
          · simp only [hrest, if_false, wp_pure]
            exact ⟨hv, hroot, .inr ⟨hrest, trivial, trivial⟩⟩
        · subst hnone
          obtain ⟨⟨i, hit⟩, -⟩ := htarget
          exact hroot i d hit
      · obtain ⟨⟨i, hit⟩, -⟩ := htarget
        exact hempty (h.hit_stands h.linked.root hit).1
  | none =>
      simp only [wp_bind]
      refine wp_mono (renameDir_finds hp h dstPath) ?_ (fun _ h => h.elim) (fun _ h => h)
      rintro o s₁ ⟨hv, hroot⟩
      cases o with
      | none => exact ⟨hv, .inr ⟨hroot, rfl, rfl, rfl⟩⟩
      | some d => exact ⟨hv, .inl ⟨hroot, rfl, rfl⟩⟩

theorem Inv.canRename_iff (h : Inv stray v) {srcPath dstPath srcName name : CStr}
    {d d' k : InodeNo} {j : Slot} {type : UInt8} {isDir : Bool}
    (hparent : v.Parent srcPath d srcName) (hentry : v.RenameEntry d srcName j k type)
    (htarget : v.RenameTarget srcName dstPath d' name isDir) :
    v.CanRename srcPath dstPath ↔ NameStands name ∧
      (isDir = true ∧ type = inodeDir ∧ d' = k ∨ d' = d ∧ name = srcName ∨
        (∀ i k', ¬ Hit (v.dirAt d') v.inodes name type i k') ∧
          (d' = d ∨ ∃ j', v.dirAt d' j' = none)) := by
  constructor
  · rintro ⟨_, _, _, _, _, _, _, _, hparent', hentry', htarget', ha⟩
    obtain ⟨rfl, rfl⟩ := h.parent_det hparent hparent'
    obtain ⟨rfl, rfl, rfl⟩ := h.renameEntry_det (h.parent_kept hparent) hentry hentry'
    obtain ⟨rfl, rfl, rfl⟩ := h.renameTarget_det htarget htarget'
    exact ha
  · intro ha
    exact ⟨d, srcName, j, k, type, d', name, isDir, hparent, hentry, htarget, ha⟩

theorem fsRename_decides (hp : dev.Perfect) (h : Ready stray s.toVolume) (srcPath dstPath : CStr) :
    Decides (Accepts s.toVolume (.rename srcPath dstPath)) (fsRename dev srcPath dstPath) s := by
  have hinv := h.inv
  rw [Accepts]
  simp only [Decides, fsRename, wp_bind, wp_get, wp_require]
  refine ⟨fun _ => ⟨fun _ => ?_, ?_⟩, fun hno => (hno h.mounted).elim⟩
  · refine wp_mono (renameSource_finds hp hinv srcPath) ?_ ?_ (fun _ h => h)
    · rintro ⟨d, srcName⟩ s₁ ⟨hv₁, hparent⟩
      have hd := hinv.parent_kept hparent
      refine ⟨fun _ => ?_, ?_⟩
      · rw [wp_loadDirBlock hp (hv₁ ▸ hinv) (hv₁ ▸ hd.1)]
        simp only [wp_demand, Fs.toVolume_noted, hv₁]
        refine ⟨?_, ?_⟩
        · rintro ⟨j, type⟩ hentry
          obtain ⟨k, hentry⟩ := renameEntryOf_some hentry
          rw [hentry.1.inodeIndex]
          refine ⟨fun k' hk' => ?_, fun hno => (Option.some_ne_none _ hno).elim⟩
          cases hk'
          refine wp_mono (renameTarget_finds hp (by simpa [hv₁] using hinv) srcName dstPath) ?_ ?_
            (fun _ h => h)
          · rintro ⟨d', name, isDir⟩ s₂ ⟨hv₂, htarget⟩
            rw [Fs.toVolume_noted, hv₁] at hv₂ htarget
            have hd' := hinv.renameTarget_kept htarget
            have htype : type ≠ 0 := by
              rcases hentry.2 with rfl | ⟨rfl, -⟩ <;> decide
            rw [hinv.canRename_iff hparent hentry htarget]
            refine ⟨fun hname => ⟨fun hlen => ?_, fun hno ha => hno ha.1.2⟩,
              fun hno ha => hno ha.1.1⟩
            rw [wp_ite]
            refine ⟨fun hself => ⟨⟨hname, hlen⟩, .inl hself⟩, fun hself => ?_⟩
            rw [wp_bind, wp_loadDirBlock hp (hv₂ ▸ hinv) (hv₂ ▸ hd'.1)]
            simp only [wp_bind, wp_get]
            rw [wp_ite]
            refine ⟨fun hsame => ⟨⟨hname, hlen⟩, .inr (.inl ⟨hsame.1, ?_⟩)⟩, fun hsame => ?_⟩
            · exact CStr.ext ((CStr.equals_iff _ _).mp hsame.2)
            have hmoves : d' = d → name ≠ srcName := by
              rintro hdd rfl
              exact hsame ⟨hdd, (CStr.equals_iff _ _).mpr rfl⟩
            rw [wp_bind, wp_require]
            simp only [Fs.toVolume_noted, hv₂]
            refine ⟨fun habsent => ?_, fun hfound ha => ?_⟩
            · have habsent' := findDirEntry_none htype habsent
              rw [wp_ite]
              refine ⟨fun hdd => ?_, fun hdd => ?_⟩
              · subst hdd
                rw [wp_writeDirBlock hp (by simpa [hv₂] using hinv.isDirInode hd.1)]
                exact ⟨⟨hname, hlen⟩, .inr (.inr ⟨habsent', .inl rfl⟩)⟩
              · rw [wp_bind, wp_demand]
                refine ⟨fun j' hj' => ?_, fun hfull ha => ?_⟩
                · rw [wp_bind, wp_writeDirBlock hp (by simpa [hv₂] using hinv.isDirInode hd.1),
                    wp_writeDirBlock hp (by simpa [hv₂, isDirInode] using hinv.isDirInode hd'.1)]
                  exact ⟨⟨hname, hlen⟩, .inr (.inr ⟨habsent', .inr ⟨j', firstFreeSlot_some hj'⟩⟩)⟩
                · rcases ha.2 with hmine | ⟨hdd', -⟩ | ⟨-, hdd' | ⟨j', hj'⟩⟩
                  · exact hself hmine
                  · exact hdd hdd'
                  · exact hdd hdd'
                  · exact firstFreeSlot_none hfull j' hj'
            · obtain ⟨i, hi⟩ := Option.ne_none_iff_exists'.mp hfound
              obtain ⟨k', hit⟩ := findDirEntry_some htype hi
              rcases ha.2 with hmine | ⟨hdd, hname'⟩ | ⟨habsent, -⟩
              · exact hself hmine
              · exact hmoves hdd hname'
              · exact habsent i k' hit
          · rintro s₂ hno ⟨_, _, _, _, _, d', name, isDir, hparent', -, htarget, -⟩
            obtain ⟨rfl, rfl⟩ := hinv.parent_det hparent hparent'
            rw [Fs.toVolume_noted, hv₁] at hno
            exact hno d' name isDir htarget
        · rintro hnone ⟨_, _, j, k, type, _, _, _, hparent', hentry, -⟩
          obtain ⟨rfl, rfl⟩ := hinv.parent_det hparent hparent'
          exact renameEntryOf_none hnone hentry
      · rintro hlong ⟨_, _, j, k, type, _, _, _, hparent', hentry, -⟩
        obtain ⟨rfl, rfl⟩ := hinv.parent_det hparent hparent'
        exact hlong (hinv.hit_stands hd hentry.1).2
    · rintro s₁ hno ⟨d, name, j, k, type, _, _, _, hparent, hentry, -⟩
      exact hno d name hparent (hinv.hit_stands (hinv.parent_kept hparent) hentry.1)
  · rintro hempty ⟨d, srcName, j, k, type, d', name, isDir, hparent, hentry, htarget, hstands, -⟩
    refine hempty ⟨?_, ?_⟩
    · rintro rfl
      exact (hinv.hit_stands (hinv.parent_kept hparent) hentry.1).1 hparent.2
    · rintro rfl
      rcases htarget with ⟨⟨i, hit⟩, -⟩ | ⟨-, -, rfl, -⟩
      · exact (hinv.hit_stands hinv.linked.root hit).1 rfl
      · exact hstands.1 rfl

/-! ## Removing -/

theorem fsRemovePath_decides (hp : dev.Perfect) (h : Ready stray s.toVolume) (path : CStr) :
    Decides (Accepts s.toVolume (.removePath path)) (fsRemovePath dev path) s := by
  refine wp_mono (fsRemovePath_file hp h.inv path) ?_ ?_ (fun _ h => h)
  · rintro _ s' ⟨d, name, j, k, type, v₁, hparent, rfl, hit, -⟩
    exact ⟨k, d, name, j, hparent, hit⟩
  · rintro s' ⟨-, hno⟩ ⟨k, hk⟩
    exact hno h.mounted k hk

theorem fsRemovePathRecursive_decides (hp : dev.Perfect) (h : Ready stray s.toVolume)
    (path : CStr) :
    Decides (Accepts s.toVolume (.removePathRecursive path))
      (fsRemovePathRecursive dev path) s := by
  refine wp_mono (fsRemovePathRecursive_tree hp h.inv path) ?_ ?_ (fun _ h => h)
  · rintro _ s' ⟨d, j, k, v₁, hat, -⟩
    exact ⟨d, j, k, hat⟩
  · rintro s' ⟨-, hno⟩ ⟨d, j, k, hat⟩
    exact hno h.mounted d j k hat

/-! ## Writing the password -/

theorem Volume.not_canStore {d : InodeNo} {name : CStr}
    (hmiss : ∀ j k, ¬ Hit (v.dirAt d) v.inodes name inodeFile j k)
    (hno : ¬ CanAlloc v ∨ ∀ j, v.dirAt d j ≠ none) : ¬ v.CanStore d name := by
  intro hstore
  have hroom := hstore.room hmiss
  rcases hno with hno | hfull
  · exact hno hroom.alloc
  · exact hroom.slot.elim hfull

/-- The first half of the routine, with the root block written. -/
theorem ensureSysDir_stored (hp : dev.Perfect) (h : Inv stray s.toVolume)
    (hb : s.blockScratch = s.blockOf 0) :
    wp (ensureSysDir dev)
      (fun d s' => SysDir stray s.toVolume
        (s'.toVolume.setSector (s'.sectorOf 0) s'.blockScratch) d)
      (fun _ => (∀ i k, ¬ Hit (s.dirAt 0) s.inodes sysName inodeDir i k) ∧
        ¬ s.toVolume.HasRoom 0 sysName inodeDir) (fun _ => False) s := by
  refine wp_mono (ensureSysDir_spec hp h hb) ?_ ?_ (fun _ h => h)
  · rintro d s' (⟨hit, hv, hb'⟩ | ⟨j, b, hk, hblock, henter, hv, hb'⟩)
    · refine .inl ⟨hit, ?_⟩
      rw [hv, hb']
      exact Volume.setSector_eq_self rfl
    · obtain ⟨htake, hk0⟩ := h.canTake hk hblock (.inr rfl)
        (show (0 : UInt32).toNat ≤ 512 by decide)
      refine .inr ⟨j, b, allocInodeRaw_free hk, allocBlockRaw_free hblock, htake, henter, hk0, ?_⟩
      rw [hv, hb']
      simp [Volume.create, Volume.take, Volume.setData, Volume.sectorOf_eq, hk0.symm, Inode.fresh]
  · rintro s' (⟨-, hmiss, hno⟩ | ⟨k, b, -, -, hmiss, hfull, -⟩)
    · exact ⟨hmiss, fun hroom => hno hroom.alloc⟩
    · exact ⟨hmiss, fun hroom => hroom.slot.elim hfull⟩

/-- With the directory in place, the rest is decided by what there is in it. -/
theorem SysDir.canStoreSys (h : Inv stray v) {v₁ : Volume} {d : InodeNo}
    (hs : SysDir stray v v₁ d) (filename : CStr) :
    v.CanStoreSys filename ↔ v₁.CanStore d filename := by
  rcases hs with ⟨⟨i, hit⟩, rfl⟩ | ⟨j, b, hk, hb, htake, henter, hk0, rfl⟩
  · constructor
    · rintro (⟨i', d', hit', hstore⟩ | ⟨hroom, -⟩)
      · obtain ⟨-, rfl⟩ := h.hit_unique h.linked.root hit hit'
        exact hstore
      · exact (hroom.absent i d hit).elim
    · exact fun hstore => .inl ⟨i, d, hit, hstore⟩
  · have hempty : (v.create 0 j sysName d ((v.inodes d).fresh inodeDir 0 b) Bytes.zero).dirAt d =
        fun _ => none := by
      rw [dirAt_create_self h h.rootLive htake, listing_zero]
    have hmiss : ∀ i k, ¬ Hit ((v.create 0 j sysName d ((v.inodes d).fresh inodeDir 0 b)
        Bytes.zero).dirAt d) (v.create 0 j sysName d ((v.inodes d).fresh inodeDir 0 b)
        Bytes.zero).inodes filename inodeFile i k := by
      intro i k hit
      have := hit.entry
      rw [hempty] at this
      cases this
    have hroom : v.HasRoom 0 sysName inodeDir :=
      ⟨henter.absent, ⟨j, henter.free⟩, ⟨d, hk⟩, b.toNat, hb⟩
    have hnext := canAlloc_take htake hk hb
    constructor
    · rintro (⟨i, d', hit, -⟩ | ⟨-, hlast⟩)
      · exact (henter.absent i d' hit).elim
      · exact .inr ⟨hmiss, ⟨0, by rw [hempty]⟩, hnext.mpr hlast⟩
    · exact fun hstore => .inr ⟨hroom, hnext.mp (hstore.room hmiss).alloc⟩

theorem writeSysFile_decides (hp : dev.Perfect) (h : Inv stray s.toVolume) {filename : CStr}
    (hname : NameStands filename) {data : List UInt8} (hdata : data.length ≤ 512) :
    Decides (s.toVolume.CanStoreSys filename) (writeSysFile dev filename data) s := by
  have hroot : isDirInode s.toVolume 0 := h.isDirInode h.linked.root.1
  simp only [Decides, writeSysFile, readRootDirBlock, wp_bind, h.wp_ensureRootDirBlock, wp_get,
    wp_require]
  refine ⟨fun _ => hp.loadScratch_step fun s₁ hv₁ hb₁ => ?_, fun hn => (hn hroot).elim⟩
  refine wp_mono (ensureSysDir_stored hp (hv₁ ▸ h) (by rw [hb₁, hv₁, Volume.disk_sectorOf])) ?_ ?_
    (fun _ h => h)
  · intro d s₂ hdir
    rw [hv₁] at hdir
    simp only [hp.wp_write, hp.wp_loadScratch2]
    obtain ⟨hinv, hkept⟩ := hdir.inv h
    rw [hdir.canStoreSys h]
    refine wp_mono (writeSysEntry_spec hp (show Inv stray _ from ?_) ?_ ?_ hname.1 hname.2 hdata)
      ?_ ?_ (fun _ h => h)
    · exact hinv
    · exact hkept
    · rfl
    · rintro _ s₃ ⟨-, hfile | ⟨halloc, hslot⟩⟩
      · exact .inl hfile
      · exact or_iff_not_imp_left.mpr fun hno => ⟨fun j k hit => hno ⟨j, k, hit⟩, hslot, halloc⟩
    · rintro s₃ ⟨hmiss, ⟨-, hno⟩ | ⟨-, hfull, -⟩⟩
      · exact Volume.not_canStore hmiss (.inl hno)
      · exact Volume.not_canStore hmiss (.inr hfull)
  · intro s₂ hs₂
    rw [hv₁] at hs₂
    rintro (⟨i, d, hit, -⟩ | ⟨hroom, -⟩)
    · exact hs₂.1 i d hit
    · exact hs₂.2 hroom

theorem fsWritePasswd_decides (hp : dev.Perfect) (h : Inv stray s.toVolume) (hash : UInt32) :
    Decides (Accepts s.toVolume (.writePasswd hash)) (fsWritePasswd dev hash) s :=
  writeSysFile_decides hp h ⟨by decide, by decide⟩
    (show (hashBytes hash).length ≤ 512 by change 4 ≤ 512; decide)

/-! ## Sessions -/

theorem Call.run_decides (hp : dev.Perfect) (h : Ready stray s.toVolume) (call : Call) :
    Decides (Accepts s.toVolume call) (call.run dev) s := by
  cases call with
  | mkdirPath path => exact fsMkdirPath_decides hp h path
  | create name => exact fsCreate_decides hp h name
  | writePath path data => exact fsWritePath_decides hp h path data
  | copyPath srcPath dstPath => exact fsCopyPath_decides hp h srcPath dstPath
  | rename srcPath dstPath => exact fsRename_decides hp h srcPath dstPath
  | removePath path => exact fsRemovePath_decides hp h path
  | removePathRecursive path => exact fsRemovePathRecursive_decides hp h path
  | writePasswd hash => exact fsWritePasswd_decides hp h.inv hash

/-- After every session each call returns, and returns true exactly when the volume
accepts it. -/
theorem session_accepts (hp : dev.Perfect)
    (h : Session dev (fun s call _ => call.Fits s.toVolume) s) (call : Call) :
    ((call.run dev s).1 = .ok () ↔ Accepts s.toVolume call) ∧
      ((call.run dev s).1 = .refused ↔ ¬ Accepts s.toVolume call) := by
  obtain ⟨stray, hready⟩ := h.ready hp fun _ _ _ hallow => hallow
  obtain ⟨hok, hrefused⟩ := (call.run_decides hp hready).outcome
  refine ⟨?_, hrefused⟩
  rw [← hok]
  exact ⟨fun hrun => ⟨(), hrun⟩, fun ⟨_, hrun⟩ => hrun⟩

/-- A directory is made once. -/
theorem session_accepts_once :
    ¬ Accepts (Fs.started .working (fun _ => Bytes.zero) 0 [.mkdirPath nameA]).toVolume
      (.mkdirPath nameA) :=
  (session_accepts Device.working_perfect
    (.started (by decide +kernel) fun call hcall _ _ => by
      obtain rfl := List.mem_singleton.mp hcall
      trivial) (.mkdirPath nameA)).2.mp (by decide +kernel)

end SevenOS
