import SevenOS.FileSystem.Proof.Removal

/-! # What the operations do

One specification for each operation on a disk that does not fail: a refused
operation leaves the volume as it was, and a successful one makes one of the
edits. Nothing runs out of stack.
-/

namespace SevenOS

open Prog

variable {dev : Device} {stray : InodeNo → Prop} {v : Volume} {s : Fs}

/-! ## Allocation -/

theorem allocInodeRaw_some {k : InodeNo} (h : allocInodeRaw v = some k) :
    ¬ Live v.inodes k ∧ k ≠ 0 := by
  have := List.find?_some h
  simp only [decide_eq_true_eq] at this
  refine ⟨by simp [Live, this.2.2], ?_⟩
  rintro rfl
  simp at this

theorem findFreeInode_some {k : InodeNo} (h : findFreeInode v = some k) :
    allocInodeRaw v = some k := by
  unfold findFreeInode at h
  split at h
  · exact h
  · cases h

theorem findFreeBlock_some {b : UInt32} (h : findFreeBlock v = some b) :
    allocBlockRaw v = some b := by
  unfold findFreeBlock at h
  split at h
  · exact h
  · cases h

theorem Allocated.blockLimit_eq {sb : Superblock} {bitmap : Bitmap} {tab : Table}
    (h : Allocated sb bitmap tab) : blockLimit sb = sb.blockCount := by
  have h1 := h.countPos
  have h2 := h.countLe
  unfold blockLimit
  rw [if_neg]
  rintro (h0 | hlt)
  · simp [h0] at h1
  · rw [UInt32.lt_iff_toNat_lt] at hlt
    have : maxBlocks.toNat = 32768 := rfl
    omega

theorem Inv.allocBlockRaw_some (h : Inv stray v) {b : UInt32} (hb : allocBlockRaw v = some b) :
    1 ≤ b.toNat ∧ b.toNat < v.sb.blockCount.toNat ∧ v.bitmap.testBit b.toNat = false := by
  obtain ⟨i, hfind, rfl⟩ := Option.map_eq_some_iff.mp hb
  have hmem := List.mem_of_find?_eq_some hfind
  have hfree := List.find?_some hfind
  rw [h.alloc.blockLimit_eq, List.mem_range'_1] at hmem
  have hle := h.alloc.countLe
  have hi : (UInt32.ofNat i).toNat = i := by
    rw [UInt32.toNat_ofNat']
    omega
  rw [hi]
  exact ⟨by omega, by omega, by simpa using hfree⟩

/-- An inode and a block that the allocators found can be taken. -/
theorem Inv.canTake (h : Inv stray v) {k : InodeNo} {b : UInt32} (hk : allocInodeRaw v = some k)
    (hb : allocBlockRaw v = some b) {type : UInt8} (ht : type = inodeFile ∨ type = inodeDir)
    {size : UInt32} (hsize : size.toNat ≤ 512) :
    v.CanTake k ((v.inodes k).fresh type size b) ∧ k ≠ 0 := by
  obtain ⟨hnew, hk0⟩ := allocInodeRaw_some hk
  obtain ⟨hpos, hlt, hfree⟩ := h.allocBlockRaw_some hb
  exact ⟨⟨hnew, by simp [Inode.fresh], ht, hsize, hpos, hlt, hfree⟩, hk0⟩

/-! ## Scans and lookups -/

theorem outOfTable_inodeByte (k : InodeNo) : outOfTable (inodeByte k) = false := by
  simp [outOfTable]

theorem rootOrOutOfTable_inodeByte {k : InodeNo} (hk : k ≠ 0) :
    rootOrOutOfTable (inodeByte k) = false := by
  have hne : inodeByte k ≠ 0 := by
    intro h0
    have := congrArg UInt8.toNat h0
    simp only [inodeByte_toNat] at this
    exact hk (Fin.ext this)
  simp [rootOrOutOfTable, hne]

theorem canEnter_of_scan {d : InodeNo} (hd : Kept stray v.inodes d)
    {bad : UInt8 → Bool} (hbad : ∀ k, bad (inodeByte k) = false) {name : CStr} {type : UInt8}
    {j : Slot} (hname : name ≠ CStr.empty) (hlen : name.length < 30)
    (hscan : scanEntries bad name type (v.blockOf d) v.inodes = .absent (some j)) :
    v.CanEnter stray d j name type := by
  obtain ⟨hmiss, hfree⟩ := scan_absent hscan
  refine ⟨hd, firstFreeSlot_some hfree.symm, ⟨?_, hlen⟩, fun i k => hmiss i k (hbad k)⟩
  have : name.length ≠ 0 := fun h0 => hname (CStr.length_eq_zero.mp h0)
  omega

theorem Inv.root_direct0 (h : Inv stray s.toVolume) : (s.inodes 0).direct0 ≠ 0 :=
  h.direct0_ne h.rootLive

theorem Inv.wp_ensureRootDirBlock (h : Inv stray s.toVolume) {Q : Unit → Fs → Prop}
    {R D : Fs → Prop} : wp (ensureRootDirBlock dev) Q R D s ↔ Q () s := by
  simp [ensureRootDirBlock, h.root_direct0]

theorem wp_lookupDir {dirname : CStr} (hb : s.blockScratch = s.blockOf 0)
    {Q : InodeNo → Fs → Prop} {R D : Fs → Prop}
    (hit : ∀ i d, Hit (s.dirAt 0) s.inodes dirname inodeDir i d → Q d s)
    (miss : (∀ i d, ¬ Hit (s.dirAt 0) s.inodes dirname inodeDir i d) → R s) :
    wp (lookupDir dirname) Q R D s := by
  simp only [lookupDir, wp_bind, wp_get, wp_demand, hb]
  refine ⟨fun i hi => ?_, fun hnone => miss (findDirEntry_none (by decide) hnone)⟩
  obtain ⟨d, hd⟩ := findDirEntry_some (by decide) hi
  rw [hd.inodeIndex]
  exact ⟨fun d' hd' => by cases hd'; exact hit i d hd, fun h => by cases h⟩

/-- Directory and name a path means. -/
def Volume.Parent (v : Volume) (path : CStr) (d : InodeNo) (name : CStr) : Prop :=
  match splitPath path with
  | none => d = 0 ∧ name = path
  | some (dirname, rest) =>
      (∃ i, Hit (v.dirAt 0) v.inodes dirname inodeDir i d) ∧ name = rest

theorem Volume.Parent.ofRoot {path : CStr} (h : splitPath path = none) :
    v.Parent path 0 path := by
  rw [Volume.Parent, h]
  exact ⟨rfl, rfl⟩

theorem Volume.Parent.ofDir {path dirname rest : CStr} (h : splitPath path = some (dirname, rest))
    {i : Slot} {d : InodeNo} (hit : Hit (v.dirAt 0) v.inodes dirname inodeDir i d) :
    v.Parent path d rest := by
  rw [Volume.Parent, h]
  exact ⟨⟨i, hit⟩, rfl⟩

namespace Inv

variable {path name : CStr} {d : InodeNo}

theorem parent_kept (h : Inv stray v) (hp : v.Parent path d name) : Kept stray v.inodes d := by
  unfold Volume.Parent at hp
  split at hp
  · rw [hp.1]
    exact h.linked.root
  · obtain ⟨⟨i, hit⟩, -⟩ := hp
    exact h.keptDir h.linked.root hit

theorem parent_walk (h : Inv stray v) (hp : v.Parent path d name) :
    ∃ ws, Walk (v.edge stray) 0 ws d := by
  unfold Volume.Parent at hp
  split at hp
  · rw [hp.1]
    exact ⟨[], .nil 0⟩
  · obtain ⟨⟨i, hit⟩, -⟩ := hp
    exact ⟨[i], .single ⟨h.linked.root, _, hit.entry⟩⟩

end Inv

/-! ## Outcomes -/

/-- A new inode on a new block is entered in directory `d`. -/
def Created (stray : InodeNo → Prop) (v : Volume) (d : InodeNo) (name : CStr) (type : UInt8)
    (size : UInt32) (content : UInt32 → Block) (v' : Volume) : Prop :=
  ∃ j k b, v.CanTake k ((v.inodes k).fresh type size b) ∧ v.CanEnter stray d j name type ∧
    k ≠ 0 ∧ v' = (v.create d j name k ((v.inodes k).fresh type size b) (content b)).flush

def Rewritten (v : Volume) (d : InodeNo) (name : CStr) (size : UInt32) (content : Block)
    (v' : Volume) : Prop :=
  ∃ j k, Hit (v.dirAt d) v.inodes name inodeFile j k ∧ v' = (v.rewrite k size content).flush

/-! ## Creating -/

theorem prepareEntry_spec (hp : dev.Perfect) (h : Inv stray s.toVolume) (name : CStr)
    (type : UInt8) :
    wp (prepareEntry dev name type)
      (fun r s' => s'.toVolume = s.toVolume ∧ allocInodeRaw s.toVolume = some r.1 ∧
        allocBlockRaw s.toVolume = some r.2.1 ∧ r.2.2.1 = s.blockOf 0 ∧
        s.toVolume.CanEnter stray 0 r.2.2.2 name type)
      (fun s' => s'.toVolume = s.toVolume) (fun _ => False) s := by
  simp only [prepareEntry, wp_bind, wp_get, wp_require, h.wp_ensureRootDirBlock, wp_demand,
    hp.wp_read, Volume.disk_sectorOf]
  refine ⟨fun _ => ⟨fun hname => ⟨fun hlen => ⟨fun k hk => ⟨fun b hb => ?_, ?_⟩, ?_⟩, ?_⟩, ?_⟩,
    ?_⟩
  · cases hscan : scanEntries outOfTable name type (s.blockOf 0) s.inodes with
    | bad => simp
    | found i k' => simp
    | absent free =>
        simp only [wp_bind, wp_demand, wp_pure, Fs.toVolume_noted]
        refine ⟨fun j hj => ⟨trivial, findFreeInode_some hk, findFreeBlock_some hb, trivial, ?_⟩,
          fun _ => trivial⟩
        subst hj
        exact canEnter_of_scan h.linked.root outOfTable_inodeByte hname hlen hscan
  all_goals simp

theorem fsMkdir_spec (hp : dev.Perfect) (h : Inv stray s.toVolume) (name : CStr) :
    wp (fsMkdir dev name)
      (fun _ s' => Created stray s.toVolume 0 name inodeDir 0 (fun _ => Bytes.zero) s'.toVolume)
      (fun s' => s'.toVolume = s.toVolume) (fun _ => False) s := by
  refine wp_call (prepareEntry_spec hp h name inodeDir) ?_ (fun _ h => h) (fun _ h => h)
  rintro ⟨k, b, dirBlock, j⟩ s₁ ⟨hv, hk, hb, rfl, henter⟩
  obtain ⟨htake, hk0⟩ := h.canTake hk hb (.inr rfl) (show (0 : UInt32).toNat ≤ 512 by decide)
  have h0 : (0 : InodeNo) ≠ k := hk0.symm
  simp only [wp_bind, wp_markBlockUsed, wp_modifyInode, wp_get, hp.wp_write, hp.wp_flushTables]
  refine ⟨j, k, b, htake, henter, hk0, ?_⟩
  simp [hv, Volume.create, Volume.take, Volume.setData, Volume.sectorOf_eq, h0, Inode.fresh]

/-- An entry whose content was not written keeps what its block held. -/
theorem create_data (v : Volume) (d : InodeNo) (j : Slot) (name : CStr) (k : InodeNo)
    (ino : Inode) : v.create d j name k ino (v.data ino.direct0) =
      (v.take k ino).setData (v.inodes d).direct0 (fillEntry (v.blockOf d) j k name) := by
  have : (v.take k ino).setData ino.direct0 (v.data ino.direct0) = v.take k ino :=
    (v.take k ino).setData_data ino.direct0
  rw [Volume.create, this]

theorem fsCreate_spec (hp : dev.Perfect) (h : Inv stray s.toVolume) (name : CStr) :
    wp (fsCreate dev name)
      (fun _ s' => Created stray s.toVolume 0 name inodeFile 0 s.data s'.toVolume)
      (fun s' => s'.toVolume = s.toVolume) (fun _ => False) s := by
  refine wp_call (prepareEntry_spec hp h name inodeFile) ?_ (fun _ h => h) (fun _ h => h)
  rintro ⟨k, b, dirBlock, j⟩ s₁ ⟨hv, hk, hb, rfl, henter⟩
  obtain ⟨htake, hk0⟩ := h.canTake hk hb (.inl rfl) (show (0 : UInt32).toNat ≤ 512 by decide)
  have h0 : (0 : InodeNo) ≠ k := hk0.symm
  simp only [wp_bind, wp_markBlockUsed, wp_modifyInode, wp_get, hp.wp_write, hp.wp_flushTables]
  refine ⟨j, k, b, htake, henter, hk0, ?_⟩
  have := create_data s.toVolume 0 j name k ((s.inodes k).fresh inodeFile 0 b)
  simp only [Inode.fresh] at this
  simp [hv, Inode.fresh, this, Volume.take, Volume.setData, Volume.sectorOf_eq, h0]

theorem fsMkdirPath_spec (hp : dev.Perfect) (h : Inv stray s.toVolume) (path : CStr) :
    wp (fsMkdirPath dev path)
      (fun _ s' => ∃ d name, s.toVolume.Parent path d name ∧
        Created stray s.toVolume d name inodeDir 0 (fun _ => Bytes.zero) s'.toVolume)
      (fun s' => s'.toVolume = s.toVolume) (fun _ => False) s := by
  simp only [fsMkdirPath, wp_bind, wp_get, wp_require]
  refine ⟨fun _ => ⟨fun _ => ?_, by simp⟩, by simp⟩
  cases hsplit : splitPath path with
  | none =>
      refine wp_mono (fsMkdir_spec hp h path) ?_ (fun _ h => h) (fun _ h => h)
      exact fun _ s' hs' => ⟨0, path, .ofRoot hsplit, hs'⟩
  | some parts =>
      obtain ⟨parentName, newdir⟩ := parts
      simp only [wp_bind, wp_require, h.wp_ensureRootDirBlock, wp_get, hp.wp_loadScratch]
      refine ⟨fun hne => ⟨fun _ => ⟨fun hlen => ?_, by simp⟩, by simp⟩, by simp⟩
      apply wp_lookupDir
      · rfl
      · intro i d hit
        have hd := h.keptDir h.linked.root hit
        have hparent : s.toVolume.Parent path d newdir := .ofDir hsplit hit
        simp only [hp.wp_loadScratch2]
        refine ⟨fun _ => ?_, by simp⟩
        simp only [Fs.toVolume_noted, Fs.toVolume_setScratch, Fs.toVolume_setScratch2,
          Fs.scratch2_setScratch2, Volume.disk_sectorOf]
        cases hscan : scanEntries neverBad newdir inodeDir (s.blockOf d) s.inodes with
        | bad => simp
        | found j k => simp
        | absent free =>
            simp only [wp_bind, wp_demand]
            refine ⟨fun j hj => ⟨fun k hk => ⟨fun b hb => ?_, by simp⟩, by simp⟩, by simp⟩
            obtain ⟨htake, hk0⟩ := h.canTake hk hb (.inr rfl) (show (0 : UInt32).toNat ≤ 512 by decide)
            have henter := canEnter_of_scan hd (fun _ => rfl) hne hlen (hj ▸ hscan)
            simp only [wp_markBlockUsed, wp_modifyInode, wp_get, hp.wp_write, wp_setScratch2,
              hp.wp_flushTables]
            refine ⟨d, newdir, hparent, j, k, b, htake, henter, hk0, ?_⟩
            have hdk : d ≠ k := fun heq => htake.unused (heq ▸ hd.1.1)
            simp [Volume.create, Volume.take, Volume.setData, Volume.sectorOf_eq, hdk,
              Inode.fresh]
      · exact fun _ => rfl

/-! ## Writing -/

/-- The file of this name is there with this size and content afterwards. -/
def Stored (stray : InodeNo → Prop) (v : Volume) (d : InodeNo) (name : CStr) (size : UInt32)
    (content : Block) (v' : Volume) : Prop :=
  Created stray v d name inodeFile size (fun _ => content) v' ∨
    Rewritten v d name size content v'

theorem dataLength_toNat (data : CStr) : (dataLength data).toNat = min data.length 512 := by
  rw [dataLength, UInt32.toNat_ofNat']
  omega

theorem dataLength_le (data : CStr) : (dataLength data).toNat ≤ 512 := by
  rw [dataLength_toNat]
  omega

/-- Directory entry and content can be written in either order. -/
theorem create_swap (h : Inv stray v) {d k : InodeNo} {ino : Inode} (hd : Live v.inodes d)
    (hc : v.CanTake k ino) (j : Slot) (name : CStr) (content : Block) :
    ((v.take k ino).setData (v.inodes d).direct0 (fillEntry (v.blockOf d) j k name)).setData
      ino.direct0 content = v.create d j name k ino content :=
  Volume.setData_comm _ (h.ne_of_canTake hc hd).2 _ _

/-- An untouched directory block may be written back on the way. -/
theorem rewrite_through (v : Volume) (d k : InodeNo) (size : UInt32) (content : Block) :
    ((v.putInode k { v.inodes k with size := size }).setData (v.inodes d).direct0
      (v.blockOf d)).setData (v.inodes k).direct0 content = v.rewrite k size content := by
  have : (v.putInode k { v.inodes k with size := size }).setData (v.inodes d).direct0
      (v.blockOf d) = v.putInode k { v.inodes k with size := size } :=
    Volume.setSector_eq_self rfl
  rw [this, Volume.rewrite]

theorem Inv.dir_ne_file {d k : InodeNo} (hd : LiveDir v.inodes d)
    (hk : (v.inodes k).type = inodeFile) : d ≠ k := by
  rintro rfl
  have := hd.2
  rw [hk] at this
  exact absurd this (by decide)

theorem wp_claimFile {free : Option Slot} {Q : Slot × InodeNo → Fs → Prop} {R D : Fs → Prop}
    (hit : ∀ j k b, free = some j → allocInodeRaw s.toVolume = some k →
      allocBlockRaw s.toVolume = some b → Q (j, k) (s.setVolume ((s.toVolume.useBlock b).putInode k
        ((s.inodes k).fresh inodeFile (s.inodes k).size b)))) (miss : R s) :
    wp (claimFile free) Q R D s := by
  simp only [claimFile, wp_bind, wp_demand, wp_get, wp_markBlockUsed, wp_modifyInode, wp_pure]
  exact ⟨fun j hj => ⟨fun k hk => ⟨fun b hb =>
    hit j k b hj (findFreeInode_some hk) (findFreeBlock_some hb), fun _ => miss⟩, fun _ => miss⟩,
    fun _ => miss⟩

theorem fsWrite_spec (hp : dev.Perfect) (h : Inv stray s.toVolume) (name data : CStr) :
    wp (fsWrite dev name data)
      (fun _ s' => Stored stray s.toVolume 0 name (dataLength data) (fileBlock data) s'.toVolume)
      (fun s' => s'.toVolume = s.toVolume) (fun _ => False) s := by
  simp only [fsWrite, wp_bind, wp_get, wp_require, h.wp_ensureRootDirBlock, hp.wp_read,
    Volume.disk_sectorOf]
  refine ⟨fun _ => ⟨fun hname => ⟨fun hlen => ?_, by simp⟩, by simp⟩, by simp⟩
  cases hscan : scanEntries outOfTable name inodeFile (s.blockOf 0) s.inodes with
  | bad => simp
  | found j k =>
      obtain ⟨hit, -⟩ := scan_found hscan
      have h0k := Inv.dir_ne_file h.linked.root.1 hit.type
      simp only [wp_bind, wp_pure, wp_modifyInode, wp_get, hp.wp_write, hp.wp_flushTables]
      refine .inr ⟨j, k, hit, ?_⟩
      rw [← rewrite_through s.toVolume 0]
      simp [Volume.setData, Volume.sectorOf_eq, h0k]
  | absent free =>
      simp only [wp_bind]
      apply wp_claimFile
      · intro j k b hj hk hb
        obtain ⟨htake, hk0⟩ := h.canTake hk hb (.inl rfl) (dataLength_le data)
        have henter := canEnter_of_scan h.linked.root outOfTable_inodeByte hname hlen (hj ▸ hscan)
        simp only [wp_pure, wp_modifyInode, wp_get, hp.wp_write, hp.wp_flushTables]
        refine .inl ⟨j, k, b, htake, henter, hk0, ?_⟩
        rw [← create_swap h h.rootLive htake]
        simp [Volume.take, Volume.setData, Volume.sectorOf_eq, hk0.symm, Inode.fresh]
      · rfl

/-- The write would create a file behind the first `/` under a name that does not fit. -/
def Overflows (v : Volume) (path : CStr) : Prop :=
  ∃ dirname rest i d, splitPath path = some (dirname, rest) ∧ 30 ≤ rest.length ∧
    Hit (v.dirAt 0) v.inodes dirname inodeDir i d ∧ (firstFreeSlot (v.blockOf d)).isSome ∧
    (allocInodeRaw v).isSome ∧ (allocBlockRaw v).isSome

theorem fsWritePath_spec (hp : dev.Perfect) (h : Inv stray s.toVolume) (path data : CStr)
    (hfit : ¬ Overflows s.toVolume path) :
    wp (fsWritePath dev path data)
      (fun _ s' => ∃ d name, s.toVolume.Parent path d name ∧
        Stored stray s.toVolume d name (dataLength data) (fileBlock data) s'.toVolume)
      (fun s' => s'.toVolume = s.toVolume) (fun _ => False) s := by
  simp only [fsWritePath, wp_bind, wp_get, wp_require]
  refine ⟨fun _ => ⟨fun _ => ?_, by simp⟩, by simp⟩
  cases hsplit : splitPath path with
  | none =>
      refine wp_mono (fsWrite_spec hp h path data) ?_ (fun _ h => h) (fun _ h => h)
      exact fun _ s' hs' => ⟨0, path, .ofRoot hsplit, hs'⟩
  | some parts =>
      obtain ⟨dirname, filename⟩ := parts
      simp only [wp_bind, wp_require, wp_get, hp.wp_loadScratch]
      refine ⟨fun hname => ⟨fun _ => ?_, by simp⟩, by simp⟩
      refine wp_lookupDir rfl (fun i d hit => ?_) fun _ => rfl
      have hd := h.keptDir h.linked.root hit
      have hparent : s.toVolume.Parent path d filename := .ofDir hsplit hit
      simp only [hp.wp_loadScratch2]
      refine ⟨fun _ => ?_, by simp⟩
      simp only [Fs.toVolume_noted, Fs.toVolume_setScratch, Fs.toVolume_setScratch2,
        Fs.scratch2_setScratch2, Volume.disk_sectorOf]
      cases hscan : scanEntries outOfTable filename inodeFile (s.blockOf d) s.inodes with
      | bad => simp
      | found j k =>
          obtain ⟨hfile, -⟩ := scan_found hscan
          have hdk := Inv.dir_ne_file hd.1 hfile.type
          simp only [wp_bind, wp_pure, wp_modifyInode, wp_get, hp.wp_write, hp.wp_flushTables]
          refine ⟨d, filename, hparent, .inr ⟨j, k, hfile, ?_⟩⟩
          rw [← rewrite_through s.toVolume d]
          simp [Volume.setData, Volume.sectorOf_eq, hdk]
      | absent free =>
          simp only [wp_bind]
          apply wp_claimFile
          · intro j k b hj hk hb
            subst hj
            have hlen : filename.length < 30 := by
              have hfree : firstFreeSlot (s.blockOf d) = some j := (scan_absent hscan).2.symm
              refine Nat.lt_of_not_le fun hlong => hfit ⟨dirname, filename, i, d, hsplit, hlong,
                hit, ?_, congrArg Option.isSome hk, congrArg Option.isSome hb⟩
              rw [hfree, Option.isSome_some]
            obtain ⟨htake, hk0⟩ := h.canTake hk hb (.inl rfl) (dataLength_le data)
            have henter := canEnter_of_scan hd outOfTable_inodeByte hname hlen hscan
            have hdk : d ≠ k := fun heq => htake.unused (heq ▸ hd.1.1)
            simp only [wp_setScratch2, wp_pure, wp_modifyInode, wp_get, hp.wp_write,
              hp.wp_flushTables]
            refine ⟨d, filename, hparent, .inl ⟨j, k, b, htake, henter, hk0, ?_⟩⟩
            rw [← create_swap h hd.1.1 htake]
            simp [Volume.take, Volume.setData, Volume.sectorOf_eq, hdk, Inode.fresh]
          · rfl

/-! ## Copying -/

/-- File `k` is what the path names. -/
def Volume.FileAt (v : Volume) (path : CStr) (k : InodeNo) : Prop :=
  ∃ d name j, v.Parent path d name ∧ Hit (v.dirAt d) v.inodes name inodeFile j k

theorem copySource_spec (hp : dev.Perfect) (srcPath : CStr) :
    wp (copySource dev srcPath)
      (fun k s' => s'.toVolume = s.toVolume ∧ s.toVolume.FileAt srcPath k)
      (fun s' => s'.toVolume = s.toVolume) (fun _ => False) s := by
  simp only [copySource, wp_bind, wp_get, wp_require, hp.wp_loadScratch]
  refine ⟨fun _ => ?_, by simp⟩
  cases hsplit : splitPath srcPath with
  | none =>
      simp only [wp_bind, wp_get, wp_demand, Fs.scratch_setScratch, Fs.toVolume_setScratch,
        Fs.toVolume_noted, Volume.disk_sectorOf]
      refine ⟨fun i hi => ?_, by simp⟩
      obtain ⟨k, hit⟩ := findDirEntry_some (by decide) hi
      rw [hit.inodeIndex]
      refine ⟨fun k' hk' => ?_, by simp⟩
      cases hk'
      exact ⟨trivial, 0, srcPath, i, .ofRoot hsplit, hit⟩
  | some parts =>
      obtain ⟨srcDir, srcName⟩ := parts
      simp only [wp_bind, wp_require]
      refine ⟨fun _ => ?_, by simp⟩
      refine wp_lookupDir rfl (fun i d hit => ?_) fun _ => rfl
      simp only [wp_get, hp.wp_loadScratch2, wp_demand, Fs.scratch2_setScratch2,
        Fs.toVolume_setScratch2, Fs.toVolume_setScratch, Fs.toVolume_noted, Volume.disk_sectorOf]
      refine ⟨fun _ => ⟨fun j hj => ?_, by simp⟩, by simp⟩
      obtain ⟨k, hfile⟩ := findDirEntry_some (by decide) hj
      rw [hfile.inodeIndex]
      refine ⟨fun k' hk' => ?_, by simp⟩
      cases hk'
      exact ⟨trivial, d, srcName, j, .ofDir hsplit hit, hfile⟩

def Volume.CopyTarget (v : Volume) (srcPath dstPath : CStr) (d : InodeNo) (name : CStr) : Prop :=
  match splitPath dstPath with
  | some (dstDir, dstName) =>
      (∃ i, Hit (v.dirAt 0) v.inodes dstDir inodeDir i d) ∧ name = dstName
  | none =>
      (∃ i, Hit (v.dirAt 0) v.inodes dstPath inodeDir i d) ∧ name = lastName srcPath ∨
        (∀ i d, ¬ Hit (v.dirAt 0) v.inodes dstPath inodeDir i d) ∧ d = 0 ∧ name = dstPath

theorem Inv.copyTarget_kept (h : Inv stray v) {srcPath dstPath name : CStr} {d : InodeNo}
    (ht : v.CopyTarget srcPath dstPath d name) : Kept stray v.inodes d := by
  unfold Volume.CopyTarget at ht
  split at ht
  · obtain ⟨⟨i, hit⟩, -⟩ := ht
    exact h.keptDir h.linked.root hit
  · rcases ht with ⟨⟨i, hit⟩, -⟩ | ⟨-, rfl, -⟩
    · exact h.keptDir h.linked.root hit
    · exact h.linked.root

theorem copyTarget_spec (hp : dev.Perfect) (srcPath dstPath : CStr) :
    wp (copyTarget dev srcPath dstPath)
      (fun r s' => s'.toVolume = s.toVolume ∧ s.toVolume.CopyTarget srcPath dstPath r.1 r.2)
      (fun s' => s'.toVolume = s.toVolume) (fun _ => False) s := by
  unfold copyTarget Volume.CopyTarget
  cases splitPath dstPath with
  | some parts =>
      obtain ⟨dstDir, dstName⟩ := parts
      simp only [wp_bind, wp_require, wp_get, hp.wp_loadScratch]
      refine ⟨fun _ => ?_, by simp⟩
      exact wp_lookupDir rfl (fun i d hit => ⟨rfl, ⟨i, hit⟩, rfl⟩) fun _ => rfl
  | none =>
      simp only [wp_bind, wp_get, hp.wp_loadScratch, Fs.scratch_setScratch, Fs.toVolume_setScratch,
        Fs.toVolume_noted, Volume.disk_sectorOf]
      cases hfind : findDirEntry dstPath (s.blockOf 0) s.inodes inodeDir with
      | none =>
          exact ⟨rfl, .inr ⟨findDirEntry_none (by decide) hfind, rfl, rfl⟩⟩
      | some i =>
          obtain ⟨d, hit⟩ := findDirEntry_some (by decide) hfind
          simp only [wp_bind, wp_demand, hit.inodeIndex]
          refine ⟨fun d' hd' => ?_, by simp⟩
          cases hd'
          exact ⟨rfl, .inl ⟨⟨i, hit⟩, rfl⟩⟩

theorem fsCopyPath_spec (hp : dev.Perfect) (h : Inv stray s.toVolume) (srcPath dstPath : CStr) :
    wp (fsCopyPath dev srcPath dstPath)
      (fun _ s' => ∃ k d name, s.toVolume.FileAt srcPath k ∧
        s.toVolume.CopyTarget srcPath dstPath d name ∧
        Stored stray s.toVolume d name (s.inodes k).size (s.blockOf k) s'.toVolume)
      (fun s' => s'.toVolume = s.toVolume) (fun _ => False) s := by
  simp only [fsCopyPath, wp_bind, wp_get, wp_require]
  refine ⟨fun _ => ⟨fun _ => ?_, by simp⟩, by simp⟩
  refine wp_mono (copySource_spec hp srcPath) ?_ (fun _ h => h) (fun _ h => h)
  rintro src s₁ ⟨hv₁, hsrc⟩
  have hsrcLive : Live s.inodes src := by
    obtain ⟨d, name, j, -, hit⟩ := hsrc
    exact hit.used
  simp only [hp.wp_read]
  refine ⟨fun _ => ?_, fun _ => hv₁⟩
  rw [Inv.wp_ensureRootDirBlock (show Inv stray _ by simpa [hv₁] using h)]
  refine wp_mono (copyTarget_spec hp srcPath dstPath) ?_ ?_ (fun _ h => h)
  · rintro ⟨d, name⟩ s₂ ⟨hv₂, htarget⟩
    rw [Fs.toVolume_noted, hv₁] at hv₂ htarget
    have hd := h.copyTarget_kept htarget
    simp only [hp.wp_loadScratch2, Fs.scratch2_setScratch2, Fs.toVolume_setScratch2,
      Fs.toVolume_noted, Volume.disk_sectorOf, hv₁, hv₂]
    refine ⟨fun hname => ⟨fun _ => ?_, fun _ => trivial⟩, fun _ => trivial⟩
    cases hscan : scanEntries neverBad name inodeFile (s.blockOf d) s.inodes with
    | bad => simp [hv₂]
    | found j k =>
        obtain ⟨hfile, -⟩ := scan_found hscan
        have hdk := Inv.dir_ne_file hd.1 hfile.type
        simp only [wp_bind, wp_modifyInode, wp_pure, wp_get, hp.wp_write, hp.wp_flushTables]
        refine ⟨src, d, name, hsrc, htarget, .inr ⟨j, k, hfile, ?_⟩⟩
        rw [← rewrite_through s.toVolume d]
        simp [hv₂, Volume.setData, Volume.sectorOf_eq, hdk]
    | absent free =>
        simp only [wp_bind, wp_demand]
        refine ⟨fun j hj => ⟨fun k hk => ⟨fun b hb => ?_, ?_⟩, ?_⟩, ?_⟩
        · obtain ⟨htake, hk0⟩ := h.canTake hk hb (.inl rfl) (h.alloc.sizeLe src hsrcLive)
          have henter := canEnter_of_scan hd (fun _ => rfl) hname.1 hname.2 (hj ▸ hscan)
          have hdk : d ≠ k := fun heq => htake.unused (heq ▸ hd.1.1)
          simp only [wp_markBlockUsed, wp_modifyInode, wp_setScratch2, wp_pure, wp_get,
            hp.wp_write, hp.wp_flushTables]
          refine ⟨src, d, name, hsrc, htarget, .inl ⟨j, k, b, htake, henter, hk0, ?_⟩⟩
          rw [← create_swap h hd.1.1 htake]
          simp [hv₂, Volume.take, Volume.setData, Volume.sectorOf_eq, hdk, Inode.fresh]
        all_goals simp [hv₂]
  · intro s₂ hv₂
    rw [hv₂, Fs.toVolume_noted, hv₁]

/-! ## Renaming -/

theorem wp_loadDirBlock (hp : dev.Perfect) (h : Inv stray s.toVolume) {d : InodeNo}
    (hd : LiveDir s.inodes d) {Q : Block → Fs → Prop} {R D : Fs → Prop} :
    wp (loadDirBlock dev d) Q R D s ↔ Q (s.blockOf d) (s.noted ⟨false, s.sectorOf d, 1, 512⟩) := by
  simp [loadDirBlock, h.isDirInode hd, hp]

theorem wp_writeDirBlock (hp : dev.Perfect) {d : InodeNo} (hd : isDirInode s.toVolume d)
    {b : Block} {Q : Unit → Fs → Prop} {R D : Fs → Prop} :
    wp (writeDirBlock dev d b) Q R D s ↔ Q () ((s.noted ⟨true, s.sectorOf d, 1, 512⟩).setVolume
      (s.toVolume.setData (s.inodes d).direct0 b)) := by
  simp only [writeDirBlock, wp_bind, wp_get, wp_require, hp.wp_write]
  exact ⟨fun h => h.1 hd, fun h => ⟨fun _ => h, fun hn => (hn hd).elim⟩⟩

def Volume.RootDir (v : Volume) (dirname : CStr) : Option InodeNo → Prop
  | none => ∀ i d, ¬ Hit (v.dirAt 0) v.inodes dirname inodeDir i d
  | some d => ∃ i, Hit (v.dirAt 0) v.inodes dirname inodeDir i d

theorem renameDir_spec (hp : dev.Perfect) (h : Inv stray s.toVolume) (dirname : CStr) :
    wp (renameDir dev dirname)
      (fun o s' => s'.toVolume = s.toVolume ∧ s.toVolume.RootDir dirname o)
      (fun s' => s'.toVolume = s.toVolume) (fun _ => False) s := by
  simp only [renameDir, wp_bind, wp_get, wp_loadDirBlock hp h h.linked.root.1, Fs.toVolume_noted]
  cases hfind : findDirEntry dirname (s.blockOf 0) s.inodes inodeDir with
  | none => exact ⟨rfl, findDirEntry_none (by decide) hfind⟩
  | some i =>
      obtain ⟨d, hit⟩ := findDirEntry_some (by decide) hfind
      simp only [wp_bind, wp_demand, wp_pure, hit.inodeIndex]
      refine ⟨fun d' hd' => ?_, by simp⟩
      cases hd'
      exact ⟨rfl, i, hit⟩

theorem renameSource_spec (hp : dev.Perfect) (h : Inv stray s.toVolume) (srcPath : CStr) :
    wp (renameSource dev srcPath)
      (fun r s' => s'.toVolume = s.toVolume ∧ s.toVolume.Parent srcPath r.1 r.2)
      (fun s' => s'.toVolume = s.toVolume) (fun _ => False) s := by
  unfold renameSource
  cases hsplit : splitPath srcPath with
  | none => exact ⟨rfl, .ofRoot hsplit⟩
  | some parts =>
      obtain ⟨dirname, name⟩ := parts
      simp only [wp_bind, wp_require, wp_demand, wp_pure]
      refine ⟨fun _ => ⟨fun _ => ?_, by simp⟩, by simp⟩
      refine wp_mono (renameDir_spec hp h dirname) ?_ (fun _ h => h) (fun _ h => h)
      rintro o s₁ ⟨hv, hroot⟩
      refine ⟨fun d hd => ⟨hv, ?_⟩, fun _ => hv⟩
      subst hd
      obtain ⟨i, hit⟩ := hroot
      exact .ofDir hsplit hit

/-- Where a rename goes; `isDir` when the entry keeps its name in directory `d`. -/
def Volume.RenameTarget (v : Volume) (srcName dstPath : CStr) (d : InodeNo) (name : CStr)
    (isDir : Bool) : Prop :=
  match splitPath dstPath with
  | some (dirname, rest) => v.RootDir dirname (some d) ∧
      (rest = CStr.empty ∧ name = srcName ∧ isDir = true ∨
        rest ≠ CStr.empty ∧ name = rest ∧ isDir = false)
  | none => v.RootDir dstPath (some d) ∧ name = srcName ∧ isDir = true ∨
      v.RootDir dstPath none ∧ d = 0 ∧ name = dstPath ∧ isDir = false

theorem Inv.renameTarget_kept (h : Inv stray v) {srcName dstPath name : CStr} {d : InodeNo}
    {isDir : Bool} (ht : v.RenameTarget srcName dstPath d name isDir) :
    Kept stray v.inodes d := by
  unfold Volume.RenameTarget at ht
  split at ht
  · obtain ⟨⟨i, hit⟩, -⟩ := ht
    exact h.keptDir h.linked.root hit
  · rcases ht with ⟨⟨i, hit⟩, -⟩ | ⟨-, rfl, -⟩
    · exact h.keptDir h.linked.root hit
    · exact h.linked.root

theorem renameTarget_spec (hp : dev.Perfect) (h : Inv stray s.toVolume) (srcName dstPath : CStr) :
    wp (renameTarget dev srcName dstPath)
      (fun r s' => s'.toVolume = s.toVolume ∧
        s.toVolume.RenameTarget srcName dstPath r.1 r.2.1 r.2.2)
      (fun s' => s'.toVolume = s.toVolume) (fun _ => False) s := by
  unfold renameTarget Volume.RenameTarget
  cases splitPath dstPath with
  | some parts =>
      obtain ⟨dirname, rest⟩ := parts
      simp only [wp_bind, wp_require, wp_demand]
      refine ⟨fun _ => ?_, by simp⟩
      refine wp_mono (renameDir_spec hp h dirname) ?_ (fun _ h => h) (fun _ h => h)
      rintro o s₁ ⟨hv, hroot⟩
      refine ⟨fun d hd => ?_, fun _ => hv⟩
      subst hd
      by_cases hrest : rest = CStr.empty
      · simp only [hrest, if_true, wp_pure]
        exact ⟨hv, hroot, .inl ⟨trivial, trivial, trivial⟩⟩
      · simp only [hrest, if_false, wp_pure]
        exact ⟨hv, hroot, .inr ⟨hrest, trivial, trivial⟩⟩
  | none =>
      simp only [wp_bind]
      refine wp_mono (renameDir_spec hp h dstPath) ?_ (fun _ h => h) (fun _ h => h)
      rintro o s₁ ⟨hv, hroot⟩
      cases o with
      | none => exact ⟨hv, .inr ⟨hroot, rfl, rfl, rfl⟩⟩
      | some d => exact ⟨hv, .inl ⟨hroot, rfl, rfl⟩⟩

/-- The entry that a rename moves, a file before a directory. -/
def Volume.RenameEntry (v : Volume) (d : InodeNo) (name : CStr) (j : Slot) (k : InodeNo)
    (type : UInt8) : Prop :=
  Hit (v.dirAt d) v.inodes name type j k ∧
    (type = inodeFile ∨ type = inodeDir ∧ ∀ i k', ¬ Hit (v.dirAt d) v.inodes name inodeFile i k')

theorem renameEntryOf_some {d : InodeNo} {name : CStr} {j : Slot} {type : UInt8}
    (h : renameEntryOf name (v.blockOf d) v.inodes = some (j, type)) :
    ∃ k, v.RenameEntry d name j k type := by
  unfold renameEntryOf at h
  split at h
  · next i hi =>
      cases h
      obtain ⟨k, hit⟩ := findDirEntry_some (by decide) hi
      exact ⟨k, hit, .inl rfl⟩
  · next hnone =>
      obtain ⟨i, hi, heq⟩ := Option.map_eq_some_iff.mp h
      cases heq
      obtain ⟨k, hit⟩ := findDirEntry_some (by decide) hi
      exact ⟨k, hit, .inr ⟨rfl, findDirEntry_none (by decide) hnone⟩⟩

/-- The entry is where the rename would put it, or it is the target directory itself. -/
def Volume.RenameStays (v : Volume) (srcPath dstPath : CStr) : Prop :=
  ∃ d srcName j k type d' name isDir, v.Parent srcPath d srcName ∧
    v.RenameEntry d srcName j k type ∧ v.RenameTarget srcName dstPath d' name isDir ∧
    (isDir = true ∧ type = inodeDir ∧ d' = k ∨ d' = d ∧ name = srcName)

/-- A rename that succeeds: nothing to do, a new name in place, or a move. -/
def Renamed (v : Volume) (srcPath dstPath : CStr) (v' : Volume) : Prop :=
  v' = v ∧ v.RenameStays srcPath dstPath ∨ ∃ d srcName j k type d' name isDir, v.Parent srcPath d srcName ∧
    v.RenameEntry d srcName j k type ∧ v.RenameTarget srcName dstPath d' name isDir ∧
    ¬ (isDir = true ∧ type = inodeDir ∧ d' = k) ∧
    (1 ≤ name.length ∧ name.length < 30) ∧
    (∀ i k', ¬ Hit (v.dirAt d') v.inodes name type i k') ∧
    (d' = d ∧ v' = v.renameAt d j name ∨
      d' ≠ d ∧ ∃ j', v.dirAt d' j' = none ∧ v' = v.move d j d' j' k name)

theorem fsRename_spec (hp : dev.Perfect) (h : Inv stray s.toVolume) (srcPath dstPath : CStr) :
    wp (fsRename dev srcPath dstPath)
      (fun _ s' => Renamed s.toVolume srcPath dstPath s'.toVolume)
      (fun s' => s'.toVolume = s.toVolume) (fun _ => False) s := by
  simp only [fsRename, wp_bind, wp_get, wp_require]
  refine ⟨fun _ => ⟨fun _ => ?_, by simp⟩, by simp⟩
  refine wp_mono (renameSource_spec hp h srcPath) ?_ (fun _ h => h) (fun _ h => h)
  rintro ⟨d, srcName⟩ s₁ ⟨hv₁, hparent⟩
  have hd := h.parent_kept hparent
  refine ⟨fun _ => ?_, fun _ => hv₁⟩
  rw [wp_loadDirBlock hp (hv₁ ▸ h) (hv₁ ▸ hd.1)]
  simp only [wp_demand, Fs.toVolume_noted, hv₁]
  refine ⟨?_, fun _ => trivial⟩
  rintro ⟨j, type⟩ hentry
  obtain ⟨k, hentry⟩ := renameEntryOf_some hentry
  rw [hentry.1.inodeIndex]
  refine ⟨fun k' hk' => ?_, by simp⟩
  cases hk'
  -- the target is looked up in the same volume
  refine wp_mono (renameTarget_spec hp (by simpa [hv₁] using h) srcName dstPath) ?_ ?_
    (fun _ h => h)
  rotate_left
  · intro s₂ hv₂
    simpa [hv₁] using hv₂
  rintro ⟨d', name, isDir⟩ s₂ ⟨hv₂, htarget⟩
  rw [Fs.toVolume_noted, hv₁] at hv₂ htarget
  have hd' := h.renameTarget_kept htarget
  refine ⟨fun hname => ⟨fun hlen => ?_, fun _ => hv₂⟩, fun _ => hv₂⟩
  rw [wp_ite]
  refine ⟨fun hself => .inl ⟨hv₂, d, srcName, j, k, type, d', name, isDir, hparent, hentry, htarget,
    .inl hself⟩, fun hself => ?_⟩
  rw [wp_bind, wp_loadDirBlock hp (hv₂ ▸ h) (hv₂ ▸ hd'.1)]
  simp only [wp_bind, wp_get]
  rw [wp_ite]
  refine ⟨fun hsame => .inl ⟨hv₂, d, srcName, j, k, type, d', name, isDir, hparent, hentry, htarget,
    .inr ⟨hsame.1, CStr.ext ((CStr.equals_iff _ _).mp hsame.2)⟩⟩, fun hsame => ?_⟩
  rw [wp_bind, wp_require]
  simp only [Fs.toVolume_noted, hv₂]
  refine ⟨fun habsent => ?_, fun _ => trivial⟩
  have hfits : 1 ≤ name.length ∧ name.length < 30 := by
    refine ⟨?_, hlen⟩
    have : name.length ≠ 0 := fun h0 => hname (CStr.length_eq_zero.mp h0)
    omega
  have htype : type ≠ 0 := by
    rcases hentry.2 with rfl | ⟨rfl, -⟩ <;> decide
  have habsent' := findDirEntry_none htype habsent
  rw [wp_ite]
  refine ⟨fun hdd => ?_, fun hdd => ?_⟩
  · subst hdd
    rw [wp_writeDirBlock hp (by simpa [hv₂] using h.isDirInode hd.1)]
    refine .inr ⟨d', srcName, j, k, type, d', name, isDir, hparent, hentry, htarget, hself, hfits,
      habsent', .inl ⟨rfl, ?_⟩⟩
    simp [hv₂, Volume.renameAt]
  · rw [wp_bind, wp_demand]
    refine ⟨fun j' hj' => ?_, fun _ => by simp [hv₂]⟩
    rw [wp_bind, wp_writeDirBlock hp (by simpa [hv₂] using h.isDirInode hd.1),
      wp_writeDirBlock hp (by simpa [hv₂, isDirInode] using h.isDirInode hd'.1)]
    refine .inr ⟨d, srcName, j, k, type, d', name, isDir, hparent, hentry, htarget, hself, hfits,
      habsent', .inr ⟨hdd, j', firstFreeSlot_some hj', ?_⟩⟩
    simp [hv₂, Volume.move]

/-! ## Removing -/

/-- Entry `j` of a directory that a path leads to, and all below it, is gone. -/
def RemovedAt (stray : InodeNo → Prop) (v : Volume) (path : CStr) (types : UInt8 → Prop)
    (v' : Volume) : Prop :=
  ∃ d name j k type v₁, v.Parent path d name ∧ types type ∧
    Hit (v.dirAt d) v.inodes name type j k ∧
    v.Removed d j (Below (v.edge stray) k) v₁ ∧ v' = v₁.flush

theorem Inv.blockFreeable (h : Inv stray v) {k : InodeNo} (hk : Live v.inodes k) :
    blockFreeable v (v.inodes k).direct0 := by
  refine ⟨h.direct0_ne hk, ?_⟩
  rw [UInt32.lt_iff_toNat_lt]
  exact h.alloc.blockLt k hk

theorem scan_found_ne_root {name : CStr} {type : UInt8} {b : Block} {tab : Table} {j : Slot}
    {k : InodeNo} (h : scanEntries rootOrOutOfTable name type b tab = .found j k) :
    Hit (listing b) tab name type j k ∧ k ≠ 0 := by
  obtain ⟨hit, hbad⟩ := scan_found h
  refine ⟨hit, ?_⟩
  rintro rfl
  simp [rootOrOutOfTable, inodeByte] at hbad

/-- What a scan finds in a directory that is looked after: none of its entries makes the
scan give up. -/
theorem Inv.scanEntries_cases (h : Inv stray v) {d : InodeNo} (hd : Kept stray v.inodes d)
    (name : CStr) (type : UInt8) :
    (∃ j k, scanEntries rootOrOutOfTable name type (v.blockOf d) v.inodes = .found j k ∧
        Hit (v.dirAt d) v.inodes name type j k ∧ k ≠ 0) ∨
      (∃ free, scanEntries rootOrOutOfTable name type (v.blockOf d) v.inodes = .absent free) ∧
        ∀ j k, ¬ Hit (v.dirAt d) v.inodes name type j k := by
  cases hscan : scanEntries rootOrOutOfTable name type (v.blockOf d) v.inodes with
  | bad =>
      obtain ⟨i, n, he, hn⟩ := scan_bad hscan
      obtain ⟨k, rfl, hk0, -⟩ := h.linked.names d i name n hd he
      rw [rootOrOutOfTable_inodeByte hk0] at hn
      cases hn
  | found j k =>
      obtain ⟨hit, hk0⟩ := scan_found_ne_root hscan
      exact .inl ⟨j, k, rfl, hit, hk0⟩
  | absent free =>
      refine .inr ⟨⟨free, rfl⟩, fun j k hit => ?_⟩
      have hgood := rootOrOutOfTable_inodeByte (h.linked.named hd hit.entry).1
      exact (scan_absent hscan).1 j k hgood hit

theorem Inv.parent_det (h : Inv stray v) {path name name' : CStr} {d d' : InodeNo}
    (hp : v.Parent path d name) (hp' : v.Parent path d' name') : d = d' ∧ name = name' := by
  unfold Volume.Parent at hp hp'
  split at hp
  · next hsplit =>
      rw [hsplit] at hp'
      exact ⟨hp.1.trans hp'.1.symm, hp.2.trans hp'.2.symm⟩
  · next dirname rest hsplit =>
      rw [hsplit] at hp'
      obtain ⟨⟨i, hit⟩, rfl⟩ := hp
      obtain ⟨⟨i', hit'⟩, rfl⟩ := hp'
      exact ⟨(h.hit_unique h.linked.root hit hit').2, rfl⟩

/-- A path to an entry ends in a name of 1 to 29 characters. -/
theorem Inv.hit_fits (h : Inv stray v) {path name name' : CStr} {d d' k : InodeNo} {j : Slot}
    {type : UInt8} (hp : v.Parent path d name) (hp' : v.Parent path d' name')
    (hit : Hit (v.dirAt d') v.inodes name' type j k) : name ≠ CStr.empty ∧ name.length < 30 := by
  obtain ⟨rfl, rfl⟩ := h.parent_det hp hp'
  obtain ⟨hpos, hlt⟩ := h.linked.fits d (h.parent_kept hp) j _ _ hit.entry
  refine ⟨?_, hlt⟩
  rintro rfl
  exact absurd hpos (by decide)

theorem removeEntryFromDir_spec (hp : dev.Perfect) (h : Inv stray s.toVolume) {path name : CStr}
    {d : InodeNo} (hparent : s.toVolume.Parent path d name) :
    wp (removeEntryFromDir dev d name)
      (fun _ s' => RemovedAt stray s.toVolume path (· = inodeFile) s'.toVolume)
      (fun s' => s'.toVolume = s.toVolume ∧ ∀ k, ¬ s.toVolume.FileAt path k)
      (fun _ => False) s := by
  have hd := h.parent_kept hparent
  simp only [removeEntryFromDir, wp_bind, wp_get, wp_require]
  refine ⟨fun _ => hp.loadScratch_step fun s₁ hv hb => ?_,
    fun hno => (hno (h.direct0_ne hd.1.1)).elim⟩
  rw [Volume.disk_sectorOf] at hb
  rw [hb, hv]
  rcases h.scanEntries_cases hd name inodeFile with ⟨j, k, hscan, hit, -⟩ | ⟨⟨free, hscan⟩, hmiss⟩
  · have hfree := h.blockFreeable hit.used
    have hdk := Inv.dir_ne_file hd.1 hit.type
    have hone : Erased s.toVolume (Below (s.edge stray) k) (Below (s.edge stray) k) s.toVolume
        (((s.freeBlock (s.inodes k).direct0).setData (s.inodes k).direct0 Bytes.zero).putInode k
          Inode.zero) := by
      refine (Erased.one rfl rfl (h.alloc.blockBound hit.used)).congr (fun x => ?_) fun x hx => ?_
      · rw [below_iff]
        simp [Inv.file_leaf hit.type]
      · rw [hx]
        exact below_refl k
    rw [hscan]
    simp only [wp_bind, wp_require]
    refine ⟨fun _ => ?_, fun hne => (hne hit.type).elim⟩
    rw [if_pos hfree]
    simp only [wp_bind, wp_markBlockFree, wp_setScratch2, wp_get, hp.wp_write, wp_setScratch,
      wp_modifyInode, hp.wp_flushTables]
    obtain ⟨ws, hw⟩ := h.parent_walk hparent
    refine ⟨d, name, j, k, inodeFile, _, hparent, rfl, hit,
      hone.removed j fun i hi => h.sectorOf_ne_parent hw ⟨hd, name, hit.entry⟩ hi, ?_⟩
    simp [hv, hb, Volume.setData, Volume.sectorOf_eq, hdk]
  · rw [hscan]
    refine ⟨hv, ?_⟩
    rintro k ⟨d', name', j, hparent', hit⟩
    obtain ⟨rfl, rfl⟩ := h.parent_det hparent hparent'
    exact hmiss j k hit

/-- `fs_remove_path` is refused only where there is no file. -/
theorem fsRemovePath_file (hp : dev.Perfect) (h : Inv stray s.toVolume) (path : CStr) :
    wp (fsRemovePath dev path)
      (fun _ s' => RemovedAt stray s.toVolume path (· = inodeFile) s'.toVolume)
      (fun s' => s'.toVolume = s.toVolume ∧
        (s.mounted = true → ∀ k, ¬ s.toVolume.FileAt path k)) (fun _ => False) s := by
  have entry : ∀ {d name s₁}, s₁.toVolume = s.toVolume → s.toVolume.Parent path d name →
      wp (removeEntryFromDir dev d name)
        (fun _ s' => RemovedAt stray s.toVolume path (· = inodeFile) s'.toVolume)
        (fun s' => s'.toVolume = s.toVolume ∧
          (s.mounted = true → ∀ k, ¬ s.toVolume.FileAt path k)) (fun _ => False) s₁ := by
    intro d name s₁ hv hparent
    refine wp_mono (removeEntryFromDir_spec hp (hv ▸ h) (hv ▸ hparent)) ?_ ?_ (fun _ h => h)
    · exact fun _ s' hs' => hv ▸ hs'
    · exact fun s' hs' => ⟨hs'.1.trans hv, fun _ => hv ▸ hs'.2⟩
  -- the checks of the text refuse no name that is listed
  have unlisted : ∀ {d name}, s.toVolume.Parent path d name →
      ¬ (name ≠ CStr.empty ∧ name.length < 30) → ∀ k, ¬ s.toVolume.FileAt path k := by
    rintro d name hparent hno k ⟨d', name', j, hparent', hit⟩
    exact hno (h.hit_fits hparent hparent' hit)
  simp only [fsRemovePath, wp_bind, wp_get, wp_require]
  refine ⟨fun _ => ⟨fun hpath => ?_, fun hempty => ⟨trivial, fun _ => ?_⟩⟩,
    fun hno => ⟨trivial, fun hm => (hno hm).elim⟩⟩
  · cases hsplit : splitPath path with
    | none =>
        have hroot : s.toVolume.Parent path 0 path := .ofRoot hsplit
        simp only [fsRemove, wp_bind, wp_get, wp_require]
        refine ⟨fun _ => ⟨fun _ => ⟨fun _ => ⟨fun _ => entry rfl hroot, ?_⟩, fun hlong => ?_⟩,
          fun hno => (hno hpath).elim⟩, fun hno => ⟨trivial, fun hm => (hno hm).elim⟩⟩
        · exact fun hno => (hno h.rootReadable).elim
        · exact ⟨trivial, fun _ => unlisted hroot fun hok => hlong hok.2⟩
    | some parts =>
        obtain ⟨dirname, filename⟩ := parts
        simp only [removeParent, wp_bind, wp_require, wp_get, hp.wp_loadScratch]
        refine ⟨fun _ => ⟨fun _ => ?_, fun hno => (hno h.rootReadable).elim⟩,
          fun hempty => ⟨trivial, ?_⟩⟩
        · refine wp_lookupDir rfl (fun i d hit => entry rfl (.ofDir hsplit hit)) fun hmiss => ?_
          refine ⟨rfl, ?_⟩
          rintro - k ⟨d, name, j, hparent, -⟩
          rw [Volume.Parent, hsplit] at hparent
          obtain ⟨⟨i, hit⟩, -⟩ := hparent
          exact hmiss i d hit
        · rintro - k ⟨d, name, j, hparent, hit⟩
          have hname := hparent
          rw [Volume.Parent, hsplit] at hname
          exact hempty (hname.2 ▸ (h.hit_fits hparent hparent hit).1)
  · rintro k ⟨d, name, j, hparent, hit⟩
    obtain rfl := Decidable.not_not.mp hempty
    exact (h.hit_fits hparent hparent hit).1 hparent.2

theorem fsRemovePath_spec (hp : dev.Perfect) (h : Inv stray s.toVolume) (path : CStr) :
    wp (fsRemovePath dev path)
      (fun _ s' => RemovedAt stray s.toVolume path (· = inodeFile) s'.toVolume)
      (fun s' => s'.toVolume = s.toVolume) (fun _ => False) s :=
  wp_mono (fsRemovePath_file hp h path) (fun _ _ h => h) (fun _ h => h.1) fun _ h => h

theorem findRemovable_ne_root {name : CStr} {b : Block} {tab : Table} {j : Slot} {k : InodeNo}
    (h : findRemovable name b tab = .found j k) : k ≠ 0 := by
  unfold findRemovable at h
  split at h
  · exact (scan_found_ne_root h).2
  · exact (scan_found_ne_root h).2

/-- The entry that a recursive removal takes, a directory before a file. -/
def Volume.RemoveEntry (v : Volume) (d : InodeNo) (name : CStr) (j : Slot) (k : InodeNo)
    (type : UInt8) : Prop :=
  Hit (v.dirAt d) v.inodes name type j k ∧
    (type = inodeDir ∨ type = inodeFile ∧ ∀ i k', ¬ Hit (v.dirAt d) v.inodes name inodeDir i k')

/-- Slot `j` of directory `d` has the entry, for inode `k`, that a recursive removal of
`path` takes. -/
def Volume.RemoveAt (v : Volume) (path : CStr) (d : InodeNo) (j : Slot) (k : InodeNo) : Prop :=
  ∃ name type, v.Parent path d name ∧ v.RemoveEntry d name j k type

/-- What the two scans find in a directory that is looked after. -/
theorem Inv.findRemovable_cases (h : Inv stray v) {d : InodeNo} (hd : Kept stray v.inodes d)
    (name : CStr) :
    (∃ j k type, findRemovable name (v.blockOf d) v.inodes = .found j k ∧
        v.RemoveEntry d name j k type ∧ k ≠ 0) ∨
      (∃ free, findRemovable name (v.blockOf d) v.inodes = .absent free) ∧
        ∀ j k type, ¬ v.RemoveEntry d name j k type := by
  unfold findRemovable
  rcases h.scanEntries_cases hd name inodeDir with ⟨j, k, hdir, hit, hk0⟩ | ⟨⟨free, hdir⟩, hnodir⟩
  · rw [hdir]
    exact .inl ⟨j, k, inodeDir, rfl, ⟨hit, .inl rfl⟩, hk0⟩
  · rw [hdir]
    rcases h.scanEntries_cases hd name inodeFile with
      ⟨j, k, hfile, hit, hk0⟩ | ⟨⟨free', hfile⟩, hnofile⟩
    · exact .inl ⟨j, k, inodeFile, hfile, ⟨hit, .inr ⟨rfl, hnodir⟩⟩, hk0⟩
    · refine .inr ⟨⟨free', hfile⟩, ?_⟩
      rintro j k type ⟨hit, rfl | ⟨rfl, -⟩⟩
      · exact hnodir j k hit
      · exact hnofile j k hit

/-- The entry that a path means, and all below it, is gone. -/
def RemovedTree (stray : InodeNo → Prop) (v : Volume) (path : CStr) (v' : Volume) : Prop :=
  ∃ d j k v₁, v.RemoveAt path d j k ∧ v.Removed d j (Below (v.edge stray) k) v₁ ∧ v' = v₁.flush

theorem removeEntryFromDirRecursive_spec (hp : dev.Perfect) (h : Inv stray s.toVolume)
    {path name : CStr} {d : InodeNo} (hparent : s.toVolume.Parent path d name) :
    wp (removeEntryFromDirRecursive dev d name)
      (fun _ s' => RemovedTree stray s.toVolume path s'.toVolume)
      (fun s' => s'.toVolume = s.toVolume ∧ ∀ d j k, ¬ s.toVolume.RemoveAt path d j k)
      (fun _ => False) s := by
  have hd := h.parent_kept hparent
  obtain ⟨ws, hw⟩ := h.parent_walk hparent
  simp only [removeEntryFromDirRecursive, wp_bind, wp_get, wp_require]
  refine ⟨fun _ => hp.read_step fun s₁ hv => ?_, fun hno => (hno (h.direct0_ne hd.1.1)).elim⟩
  rw [Volume.disk_sectorOf]
  rcases h.findRemovable_cases hd name with ⟨j, k, type, hscan, hentry, hk0⟩ |
    ⟨⟨free, hscan⟩, hmiss⟩
  · have hit := hentry.1
    have e : s.toVolume.edge stray d j k := ⟨hd, name, hit.entry⟩
    have hks := (h.named hd hit).2.2
    rw [hscan]
    -- the entry goes in the state that emptying its directory left
    have finish : ∀ s₂ : Fs, Erased s.toVolume (StrictlyBelow (s.edge stray) k)
        (Below (s.edge stray) k) s.toVolume s₂.toVolume →
        wp (do releaseBlock dev k; modifyInode k fun _ => Inode.zero
               let s' ← get
               diskWriteLba dev 512 (s'.sectorOf d) (clearEntry (s.blockOf d) j)
               flushTables dev)
          (fun _ s' => RemovedTree stray s.toVolume path s'.toVolume)
          (fun s' => s'.toVolume = s.toVolume ∧ ∀ d j k, ¬ s.toVolume.RemoveAt path d j k)
          (fun _ => False) s₂ := by
      intro s₂ h₂
      have hkself : ¬ StrictlyBelow (s.edge stray) k k := by
        rintro ⟨i, c, e', ls, w⟩
        exact h.rooted.below_irrefl (hw.append (.single e)) e' w
      have hdself : ¬ StrictlyBelow (s.edge stray) k d := by
        rintro ⟨i, c, e', ls, w⟩
        exact h.rooted.below_irrefl hw e (.cons e' w)
      have hdk : d ≠ k := by
        rintro rfl
        exact h.rooted.below_irrefl hw e (.nil d)
      have hk₂ : s₂.inodes k = s.inodes k := h₂.inodes k hkself
      have hd₂ : s₂.inodes d = s.inodes d := h₂.inodes d hdself
      have hfree : blockFreeable s₂.toVolume (s₂.inodes k).direct0 := by
        have := h.blockFreeable hit.used
        simpa only [blockFreeable, h₂.sb, hk₂] using this
      have hall : Erased s.toVolume (Below (s.edge stray) k) (Below (s.edge stray) k)
          s.toVolume (((s₂.freeBlock (s₂.inodes k).direct0).setData (s₂.inodes k).direct0
            Bytes.zero).putInode k Inode.zero) := by
        refine (h₂.trans (Erased.one hk₂ h₂.sb (h.alloc.blockBound hit.used)) ?_).congr
          (fun x => ?_) fun x hx => ?_
        · rintro i x hi rfl
          refine h.sectorOf_ne (h.below_live hit.used hks hi.below).1 hit.used ?_
          rintro rfl
          exact hkself hi
        · rw [below_iff, or_comm]
        · rcases hx with hx | rfl
          · exact hx
          · exact below_refl x
      rw [wp_bind]
      refine wp_releaseBlock hp hfree fun s₃ hs₃ => ?_
      simp only [wp_bind, wp_modifyInode, wp_get, hp.wp_write, hp.wp_flushTables]
      refine ⟨d, j, k, _, ⟨name, type, hparent, hentry⟩,
        hall.removed j fun i hi => h.sectorOf_ne_parent hw e hi, ?_⟩
      simp [hs₃, Volume.setData, Volume.sectorOf_eq, hdk, hd₂]
    have hfile : (s.inodes k).type = inodeFile → Erased s.toVolume
        (StrictlyBelow (s.edge stray) k) (Below (s.edge stray) k) s.toVolume s₁.toVolume := by
      intro htype
      rw [hv]
      refine (Erased.refl s.toVolume s.toVolume).congr (fun x => ?_) fun x h => h.elim
      simp [Inv.file_leaf htype]
    simp only [wp_ite]
    refine ⟨fun hdir => ?_, fun hnot => ?_⟩
    · refine wp_call (removeDirContents_spec hp h dirNesting (hw.append (.single e))
        ⟨⟨hit.used, hdir⟩, hks⟩ hk0 ?_ s₁ ?_) ?_ (fun _ h => False.elim h) (fun _ h => h)
      · exact fun ls x w => h.height (hw.append (.single e)) w
      · rw [hv]
        exact ⟨rfl, fun _ _ => ⟨rfl, rfl⟩⟩
      · intro _ s₂ h₂
        rw [hv] at h₂
        exact finish s₂ h₂
    · have htype := (h.alloc.typed k hit.used).resolve_right hnot
      rw [wp_bind, wp_require]
      exact ⟨fun _ => finish s₁ (hfile htype), fun hne => (hne htype).elim⟩
  · rw [hscan]
    refine ⟨hv, ?_⟩
    rintro d' j k ⟨name', type, hparent', hentry⟩
    obtain ⟨rfl, rfl⟩ := h.parent_det hparent hparent'
    exact hmiss j k type hentry

/-- No entry has an empty name. -/
theorem Inv.not_removeAt_empty (h : Inv stray v) {path : CStr}
    (hpath : path = CStr.empty ∨ ∃ dirname, splitPath path = some (dirname, CStr.empty))
    (d : InodeNo) (j : Slot) (k : InodeNo) : ¬ v.RemoveAt path d j k := by
  rintro ⟨name, type, hparent, hentry⟩
  have hname : name = CStr.empty := by
    rcases hpath with rfl | ⟨dirname, hsplit⟩
    · exact hparent.2
    · rw [Volume.Parent, hsplit] at hparent
      exact hparent.2
  exact (h.hit_fits hparent hparent hentry.1).1 hname

theorem fsRemovePathRecursive_tree (hp : dev.Perfect) (h : Inv stray s.toVolume) (path : CStr) :
    wp (fsRemovePathRecursive dev path)
      (fun _ s' => RemovedTree stray s.toVolume path s'.toVolume)
      (fun s' => s'.toVolume = s.toVolume ∧
        (s.mounted = true → ∀ d j k, ¬ s.toVolume.RemoveAt path d j k)) (fun _ => False) s := by
  have entry : ∀ {d name s₁}, s₁.toVolume = s.toVolume → s.toVolume.Parent path d name →
      wp (removeEntryFromDirRecursive dev d name)
        (fun _ s' => RemovedTree stray s.toVolume path s'.toVolume)
        (fun s' => s'.toVolume = s.toVolume ∧
          (s.mounted = true → ∀ d j k, ¬ s.toVolume.RemoveAt path d j k)) (fun _ => False) s₁ := by
    intro d name s₁ hv hparent
    refine wp_mono (removeEntryFromDirRecursive_spec hp (hv ▸ h) (hv ▸ hparent)) ?_ ?_
      (fun _ h => h)
    · exact fun _ s' hs' => hv ▸ hs'
    · exact fun s' hs' => ⟨hs'.1.trans hv, fun _ => hv ▸ hs'.2⟩
  simp only [fsRemovePathRecursive, wp_bind, wp_get, wp_require]
  refine ⟨fun _ => ⟨fun _ => ?_, fun hempty => ⟨trivial, fun _ => ?_⟩⟩,
    fun hno => ⟨trivial, fun hm => (hno hm).elim⟩⟩
  · cases hsplit : splitPath path with
    | none =>
        simp only [wp_bind, wp_require]
        exact ⟨fun _ => entry rfl (.ofRoot hsplit), fun hno => (hno h.rootReadable).elim⟩
    | some parts =>
        obtain ⟨dirname, filename⟩ := parts
        simp only [removeParent, wp_bind, wp_require, wp_get, hp.wp_loadScratch]
        refine ⟨fun _ => ⟨fun _ => ?_, fun hno => (hno h.rootReadable).elim⟩,
          fun hempty => ⟨trivial, fun _ => ?_⟩⟩
        · refine wp_lookupDir rfl (fun i d hit => entry rfl (.ofDir hsplit hit)) fun hmiss => ?_
          refine ⟨rfl, fun _ d j k => ?_⟩
          rintro ⟨name, type, hparent, -⟩
          rw [Volume.Parent, hsplit] at hparent
          obtain ⟨⟨i, hit⟩, -⟩ := hparent
          exact hmiss i d hit
        · refine h.not_removeAt_empty (.inr ⟨dirname, ?_⟩)
          rw [hsplit, Decidable.not_not.mp hempty]
  · exact h.not_removeAt_empty (.inl (Decidable.not_not.mp hempty))

theorem RemovedTree.removedAt {path : CStr} {v' : Volume} (h : RemovedTree stray v path v') :
    RemovedAt stray v path (fun _ => True) v' := by
  obtain ⟨d, j, k, v₁, ⟨name, type, hparent, hentry⟩, hremoved, hv⟩ := h
  exact ⟨d, name, j, k, type, v₁, hparent, trivial, hentry.1, hremoved, hv⟩

theorem fsRemovePathRecursive_spec (hp : dev.Perfect) (h : Inv stray s.toVolume) (path : CStr) :
    wp (fsRemovePathRecursive dev path)
      (fun _ s' => RemovedAt stray s.toVolume path (fun _ => True) s'.toVolume)
      (fun s' => s'.toVolume = s.toVolume) (fun _ => False) s :=
  wp_mono (fsRemovePathRecursive_tree hp h path) (fun _ _ h => h.removedAt) (fun _ h => h.1)
    (fun _ h => h)

end SevenOS
