import SevenOS.FileSystem.Proof.Specs

/-! # Writing a system file

`write_sys_file` takes inode and block before it knows that there is a slot for
them, at the directory and again at the file. When it then gives up, what it
took stays taken: `SysLeaks` says on which volumes, and the specification says
what is left behind.
-/

namespace SevenOS

open Prog

variable {dev : Device} {stray : InodeNo → Prop} {v : Volume} {s : Fs}

/-- An inode that `alloc_inode_raw` may give out. -/
def FreeInode (v : Volume) (i : InodeNo) : Prop :=
  1 ≤ i.val ∧ i.val < (inodeLimit v.sb).toNat ∧ (v.inodes i).used = 0

/-- A block that `alloc_block_raw` may give out. -/
def FreeBlock (v : Volume) (b : Nat) : Prop :=
  1 ≤ b ∧ b < (blockLimit v.sb).toNat ∧ v.bitmap.testBit b = false

theorem allocInodeRaw_none : allocInodeRaw v = none ↔ ∀ i, ¬ FreeInode v i := by
  simp [allocInodeRaw, FreeInode]

theorem allocInodeRaw_free {k : InodeNo} (h : allocInodeRaw v = some k) : FreeInode v k := by
  simpa [FreeInode] using List.find?_some h

theorem allocBlockRaw_none : allocBlockRaw v = none ↔ ∀ b, ¬ FreeBlock v b := by
  simp only [allocBlockRaw, Option.map_eq_none_iff, List.find?_eq_none, List.mem_range'_1,
    FreeBlock, Bool.not_eq_true', not_and, Bool.not_eq_false]
  constructor
  · intro h b h1 h2
    exact h b ⟨h1, by omega⟩
  · rintro h b ⟨h1, h2⟩
    exact h b h1 (by omega)

theorem allocBlockRaw_free {b : UInt32} (h : allocBlockRaw v = some b) :
    FreeBlock v b.toNat := by
  obtain ⟨i, hfind, rfl⟩ := Option.map_eq_some_iff.mp h
  have hmem := List.mem_of_find?_eq_some hfind
  have hfree := List.find?_some hfind
  rw [List.mem_range'_1] at hmem
  have hlimit : (blockLimit v.sb).toNat < 4294967296 := (blockLimit v.sb).toNat_lt
  have hi : (UInt32.ofNat i).toNat = i := by
    rw [UInt32.toNat_ofNat']
    omega
  rw [hi]
  exact ⟨by omega, by omega, by simpa using hfree⟩

def CanAlloc (v : Volume) : Prop := (∃ i, FreeInode v i) ∧ ∃ b, FreeBlock v b

/-- The inode or the block that is taken next is the last one. -/
def LastAlloc (v : Volume) : Prop :=
  (∃ i, ∀ i', FreeInode v i' → i' = i) ∨ ∃ b, ∀ b', FreeBlock v b' → b' = b

/-- The volumes on which writing a system file is refused but takes something. -/
def SysLeaks (v : Volume) (filename : CStr) : Prop :=
  CanAlloc v ∧
    ((∀ i k, ¬ Hit (v.dirAt 0) v.inodes sysName inodeDir i k) ∧
        ((∀ j, v.dirAt 0 j ≠ none) ∨ LastAlloc v) ∨
      ∃ i k, Hit (v.dirAt 0) v.inodes sysName inodeDir i k ∧
        (∀ i k', ¬ Hit (v.dirAt k) v.inodes filename inodeFile i k') ∧ ∀ j, v.dirAt k j ≠ none)

/-- The volume once there is a `sys` directory, and its inode. -/
def SysDir (stray : InodeNo → Prop) (v v₁ : Volume) (k : InodeNo) : Prop :=
  (∃ i, Hit (v.dirAt 0) v.inodes sysName inodeDir i k) ∧ v₁ = v ∨
    ∃ j b, FreeInode v k ∧ FreeBlock v b.toNat ∧ v.CanTake k ((v.inodes k).fresh inodeDir 0 b) ∧
      v.CanEnter stray 0 j sysName inodeDir ∧ k ≠ 0 ∧
      v₁ = v.create 0 j sysName k ((v.inodes k).fresh inodeDir 0 b) Bytes.zero

/-- What a refused write of a system file may leave. -/
def SysLeft (stray : InodeNo → Prop) (v v' : Volume) : Prop :=
  (∃ k ino, v.CanTake k ino ∧ k ≠ 0 ∧ allocInodeRaw v = some k ∧
      allocBlockRaw v = some ino.direct0 ∧ (ino.type = inodeDir →
        (∀ i k, ¬ Hit (v.dirAt 0) v.inodes sysName inodeDir i k) ∧ ∀ j, v.dirAt 0 j ≠ none) ∧
      v' = v.take k ino) ∨
    ∃ k, (∀ i k, ¬ Hit (v.dirAt 0) v.inodes sysName inodeDir i k) ∧ SysDir stray v v' k

theorem ensureSysDir_spec (hp : dev.Perfect) (h : Inv stray s.toVolume)
    (hb : s.blockScratch = s.blockOf 0) :
    wp (ensureSysDir dev)
      (fun k s' => (∃ i, Hit (s.dirAt 0) s.inodes sysName inodeDir i k) ∧
          s'.toVolume = s.toVolume ∧ s'.blockScratch = s.blockOf 0 ∨
        ∃ j b, allocInodeRaw s.toVolume = some k ∧ allocBlockRaw s.toVolume = some b ∧
          s.toVolume.CanEnter stray 0 j sysName inodeDir ∧
          s'.toVolume = (s.take k ((s.inodes k).fresh inodeDir 0 b)).setData b Bytes.zero ∧
          s'.blockScratch = fillEntry (s.blockOf 0) j k sysName)
      (fun s' => s'.toVolume = s.toVolume ∧
          (∀ i k, ¬ Hit (s.dirAt 0) s.inodes sysName inodeDir i k) ∧ ¬ CanAlloc s.toVolume ∨
        ∃ k b, allocInodeRaw s.toVolume = some k ∧ allocBlockRaw s.toVolume = some b ∧
          (∀ i k, ¬ Hit (s.dirAt 0) s.inodes sysName inodeDir i k) ∧
          (∀ j, s.dirAt 0 j ≠ none) ∧
          s'.toVolume = s.take k ((s.inodes k).fresh inodeDir 0 b))
      (fun _ => False) s := by
  simp only [ensureSysDir, wp_bind, wp_get, hb]
  cases hfind : findDirEntry sysName (s.blockOf 0) s.inodes inodeDir with
  | some i =>
      obtain ⟨k, hit⟩ := findDirEntry_some (by decide) hfind
      simp only [wp_bind, wp_demand, hit.inodeIndex, wp_require, wp_pure]
      refine ⟨fun k' hk' => ?_, by simp⟩
      cases hk'
      exact ⟨fun _ => .inl ⟨⟨i, hit⟩, trivial, hb⟩,
        fun hn => (hn ⟨hit.type, h.direct0_ne hit.used⟩).elim⟩
  | none =>
      have hmiss := findDirEntry_none (by decide) hfind
      simp only [wp_bind, wp_demand]
      refine ⟨fun k hk => ⟨fun b hblock => ?_, fun hblock => .inl ⟨trivial, hmiss, ?_⟩⟩,
        fun hk => .inl ⟨trivial, hmiss, ?_⟩⟩
      · simp only [wp_markBlockUsed, wp_modifyInode]
        refine ⟨fun j hj => ?_, fun hj => .inr ⟨k, b, hk, hblock, hmiss, ?_, ?_⟩⟩
        · simp only [wp_setScratch, wp_setScratch2, wp_get, hp.wp_write, wp_pure]
          refine .inr ⟨j, b, hk, hblock, ⟨h.linked.root, ?_, by decide, hmiss⟩, ?_, ?_⟩
          · exact firstFreeSlot_some (by simpa [hb] using hj)
          · simp [Volume.take, Volume.setData, Volume.sectorOf_eq, Inode.fresh]
          · simp [hb]
        · exact firstFreeSlot_none (by simpa [hb] using hj)
        · rfl
      · exact fun hc => hc.2.elim fun b hfree => allocBlockRaw_none.mp hblock b hfree
      · exact fun hc => hc.1.elim fun i hfree => allocInodeRaw_none.mp hk i hfree

/-- The second half, in a volume that has a `sys` directory `d`. -/
theorem writeSysEntry_spec (hp : dev.Perfect) (h : Inv stray s.toVolume) {d : InodeNo}
    (hd : Kept stray s.inodes d) (hb : s.blockScratch2 = s.blockOf d) {filename : CStr}
    (hname : filename ≠ CStr.empty) (hlen : filename.length < 30) {data : List UInt8}
    (hdata : data.length ≤ 512) :
    wp (writeSysEntry dev d filename data)
      (fun _ s' => Stored stray s.toVolume d filename (UInt32.ofNat data.length)
          (Bytes.zero.paste 0 (data.take 512)) s'.toVolume ∧
        ((∃ j k, Hit (s.dirAt d) s.inodes filename inodeFile j k) ∨
          CanAlloc s.toVolume ∧ ∃ j, s.dirAt d j = none))
      (fun s' => (∀ j k, ¬ Hit (s.dirAt d) s.inodes filename inodeFile j k) ∧
        (s'.toVolume = s.toVolume ∧ ¬ CanAlloc s.toVolume ∨
          CanAlloc s.toVolume ∧ (∀ j, s.dirAt d j ≠ none) ∧
            ∃ k ino, s.toVolume.CanTake k ino ∧ k ≠ 0 ∧ allocInodeRaw s.toVolume = some k ∧
              allocBlockRaw s.toVolume = some ino.direct0 ∧ ino.type = inodeFile ∧
              s'.toVolume = s.take k ino))
      (fun _ => False) s := by
  have hsize : (UInt32.ofNat data.length).toNat ≤ 512 := by
    rw [UInt32.toNat_ofNat']
    omega
  simp only [writeSysEntry, ensureSysEntry, wp_bind, wp_get, hb]
  cases hfind : findDirEntry filename (s.blockOf d) s.inodes inodeFile with
  | some j =>
      obtain ⟨k, hit⟩ := findDirEntry_some (by decide) hfind
      have hdk := Inv.dir_ne_file hd.1 hit.type
      simp only [wp_bind, wp_demand, hit.inodeIndex, wp_modifyInode, wp_pure, hp.wp_write,
        wp_setScratch, hp.wp_flushTables]
      refine ⟨fun k' hk' => ?_, by simp⟩
      cases hk'
      refine ⟨.inr ⟨j, k, hit, ?_⟩, .inl ⟨j, k, hit⟩⟩
      rw [← rewrite_through s.toVolume d]
      simp [hb, Volume.setData, Volume.sectorOf_eq, hdk]
  | none =>
      have hmiss := findDirEntry_none (by decide) hfind
      simp only [wp_bind, wp_demand]
      refine ⟨fun k hk => ⟨fun b hblock => ?_, fun hblock => ?_⟩, fun hk => ?_⟩
      · obtain ⟨htake, hk0⟩ := h.canTake hk hblock (.inl rfl) hsize
        have halloc : CanAlloc s.toVolume :=
          ⟨⟨k, allocInodeRaw_free hk⟩, b.toNat, allocBlockRaw_free hblock⟩
        have hdk : d ≠ k := fun heq => htake.unused (heq ▸ hd.1.1)
        simp only [wp_markBlockUsed, wp_modifyInode]
        refine ⟨fun j hj => ?_, fun hj => ?_⟩
        · have hfree : s.dirAt d j = none := firstFreeSlot_some (by simpa [hb] using hj)
          have hpos : filename.length ≠ 0 := fun h0 => hname (CStr.length_eq_zero.mp h0)
          simp only [wp_setScratch2, wp_pure, hp.wp_write, wp_setScratch, hp.wp_flushTables]
          refine ⟨.inl ⟨j, k, b, htake, ⟨hd, hfree, ⟨by omega, hlen⟩, hmiss⟩, hk0, ?_⟩,
            .inr ⟨halloc, j, hfree⟩⟩
          rw [← create_swap h hd.1.1 htake]
          simp [hb, Volume.take, Volume.setData, Volume.sectorOf_eq, hdk, Inode.fresh]
        · refine ⟨hmiss, .inr ⟨halloc, ?_, k, _, htake, hk0, hk, hblock, rfl, rfl⟩⟩
          exact firstFreeSlot_none (by simpa [hb] using hj)
      · refine ⟨hmiss, .inl ⟨trivial, fun hc => ?_⟩⟩
        exact hc.2.elim fun b hfree => allocBlockRaw_none.mp hblock b hfree
      · refine ⟨hmiss, .inl ⟨trivial, fun hc => ?_⟩⟩
        exact hc.1.elim fun i hfree => allocInodeRaw_none.mp hk i hfree

/-! ### Both halves -/

section Taken

variable {k : InodeNo} {ino : Inode}

theorem freeInode_take {i : InodeNo} (hused : ino.used ≠ 0) :
    FreeInode (v.take k ino) i ↔ FreeInode v i ∧ i ≠ k := by
  by_cases hik : i = k
  · subst hik
    simp [FreeInode, Volume.take, hused]
  · simp [FreeInode, Volume.take, hik]

theorem blockLimit_le (sb : Superblock) : (blockLimit sb).toNat ≤ 32768 := by
  unfold blockLimit
  split
  · decide
  · next h =>
      rw [not_or, UInt32.lt_iff_toNat_lt] at h
      have : maxBlocks.toNat = 32768 := rfl
      omega

theorem freeBlock_take {b : Nat} :
    FreeBlock (v.take k ino) b ↔ FreeBlock v b ∧ b ≠ ino.direct0.toNat := by
  have hle := blockLimit_le v.sb
  by_cases hlt : b < (blockLimit v.sb).toNat
  · have hbit := Bytes.testBit_setBit v.bitmap (i := ino.direct0.toNat) (j := b) (by omega)
    simp only [FreeBlock, Volume.take, Volume.sb_putInode, Volume.sb_useBlock,
      Volume.bitmap_putInode, Volume.bitmap_useBlock, hbit, Bool.or_eq_false_iff,
      decide_eq_false_iff_not]
    constructor
    · rintro ⟨h1, h2, hne, hfree⟩
      exact ⟨⟨h1, h2, hfree⟩, hne⟩
    · rintro ⟨⟨h1, h2, hfree⟩, hne⟩
      exact ⟨h1, h2, hne, hfree⟩
  · constructor
    · rintro ⟨-, h2, -⟩
      exact (hlt h2).elim
    · rintro ⟨⟨-, h2, -⟩, -⟩
      exact (hlt h2).elim

/-- After one pair is taken there is a next one exactly if neither was the last. -/
theorem canAlloc_take (hc : v.CanTake k ino) (hk : FreeInode v k)
    (hb : FreeBlock v ino.direct0.toNat) : CanAlloc (v.take k ino) ↔ ¬ LastAlloc v := by
  simp only [CanAlloc, freeInode_take hc.used, freeBlock_take]
  constructor
  · rintro ⟨⟨i, hi, hik⟩, b, hfree, hbne⟩ (⟨i', honly⟩ | ⟨b', honly⟩)
    · exact hik ((honly i hi).trans (honly k hk).symm)
    · exact hbne ((honly b hfree).trans (honly _ hb).symm)
  · intro hlast
    refine ⟨?_, ?_⟩
    · by_contra hno
      refine hlast (.inl ⟨k, fun i hi => ?_⟩)
      by_contra hne
      exact hno ⟨i, hi, hne⟩
    · by_contra hno
      refine hlast (.inr ⟨ino.direct0.toNat, fun b hfree => ?_⟩)
      by_contra hne
      exact hno ⟨b, hfree, hne⟩

end Taken

theorem SysDir.inv (h : Inv stray v) {v₁ : Volume} {k : InodeNo} (hs : SysDir stray v v₁ k) :
    Inv stray v₁ ∧ Kept stray v₁.inodes k := by
  rcases hs with ⟨⟨i, hit⟩, rfl⟩ | ⟨j, b, -, -, htake, henter, hk0, rfl⟩
  · exact ⟨h, h.keptDir h.linked.root hit⟩
  · refine ⟨h.create htake henter hk0 fun _ => listing_zero, ⟨?_, ?_⟩, ?_⟩
    · simp [Live, Volume.create, Volume.take, Inode.fresh]
    · simp [Volume.create, Volume.take, Inode.fresh]
    · exact fun hs => htake.unused (h.linked.strayLive k hs)

/-- A `sys` directory that was just made is empty. -/
theorem dirAt_create_self (h : Inv stray v) {d k : InodeNo} {ino : Inode} {j : Slot} {name : CStr}
    (hd : Live v.inodes d) (hc : v.CanTake k ino) (content : Block) :
    (v.create d j name k ino content).dirAt k = listing content := by
  have hne := (h.ne_of_canTake hc hd).2.symm
  simp [Volume.dirAt, Volume.blockOf, Volume.create, Volume.take, Volume.data_setData, hne]

/-- With a `sys` directory only its own slots can run out. -/
theorem sysLeaks_of_hit (h : Inv stray v) {i : Slot} {d : InodeNo} {filename : CStr}
    (hit : Hit (v.dirAt 0) v.inodes sysName inodeDir i d) :
    SysLeaks v filename ↔ CanAlloc v ∧
      (∀ j k, ¬ Hit (v.dirAt d) v.inodes filename inodeFile j k) ∧ ∀ j, v.dirAt d j ≠ none := by
  constructor
  · rintro ⟨halloc, ⟨hmiss, -⟩ | ⟨i', d', hit', hno, hfull⟩⟩
    · exact (hmiss i d hit).elim
    · obtain ⟨-, rfl⟩ := h.hit_unique h.linked.root hit hit'
      exact ⟨halloc, hno, hfull⟩
  · rintro ⟨halloc, hno, hfull⟩
    exact ⟨halloc, .inr ⟨i, d, hit, hno, hfull⟩⟩

/-- Without one, and with a slot for it, the second inode or block can be missing. -/
theorem sysLeaks_of_miss {filename : CStr} {j : Slot}
    (hmiss : ∀ i k, ¬ Hit (v.dirAt 0) v.inodes sysName inodeDir i k) (hj : v.dirAt 0 j = none) :
    SysLeaks v filename ↔ CanAlloc v ∧ LastAlloc v := by
  constructor
  · rintro ⟨halloc, ⟨-, hfull | hlast⟩ | ⟨i, d, hit, -⟩⟩
    · exact (hfull j hj).elim
    · exact ⟨halloc, hlast⟩
    · exact (hmiss i d hit).elim
  · rintro ⟨halloc, hlast⟩
    exact ⟨halloc, .inl ⟨hmiss, .inr hlast⟩⟩

/-- What the second half finds in the `sys` directory decides whether the whole leaks. -/
theorem SysDir.leaks (h : Inv stray v) {v₁ : Volume} {d : InodeNo} {filename : CStr}
    (hs : SysDir stray v v₁ d) :
    (((∃ j k, Hit (v₁.dirAt d) v₁.inodes filename inodeFile j k) ∨
        CanAlloc v₁ ∧ ∃ j, v₁.dirAt d j = none) → ¬ SysLeaks v filename) ∧
      ((∀ j k, ¬ Hit (v₁.dirAt d) v₁.inodes filename inodeFile j k) → ¬ CanAlloc v₁ →
        ¬ SysLeaks v filename ∧ v₁ = v ∨ SysLeaks v filename ∧ SysLeft stray v v₁) ∧
      ((∀ j k, ¬ Hit (v₁.dirAt d) v₁.inodes filename inodeFile j k) → CanAlloc v₁ →
        (∀ j, v₁.dirAt d j ≠ none) → SysLeaks v filename ∧ v₁ = v) := by
  rcases id hs with ⟨⟨i, hit⟩, rfl⟩ | ⟨j, b, hk, hb, htake, henter, hk0, rfl⟩
  · rw [sysLeaks_of_hit h hit]
    refine ⟨?_, fun _ hno => .inl ⟨fun hl => hno hl.1, rfl⟩,
      fun hmiss halloc hfull => ⟨⟨halloc, hmiss, hfull⟩, rfl⟩⟩
    rintro (⟨j, k, hfile⟩ | ⟨-, j, hj⟩) ⟨-, hmiss, hfull⟩
    · exact hmiss j k hfile
    · exact hfull j hj
  · have hempty : (v.create 0 j sysName d ((v.inodes d).fresh inodeDir 0 b) Bytes.zero).dirAt d =
        fun _ => none := by
      rw [dirAt_create_self h h.rootLive htake, listing_zero]
    have halloc : CanAlloc v := ⟨⟨d, hk⟩, b.toNat, hb⟩
    have hnext := canAlloc_take htake hk hb
    rw [sysLeaks_of_miss henter.absent henter.free]
    refine ⟨?_, fun _ hno => .inr ⟨⟨halloc, ?_⟩, .inr ⟨d, henter.absent, hs⟩⟩, ?_⟩
    · rintro (⟨i, k, hfile⟩ | ⟨hsecond, -⟩) ⟨-, hlast⟩
      · have := hfile.entry
        rw [hempty] at this
        cases this
      · exact hnext.mp hsecond hlast
    · by_contra hlast
      exact hno (hnext.mpr hlast)
    · intro _ _ hfull
      exact (hfull 0 (by rw [hempty])).elim

theorem writeSysFile_spec (hp : dev.Perfect) (h : Inv stray s.toVolume) {filename : CStr}
    (hname : filename ≠ CStr.empty) (hlen : filename.length < 30) {data : List UInt8}
    (hdata : data.length ≤ 512) :
    wp (writeSysFile dev filename data)
      (fun _ s' => ¬ SysLeaks s.toVolume filename ∧ ∃ v₁ d, SysDir stray s.toVolume v₁ d ∧
        Stored stray v₁ d filename (UInt32.ofNat data.length)
          (Bytes.zero.paste 0 (data.take 512)) s'.toVolume)
      (fun s' => ¬ SysLeaks s.toVolume filename ∧ s'.toVolume = s.toVolume ∨
        SysLeaks s.toVolume filename ∧ SysLeft stray s.toVolume s'.toVolume)
      (fun _ => False) s := by
  have hroot : isDirInode s.toVolume 0 := h.isDirInode h.linked.root.1
  simp only [writeSysFile, readRootDirBlock, wp_bind, h.wp_ensureRootDirBlock, wp_get, wp_require]
  refine ⟨fun _ => hp.loadScratch_step fun s₁ hv₁ hb₁ => ?_, fun hn => (hn hroot).elim⟩
  have h₁ : Inv stray s₁.toVolume := hv₁ ▸ h
  refine wp_mono (ensureSysDir_spec hp h₁ (by rw [hb₁, hv₁, Volume.disk_sectorOf])) ?_ ?_
    (fun _ h => h)
  · intro d s₂ hsys
    rw [hv₁] at hsys
    simp only [hp.wp_write, hp.wp_loadScratch2]
    -- the root block is on the disk
    have hdir : SysDir stray s.toVolume (s₂.toVolume.setSector (s₂.sectorOf 0) s₂.blockScratch)
        d := by
      rcases hsys with ⟨hit, hv₂, hb₂⟩ | ⟨j, b, hk, hblock, henter, hv₂, hb₂⟩
      · refine .inl ⟨hit, ?_⟩
        rw [hv₂, hb₂]
        exact Volume.setSector_eq_self rfl
      · obtain ⟨htake, hk0⟩ := h.canTake hk hblock (.inr rfl) (show (0 : UInt32).toNat ≤ 512 by decide)
        refine .inr ⟨j, b, allocInodeRaw_free hk, allocBlockRaw_free hblock, htake, henter, hk0,
          ?_⟩
        rw [hv₂, hb₂]
        simp [Volume.create, Volume.take, Volume.setData, Volume.sectorOf_eq, hk0.symm, Inode.fresh]
    obtain ⟨hinv, hkept⟩ := hdir.inv h
    have hleaks := @SysDir.leaks _ _ h _ _ filename hdir
    refine wp_mono (writeSysEntry_spec hp (show Inv stray _ from ?_) ?_ ?_ hname hlen hdata) ?_ ?_
      (fun _ h => h)
    · exact hinv
    · exact hkept
    · rfl
    · rintro _ s₃ ⟨hstored, hroom⟩
      exact ⟨hleaks.1 hroom, _, d, hdir, hstored⟩
    · rintro s₃ ⟨hmiss, ⟨hv₃, hno⟩ | ⟨halloc, hfull, k, ino, htake, hk0, hk, hblock, htype, hv₃⟩⟩
      · rw [hv₃]
        exact hleaks.2.1 hmiss hno
      · obtain ⟨hl, heq⟩ := hleaks.2.2 hmiss halloc hfull
        simp only [Fs.toVolume_setScratch2, Fs.toVolume_noted, Fs.toVolume_setVolume, heq]
          at htake hk hblock hv₃
        refine .inr ⟨hl, .inl ⟨k, ino, htake, hk0, hk, hblock, fun hdir => ?_, hv₃⟩⟩
        rw [htype] at hdir
        exact absurd hdir (by decide)
  · intro s₂ hs₂
    rw [hv₁] at hs₂
    rcases hs₂ with ⟨hv₂, hmiss, hno⟩ | ⟨k, b, hk, hblock, hmiss, hfull, hv₂⟩
    · exact .inl ⟨fun hl => hno hl.1, hv₂⟩
    · obtain ⟨htake, hk0⟩ := h.canTake hk hblock (.inr rfl) (show (0 : UInt32).toNat ≤ 512 by decide)
      refine .inr ⟨⟨⟨⟨k, allocInodeRaw_free hk⟩, b.toNat, allocBlockRaw_free hblock⟩,
        .inl ⟨hmiss, .inl hfull⟩⟩, .inl ⟨k, _, htake, hk0, hk, hblock, fun _ => ⟨hmiss, hfull⟩, hv₂⟩⟩

end SevenOS
