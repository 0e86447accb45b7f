import SevenOS.FileSystem.Acceptance
import SevenOS.FileSystem.Formatting
import Mathlib.Data.Finset.Card
import Mathlib.Data.Fintype.Card
import Mathlib.Order.Interval.Finset.Nat

/-! # How much can be made

Every file and every directory takes one inode and one block, so what the allocators
have left is counted, and each thing that is made takes one off. `fs_format` makes the
root, the `sys` directory and two files: it returns true when there are inodes and blocks
for the four, and block 0.
-/

namespace SevenOS

open Prog

variable {dev : Device} {stray : InodeNo → Prop} {v v' : Volume} {s : Fs}

instance (v : Volume) (i : InodeNo) : Decidable (FreeInode v i) :=
  inferInstanceAs (Decidable (_ ∧ _ ∧ _))

instance (v : Volume) (b : Nat) : Decidable (FreeBlock v b) :=
  inferInstanceAs (Decidable (_ ∧ _ ∧ _))

namespace Volume

def inodesLeft (v : Volume) : Finset InodeNo := Finset.univ.filter fun i => FreeInode v i

def blocksLeft (v : Volume) : Finset Nat :=
  (Finset.range (blockLimit v.sb).toNat).filter fun b => FreeBlock v b

/-- An inode and a block can be taken `n` times. -/
def HasLeft (v : Volume) (n : Nat) : Prop := n ≤ v.inodesLeft.card ∧ n ≤ v.blocksLeft.card

theorem mem_inodesLeft {i : InodeNo} : i ∈ v.inodesLeft ↔ FreeInode v i := by
  simp [inodesLeft]

theorem mem_blocksLeft {b : Nat} : b ∈ v.blocksLeft ↔ FreeBlock v b := by
  rw [blocksLeft, Finset.mem_filter, Finset.mem_range]
  exact ⟨fun h => h.2, fun h => ⟨h.2.1, h⟩⟩

theorem hasLeft_one : v.HasLeft 1 ↔ CanAlloc v := by
  simp only [HasLeft, Nat.succ_le_iff, Finset.card_pos, Finset.Nonempty, mem_inodesLeft,
    mem_blocksLeft, CanAlloc]

theorem hasLeft_two : v.HasLeft 2 ↔ ¬ LastAlloc v := by
  have hinode : v.inodesLeft.card ≤ 1 ↔ ∃ i, ∀ i', FreeInode v i' → i' = i := by
    simp only [Finset.card_le_one_iff_subset_singleton, Finset.subset_singleton_iff',
      mem_inodesLeft]
  have hblock : v.blocksLeft.card ≤ 1 ↔ ∃ b, ∀ b', FreeBlock v b' → b' = b := by
    simp only [Finset.card_le_one_iff_subset_singleton, Finset.subset_singleton_iff',
      mem_blocksLeft]
  rw [LastAlloc, ← hinode, ← hblock, HasLeft]
  omega

theorem HasLeft.mono {m n : Nat} (h : v.HasLeft n) (hmn : m ≤ n) : v.HasLeft m :=
  ⟨hmn.trans h.1, hmn.trans h.2⟩

theorem hasLeft_take {k : InodeNo} {ino : Inode} (hused : ino.used ≠ 0) (hk : FreeInode v k)
    (hb : FreeBlock v ino.direct0.toNat) (n : Nat) :
    (v.take k ino).HasLeft n ↔ v.HasLeft (n + 1) := by
  have hinodes : (v.take k ino).inodesLeft = v.inodesLeft.erase k := by
    ext i
    rw [mem_inodesLeft, freeInode_take hused, Finset.mem_erase, mem_inodesLeft, and_comm]
  have hblocks : (v.take k ino).blocksLeft = v.blocksLeft.erase ino.direct0.toNat := by
    ext b
    rw [mem_blocksLeft, freeBlock_take, Finset.mem_erase, mem_blocksLeft, and_comm]
  have hi := Finset.card_erase_add_one (mem_inodesLeft.mpr hk)
  have hj := Finset.card_erase_add_one (mem_blocksLeft.mpr hb)
  rw [HasLeft, HasLeft, hinodes, hblocks]
  omega

end Volume

/-! ## A volume with nothing but a root -/

theorem inodeLimit_bounds (sb : Superblock) :
    1 ≤ (inodeLimit sb).toNat ∧ (inodeLimit sb).toNat ≤ 64 := by
  have hmax : fsMaxInodes.toNat = 64 := rfl
  unfold inodeLimit
  split
  · exact ⟨by decide, by decide⟩
  · next h =>
      rw [not_or, UInt32.lt_iff_toNat_lt, hmax] at h
      have hpos : sb.inodeCount.toNat ≠ 0 := fun h0 => h.1 (UInt32.toNat.inj h0)
      omega

theorem Volume.hasLeft_root {root : Inode} {b : UInt32}
    (hcount : 1 ≤ v.sb.blockCount.toNat ∧ v.sb.blockCount.toNat ≤ 32768)
    (hbitmap : v.bitmap = Bytes.zero.setBit b.toNat)
    (htab : v.inodes = assign (fun _ => Inode.zero) 0 root) (hpos : 1 ≤ b.toNat)
    (hlt : b.toNat < v.sb.blockCount.toNat) (n : Nat) :
    v.HasLeft n ↔ n + 1 ≤ (inodeLimit v.sb).toNat ∧ n + 2 ≤ v.sb.blockCount.toNat := by
  have hlimit : (blockLimit v.sb).toNat = v.sb.blockCount.toNat := by
    rw [(allocated_empty hcount.1 hcount.2).blockLimit_eq]
  have hbounds := inodeLimit_bounds v.sb
  have hinodes : v.inodesLeft.image Fin.val = Finset.Ico 1 (inodeLimit v.sb).toNat := by
    ext i
    simp only [Finset.mem_image, mem_inodesLeft, FreeInode, Finset.mem_Ico]
    constructor
    · rintro ⟨i, ⟨h1, h2, -⟩, rfl⟩
      exact ⟨h1, h2⟩
    · rintro ⟨h1, h2⟩
      refine ⟨⟨i, by omega⟩, ⟨h1, h2, ?_⟩, rfl⟩
      have hne : (⟨i, by omega⟩ : InodeNo) ≠ 0 := fun h0 =>
        absurd (congrArg Fin.val h0) (Nat.ne_of_gt h1)
      rw [htab, assign_of_ne _ _ hne]
      rfl
  have hblocks : v.blocksLeft = (Finset.Ico 1 v.sb.blockCount.toNat).erase b.toNat := by
    ext i
    rw [mem_blocksLeft, FreeBlock, hlimit, Finset.mem_erase, Finset.mem_Ico]
    by_cases hi : i < v.sb.blockCount.toNat
    · rw [hbitmap, Bytes.testBit_setBit _ (by omega)]
      have hzero : Bytes.testBit (Bytes.zero : Bitmap) i = false := by simp [Bytes.testBit]
      simp only [hzero, Bool.or_false, decide_eq_false_iff_not]
      omega
    · omega
  have hcardInodes : v.inodesLeft.card = (inodeLimit v.sb).toNat - 1 := by
    rw [← Nat.card_Ico, ← hinodes, Finset.card_image_of_injective _ Fin.val_injective]
  have hcardBlocks : v.blocksLeft.card = v.sb.blockCount.toNat - 1 - 1 := by
    rw [hblocks, Finset.card_erase_of_mem (Finset.mem_Ico.mpr ⟨hpos, hlt⟩), Nat.card_Ico]
  rw [HasLeft, hcardInodes, hcardBlocks]
  omega

theorem formatRoot_left (hp : dev.Perfect) {root : Inode}
    (hcount : 1 ≤ s.sb.blockCount.toNat ∧ s.sb.blockCount.toNat ≤ 32768)
    (hbitmap : s.bitmap = Bytes.zero) (htab : s.inodes = assign (fun _ => Inode.zero) 0 root)
    (hblock : root.direct0 = 0) :
    wp (ensureRootDirBlock dev)
      (fun _ s' => ∀ n, s'.toVolume.HasLeft n ↔
        n + 1 ≤ (inodeLimit s.sb).toNat ∧ n + 2 ≤ s.sb.blockCount.toNat)
      (fun s' => s.sb.blockCount.toNat < 2 ∧ s' = s) (fun _ => False) s := by
  have hroot : s.inodes 0 = root := by rw [htab, assign_same]
  have hlimit : (blockLimit s.sb).toNat = s.sb.blockCount.toNat := by
    rw [(allocated_empty hcount.1 hcount.2).blockLimit_eq]
  simp only [ensureRootDirBlock, wp_bind, wp_get]
  rw [if_neg (by rw [hroot, hblock]; simp)]
  simp only [wp_bind, wp_demand, wp_markBlockUsed, wp_modifyInode, wp_get, hp.wp_write,
    hp.wp_flushTables]
  refine ⟨fun b hb n => ?_, fun hnone => ?_⟩
  · obtain ⟨hpos, hlt, -⟩ := allocBlockRaw_free hb
    rw [hlimit] at hlt
    refine @Volume.hasLeft_root _ { root with direct0 := b } b ?_ ?_ ?_ hpos ?_ n
    · exact hcount
    · simp [hbitmap]
    · simp [htab, assign_assign]
    · exact hlt
  · refine ⟨?_, trivial⟩
    by_contra htwo
    refine allocBlockRaw_none.mp hnone 1 ⟨le_rfl, by omega, ?_⟩
    rw [hbitmap]
    simp [Bytes.testBit]

/-! ## The `sys` directory and its files -/

theorem writeSysEntry_left (hp : dev.Perfect) {d : InodeNo} {filename : CStr}
    (hmiss : ∀ j k, ¬ Hit (listing s.blockScratch2) s.inodes filename inodeFile j k)
    (data : List UInt8) :
    wp (writeSysEntry dev d filename data)
      (fun _ s' => ∀ n, s'.toVolume.HasLeft n ↔ s.toVolume.HasLeft (n + 1)) (fun _ => True)
      (fun _ => True) s := by
  simp only [writeSysEntry, ensureSysEntry, wp_bind, wp_get]
  cases hfind : findDirEntry filename s.blockScratch2 s.inodes inodeFile with
  | some j =>
      obtain ⟨k, hit⟩ := findDirEntry_some (by decide) hfind
      exact (hmiss j k hit).elim
  | none =>
      simp only [wp_bind, wp_demand, wp_markBlockUsed, wp_modifyInode, wp_setScratch2, wp_pure,
        hp.wp_write, wp_setScratch, hp.wp_flushTables]
      refine ⟨fun k hk => ⟨fun b hb => ⟨fun j _ n => ?_, fun _ => trivial⟩, fun _ => trivial⟩,
        fun _ => trivial⟩
      exact @Volume.hasLeft_take _ k ((s.inodes k).fresh inodeFile (UInt32.ofNat data.length) b)
        (by simp [Inode.fresh]) (allocInodeRaw_free hk) (allocBlockRaw_free hb) n

/-- With the `sys` directory, two of each. -/
theorem writeSysFile_left (hp : dev.Perfect) (h : Inv stray s.toVolume)
    (hmiss : ∀ i k, ¬ Hit (s.dirAt 0) s.inodes sysName inodeDir i k) (filename : CStr)
    (data : List UInt8) :
    wp (writeSysFile dev filename data)
      (fun _ s' => ∀ n, s'.toVolume.HasLeft n ↔ s.toVolume.HasLeft (n + 2)) (fun _ => True)
      (fun _ => True) s := by
  have hroot : isDirInode s.toVolume 0 := h.isDirInode h.linked.root.1
  simp only [writeSysFile, readRootDirBlock, wp_bind, h.wp_ensureRootDirBlock, wp_get, wp_require]
  refine ⟨fun _ => hp.loadScratch_step fun s₁ hv₁ hb₁ => ?_, fun _ => trivial⟩
  refine wp_mono (ensureSysDir_spec hp (hv₁ ▸ h) (by rw [hb₁, hv₁, Volume.disk_sectorOf])) ?_
    (fun _ _ => trivial) (fun _ _ => trivial)
  rw [hv₁]
  rintro d s₂ (⟨⟨i, hit⟩, -⟩ | ⟨j, b, hk, hb, henter, hv₂, hb₂⟩)
  · exact (hmiss i d hit).elim
  · obtain ⟨htake, hk0⟩ := h.canTake hk hb (.inr rfl) (show (0 : UInt32).toNat ≤ 512 by decide)
    have hleft : ∀ n, s₂.toVolume.HasLeft n ↔ s.toVolume.HasLeft (n + 1) := by
      intro n
      rw [hv₂]
      exact Volume.hasLeft_take htake.used (allocInodeRaw_free hk) (allocBlockRaw_free hb) n
    have hmade : s₂.toVolume.setSector (s₂.sectorOf 0) s₂.blockScratch =
        s.toVolume.create 0 j sysName d ((s.inodes d).fresh inodeDir 0 b) Bytes.zero := by
      rw [hv₂, hb₂]
      simp [Volume.create, Volume.take, Volume.setData, Volume.sectorOf_eq, hk0.symm, Inode.fresh]
    simp only [hp.wp_write, hp.wp_loadScratch2]
    refine wp_mono (writeSysEntry_left hp (fun i k hit => ?_) data) ?_ (fun _ h => h)
      (fun _ h => h)
    · -- the directory that was just made lists nothing
      have hentry := hit.entry
      change (s₂.toVolume.setSector (s₂.sectorOf 0) s₂.blockScratch).dirAt d i = _ at hentry
      rw [hmade, dirAt_create_self h h.rootLive htake, listing_zero] at hentry
      cases hentry
    · intro _ s₃ hleft' n
      rw [hleft']
      exact hleft (n + 1)

/-- A `sys` directory that was made for one file has no other. -/
theorem SysStored.alone (h : Inv stray v) (hmiss : ∀ i k, ¬ Hit (v.dirAt 0) v.inodes sysName
      inodeDir i k) {filename : CStr} {size : UInt32} {content : Block}
    (hst : SysStored stray v filename size content v') :
    ∃ i d, Hit (v'.dirAt 0) v'.inodes sysName inodeDir i d ∧ (∃ j, v'.dirAt d j = none) ∧
      ∀ name, name ≠ filename → ∀ j k, ¬ Hit (v'.dirAt d) v'.inodes name inodeFile j k := by
  obtain ⟨-, v₁, d, hs, hst⟩ := hst
  obtain ⟨hinv, hd⟩ := hs.inv h
  obtain ⟨i, hit⟩ := hs.hit h
  have hempty : v₁.dirAt d = fun _ => none := by
    rcases hs with ⟨⟨i, hit⟩, -⟩ | ⟨j, b, -, -, htake, -, -, rfl⟩
    · exact (hmiss i d hit).elim
    · rw [dirAt_create_self h h.rootLive htake, listing_zero]
  have hnone : ∀ {name : CStr} {j k}, ¬ Hit (v₁.dirAt d) v₁.inodes name inodeFile j k := by
    intro name j k hit
    have := hit.entry
    rw [hempty] at this
    cases this
  rcases hst with ⟨j, k, b, htake, henter, hk0, rfl⟩ | ⟨j, k, hit, -⟩
  · have hinv' : Inv stray (v₁.create d j filename k ((v₁.inodes k).fresh inodeFile size b)
        content) :=
      hinv.create htake henter hk0 fun ht => absurd ht (show inodeFile ≠ inodeDir by decide)
    have kept : ∀ {x}, Kept stray v₁.inodes x → Kept stray (v₁.create d j filename k
        ((v₁.inodes k).fresh inodeFile size b) content).inodes x := fun {x} hx =>
      (Inv.kept_create (by
        rintro rfl
        exact htake.unused hx.1.1)).mpr hx
    refine ⟨i, d, ?_, ?_, fun name hne j' k' hit' => ?_⟩
    · rw [hinv'.hit_flush (kept hinv.linked.root), hinv.hit_create htake henter hinv.linked.root]
      exact .inl hit
    · obtain ⟨j', hj'⟩ := exists_ne j
      refine ⟨j', ?_⟩
      rw [Volume.dirAt, hinv'.blockOf_flush (kept hd).1.1]
      change (v₁.create d j filename k _ content).dirAt d j' = none
      rw [hinv.dirAt_create htake henter hd.1.1, assign_same, assign_of_ne _ _ hj', hempty]
    · rw [hinv'.hit_flush (kept hd), hinv.hit_create htake henter hd] at hit'
      rcases hit' with hit' | ⟨-, -, -, heq, -⟩
      · exact hnone hit'
      · exact hne heq
  · exact (hnone hit).elim

theorem SysStored.canStoreSys (h : Inv stray v) (hmiss : ∀ i k, ¬ Hit (v.dirAt 0) v.inodes sysName
      inodeDir i k) {filename : CStr} {size : UInt32} {content : Block} (h' : Inv stray v')
    (hst : SysStored stray v filename size content v') {name : CStr} (hne : name ≠ filename) :
    v'.CanStoreSys name ↔ v'.HasLeft 1 := by
  obtain ⟨i, d, hit, hslot, habsent⟩ := hst.alone h hmiss
  rw [Volume.hasLeft_one]
  constructor
  · rintro (⟨i', d', hit', hstore⟩ | ⟨hroom, -⟩)
    · obtain ⟨-, rfl⟩ := h'.hit_unique h'.linked.root hit hit'
      exact (hstore.room (habsent name hne)).alloc
    · exact (hroom.absent i d hit).elim
  · exact fun halloc => .inl ⟨i, d, hit, .inr ⟨habsent name hne, hslot, halloc⟩⟩

theorem Inv.root_empty (h : Inv stray v) (halone : ∀ i, Live v.inodes i → i = 0) (j : Slot) :
    v.dirAt 0 j = none := by
  cases he : v.dirAt 0 j with
  | none => rfl
  | some e =>
      obtain ⟨name, n⟩ := e
      obtain ⟨k, rfl, -⟩ := h.linked.names 0 j name n h.linked.root he
      obtain ⟨hk0, hk, -⟩ := h.linked.named h.linked.root he
      exact (hk0 (halone k hk)).elim

theorem Inv.root_misses (h : Inv stray v) (halone : ∀ i, Live v.inodes i → i = 0) (name : CStr)
    (type : UInt8) (i : Slot) (k : InodeNo) : ¬ Hit (v.dirAt 0) v.inodes name type i k := by
  intro hit
  have hentry := hit.entry
  rw [h.root_empty halone] at hentry
  cases hentry

theorem Inv.canStoreSys_alone (h : Inv stray v) (halone : ∀ i, Live v.inodes i → i = 0)
    (filename : CStr) : v.CanStoreSys filename ↔ v.HasLeft 2 := by
  have hmiss := h.root_misses halone sysName inodeDir
  rw [Volume.CanStoreSys, ← Volume.hasLeft_two]
  constructor
  · rintro (⟨i, d, hit, -⟩ | ⟨-, htwo⟩)
    · exact (hmiss i d hit).elim
    · exact htwo
  · exact fun htwo => .inr ⟨⟨hmiss, ⟨0, h.root_empty halone 0⟩,
      Volume.hasLeft_one.mp (htwo.mono (by omega))⟩, htwo⟩

/-! ## Formatting -/

/-- The inodes there are in the end: `fs_format` cuts the number down, and the allocator takes 0
for all. -/
def formatInodes (inodeCount : UInt32) : UInt32 :=
  if inodeCount = 0 ∨ fsMaxInodes < inodeCount then fsMaxInodes else inodeCount

theorem inodeLimit_format (dev : Device) (totalBlocks inodeCount : UInt32) :
    inodeLimit (formatSuperblock (formatBlocks dev totalBlocks)
        (if fsMaxInodes < inodeCount then fsMaxInodes else inodeCount)) =
      formatInodes inodeCount := by
  rw [inodeLimit, formatInodes, formatSuperblock]
  grind

/-- The `sys` directory and its two files take three, and without them the volume stands as
well. -/
theorem writeSysFiles_decides (hp : dev.Perfect) (h : Sound stray s.toVolume)
    (halone : ∀ i, Live s.inodes i → i = 0) :
    wp (do
        writeStatusFlag dev 0xFF
        writeSysFile dev passwdName (hashBytes (fnv1a32 defaultPassword))
        Prog.modify fun s => { s with lastError := .none, mounted := true })
      (fun _ s' => s.toVolume.HasLeft 3 ∧ Headed s'.toVolume)
      (fun s' => ¬ s.toVolume.HasLeft 3 ∧ Headed s'.toVolume) (fun _ => False) s := by
  have hmiss := h.inv.root_misses halone sysName inodeDir
  have hlen : (hashBytes (fnv1a32 defaultPassword)).length ≤ 512 := by
    change 4 ≤ 512
    decide
  -- a refused call leaves a volume of which the same is known
  have left : ∀ {stray' : InodeNo → Prop} {v v' : Volume} {leaks : Prop}, Sound stray' v →
      ¬ leaks ∧ v' = v ∨ leaks ∧ SysLeft stray' v v' → Headed v' := by
    rintro stray' v v' leaks hv (⟨-, rfl⟩ | ⟨-, hleft⟩)
    · exact hv.headed
    · obtain ⟨stray'', -, hs⟩ := hv.sysLeft hleft
      exact hs.headed
  refine wp_call (wp_and (wp_and (writeSysFile_decides hp h.inv ⟨by decide, by decide⟩ (by decide))
    (writeSysFile_spec hp h.inv (by decide) (by decide) (by decide)))
    (wp_mono (writeSysFile_left hp h.inv hmiss statusName [0xFF]) (fun _ _ h => h) (fun _ h => h)
      fun _ h => h)) ?_ ?_ (fun _ h => h.1.1)
  · rintro - s₁ ⟨⟨-, hstatus⟩, hcount⟩
    have h₁ := (SysStored.flushed h (show (1 : UInt32).toNat ≤ 512 by decide) hstatus).sound
    have hstore : s₁.toVolume.CanStoreSys passwdName ↔ s₁.toVolume.HasLeft 1 :=
      SysStored.canStoreSys h.inv hmiss h₁.inv hstatus (by decide)
    rw [wp_bind]
    refine wp_mono (wp_and (writeSysFile_decides hp h₁.inv ⟨by decide, by decide⟩ hlen)
      (writeSysFile_spec hp h₁.inv (by decide) (by decide) hlen)) ?_ ?_ fun _ h => h.1
    · rintro _ s₂ ⟨hstored, hpasswd⟩
      have h₂ := (SysStored.flushed h₁ (show (4 : UInt32).toNat ≤ 512 by decide) hpasswd).sound
      exact ⟨(hcount 1).mp (hstore.mp hstored), h₂.mount.headed⟩
    · rintro s₂ ⟨hno, hleft⟩
      exact ⟨fun hthree => hno (hstore.mpr ((hcount 1).mpr hthree)), left h₁ hleft⟩
  · rintro s₁ ⟨⟨hno, hleft⟩, -⟩
    exact ⟨fun hthree => hno ((h.inv.canStoreSys_alone halone statusName).mpr
      (hthree.mono (by omega))), left h hleft⟩

/-- It takes four inodes, four blocks and block 0. Without a block for the root the disk is as
it was, else it has a superblock that is accepted. -/
theorem fsFormat_decides (hp : dev.Perfect) (totalBlocks inodeCount : UInt32) :
    wp (fsFormat dev totalBlocks inodeCount)
      (fun _ s' => (5 ≤ (formatBlocks dev totalBlocks).toNat ∧
        4 ≤ (formatInodes inodeCount).toNat) ∧ Headed s'.toVolume)
      (fun s' => ¬ (5 ≤ (formatBlocks dev totalBlocks).toNat ∧
          4 ≤ (formatInodes inodeCount).toNat) ∧
        (2 ≤ (formatBlocks dev totalBlocks).toNat ∧ Headed s'.toVolume ∨
          (formatBlocks dev totalBlocks).toNat < 2 ∧ s'.disk = s.disk))
      (fun _ => False) s := by
  have hcount := formatBlocks_bounds dev totalBlocks
  rw [fsFormat, wp_bind, wp_modify, wp_bind, wp_modifyInode]
  refine wp_call (wp_and (formatRoot_spec hp ⟨rfl, rfl, rfl⟩ hcount rfl rfl (by simp) rfl rfl rfl)
    (formatRoot_left hp hcount rfl rfl rfl)) ?_ ?_ (fun _ h => h.1)
  · rintro - s₁ ⟨⟨hinv, hsb, halone⟩, hleft⟩
    have hfirst : Sound (fun _ => False)
        (s₁.toVolume.setSector fsSuperLba (s₁.sb.encode (dev.pastSb s₁))).flush := by
      refine Sound.flush ⟨hinv.setSuperblock _, ?_, ?_, ?_⟩
      · simp only [Volume.setSector, assign_same, Superblock.decode_encode]
      · rw [Volume.sb_setSector, hsb]
        rfl
      · rw [Volume.sb_setSector, hsb]
        rfl
    have hroot := ((hleft 0).mp ⟨Nat.zero_le _, Nat.zero_le _⟩).2
    have hthree := hleft 3
    change _ ↔ 4 ≤ (inodeLimit (formatSuperblock (formatBlocks dev totalBlocks) _)).toNat ∧
      5 ≤ (formatBlocks dev totalBlocks).toNat at hthree
    rw [inodeLimit_format, and_comm] at hthree
    rw [← hthree, wp_bind, writeSuperblock, wp_bind, wp_get, hp.wp_write, wp_bind, flushBitmap,
      wp_bind, wp_get, hp.wp_writeSectors, wp_bind, flushInodes, wp_bind, wp_get,
      hp.wp_writeSectors]
    refine wp_mono (writeSysFiles_decides hp (show Sound (fun _ => False) _ from ?_) ?_) ?_ ?_
      fun _ h => h
    · exact hfirst
    · exact halone
    · exact fun _ _ h => h
    · exact fun _ h => ⟨h.1, .inl ⟨hroot, h.2⟩⟩
  · rintro s₁ ⟨-, hsmall, rfl⟩
    change (formatBlocks dev totalBlocks).toNat < 2 at hsmall
    exact ⟨by omega, .inr ⟨hsmall, rfl⟩⟩

/-- Whether a disk can be formatted depends on its size alone. A disk on which it is refused keeps
what is on it when not even the root gets a block; else what was there is gone, and the next
mount finds a volume. -/
theorem fsFormat_returns (hp : dev.Perfect) (totalBlocks inodeCount : UInt32) (s : Fs) :
    ((fsFormat dev totalBlocks inodeCount s).1 = .ok () ↔
        5 ≤ (formatBlocks dev totalBlocks).toNat ∧ 4 ≤ (formatInodes inodeCount).toNat) ∧
      ((fsFormat dev totalBlocks inodeCount s).1 = .refused ↔
        ¬ (5 ≤ (formatBlocks dev totalBlocks).toNat ∧ 4 ≤ (formatInodes inodeCount).toNat)) ∧
      ((formatBlocks dev totalBlocks).toNat < 2 →
        (fsFormat dev totalBlocks inodeCount s).2.disk = s.disk) ∧
      (2 ≤ (formatBlocks dev totalBlocks).toNat →
        (fsInit dev (fsFormat dev totalBlocks inodeCount s).2).1 = .ok ()) := by
  have mounts : ∀ {s' : Fs}, Headed s'.toVolume → (fsInit dev s').1 = .ok () := fun hhead =>
    wp_outcome (wp_mono (fsInit_spec hp hhead rfl) (fun _ _ _ => rfl) (fun _ hno => hno.elim)
      fun _ hno => hno.elim)
  generalize hrun : fsFormat dev totalBlocks inodeCount s = r
  obtain ⟨o, s'⟩ := r
  rcases wp_run (fsFormat_decides hp totalBlocks inodeCount) hrun with
    ⟨_, rfl, hroom, hhead⟩ | ⟨rfl, hno, hleft⟩ | ⟨-, hno⟩
  · exact ⟨by simp [hroom], by simp [hroom], fun hlt => by omega, fun _ => mounts hhead⟩
  · refine ⟨by simp [hno], by simp [hno], fun hlt => ?_, fun hle => ?_⟩
    · rcases hleft with ⟨hle, -⟩ | ⟨-, hdisk⟩
      · omega
      · exact hdisk
    · rcases hleft with ⟨-, hhead⟩ | ⟨hlt, -⟩
      · exact mounts hhead
      · omega
  · exact hno.elim

/-- Three blocks are not enough, and are mounted all the same. -/
theorem fsFormat_returns_three :
    (fsFormat .working 3 64 (.booted fun _ => Bytes.zero)).1 = .refused ∧
      (fsInit .working (fsFormat .working 3 64 (.booted fun _ => Bytes.zero)).2).1 = .ok () := by
  obtain ⟨-, hrefused, -, hmounts⟩ :=
    fsFormat_returns Device.working_perfect 3 64 (.booted fun _ => Bytes.zero)
  exact ⟨hrefused.mpr (by decide), hmounts (by decide)⟩

end SevenOS
