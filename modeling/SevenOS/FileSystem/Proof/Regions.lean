import SevenOS.FileSystem.Remount
import SevenOS.FileSystem.Exports
import SevenOS.FileSystem.Proof.Faults

/-! # Sectors a call may touch

A volume whose block pointers agree with the bitmap, in memory as well as on the
disk, sends every transfer into its own region: the tables to sectors 128 to 144,
blocks to the sectors behind them. Directory blocks may hold anything. The only
place where an inode is used after another one was zeroed is a recursive removal,
which therefore gets the longest argument.
-/

namespace SevenOS

open Prog

variable {dev : Device} {n : Nat} {start : List Transfer} {v v' : Volume} {s : Fs} {α β : Type}

/-- The sectors of a disk of `n` that a transfer may touch. A buffer of 512 bytes is a
block, any other one holds a table. -/
structure Transfer.Within (n : Nat) (t : Transfer) : Prop where
  first : 128 ≤ t.lba.toNat
  last : t.lba.toNat + t.sectors ≤ n
  tables : t.object ≠ 512 → t.lba.toNat + t.sectors ≤ 145
  blocks : t.object = 512 → 146 ≤ t.lba.toNat

/-- A disk that does not fail and has room for the blocks that `fs_format(0, _)` gives it. -/
structure Device.Roomy (dev : Device) (n : Nat) : Prop extends dev.Perfect where
  room : 145 + (formatBlocks dev 0).toNat ≤ n

theorem Device.Roomy.tables_within (hd : dev.Roomy n) {sectors object : Nat} {lba : UInt32}
    (hfirst : 128 ≤ lba.toNat) (hlast : lba.toNat + sectors ≤ 145) (ho : object ≠ 512)
    (write : Bool) : Transfer.Within n ⟨write, lba, sectors, object⟩ := by
  have hroom := hd.room
  exact ⟨hfirst, by dsimp only; omega, fun _ => hlast, fun heq => (ho heq).elim⟩

theorem Volume.Layout.dataSector_within (h : v.Layout) {b : UInt32} (hd : dev.Roomy n)
    (hcount : v.sb.blockCount = formatBlocks dev 0) (hpos : 1 ≤ b.toNat)
    (hlt : b.toNat < v.sb.blockCount.toNat) (write : Bool) :
    Transfer.Within n ⟨write, v.dataSector b, 1, 512⟩ := by
  have hroom := hd.room
  have hle := (formatBlocks_bounds dev 0).2
  rw [hcount] at hlt
  have hsector := h.dataSector_toNat (Nat.lt_of_lt_of_le hlt hle)
  refine ⟨?_, ?_, fun hno => (hno rfl).elim, fun _ => ?_⟩
  · change 128 ≤ (v.dataSector b).toNat
    omega
  · change (v.dataSector b).toNat + 1 ≤ n
    omega
  · change 146 ≤ (v.dataSector b).toNat
    omega

theorem Volume.Layout.flush_within (h : v.Layout) (hd : dev.Roomy n) :
    Transfer.Within n ⟨true, v.sb.bitmapLba, fsBitmapSectors, 4096⟩ ∧
      Transfer.Within n ⟨true, v.sb.inodeTableLba, fsInodeTableSectors, 4096⟩ := by
  rw [h.bitmapLba, h.inodeTableLba]
  exact ⟨hd.tables_within (by decide) (by decide) (by decide) true,
    hd.tables_within (by decide) (by decide) (by decide) true⟩

/-- The tables in memory and those on the disk both tie blocks to inodes. -/
structure Mapped (dev : Device) (v : Volume) : Prop where
  layout : v.Layout
  sane : Sane v
  count : v.sb.blockCount = formatBlocks dev 0
  headed : Headed v
  stored : Sane v.reload

namespace Mapped

theorem of_flush (hlayout : v.Layout) (hs : Sane v)
    (hcount : v.sb.blockCount = formatBlocks dev 0) (hhead : Headed v) : Mapped dev v.flush := by
  refine ⟨⟨hlayout.1, hlayout.2, hlayout.3⟩, hs.of_tables rfl rfl rfl, hcount,
    (hhead.flush hlayout).toHeaded, hs.of_tables rfl ?_ ?_⟩
  · exact hlayout.bitmapOnDisk_flush
  · exact funext v.inodeOnDisk_flush

variable (h : Mapped dev v)

include h

theorem of_sane (hs : Sane v') (hsb : v'.sb = v.sb) (hdisk : v'.disk = v.disk) : Mapped dev v' := by
  refine ⟨⟨?_, ?_, ?_⟩, hs, ?_, ⟨?_, ?_, ?_⟩, ?_⟩
  · rw [hsb]
    exact h.layout.bitmapLba
  · rw [hsb]
    exact h.layout.inodeTableLba
  · rw [hsb]
    exact h.layout.dataLba
  · rw [hsb]
    exact h.count
  · rw [hsb, hdisk]
    exact h.headed.superblock
  · rw [hsb]
    exact h.headed.magic
  · rw [hsb]
    exact h.headed.blockSize
  · refine h.stored.of_tables hsb ?_ ?_
    · change v'.bitmapOnDisk = v.bitmapOnDisk
      unfold Volume.bitmapOnDisk
      rw [hsb, hdisk]
    · change v'.inodeOnDisk = v.inodeOnDisk
      unfold Volume.inodeOnDisk
      rw [hsb, hdisk]

theorem setData {b : UInt32} (hb : b.toNat < 32768) (x : Block) : Mapped dev (v.setData b x) := by
  refine ⟨⟨h.layout.1, h.layout.2, h.layout.3⟩, h.sane.of_tables rfl rfl rfl, h.count,
    h.headed.setData h.layout hb x, h.stored.of_tables rfl ?_ ?_⟩
  · exact h.layout.bitmapOnDisk_setData hb x
  · exact funext (h.layout.inodeOnDisk_setData hb x)

/-- An inode is zeroed, its block given back and overwritten. -/
theorem erased {k : InodeNo} (hk0 : k ≠ 0) (hk : Live v.inodes k) :
    Mapped dev (((v.freeBlock (v.inodes k).direct0).setData (v.inodes k).direct0
      Bytes.zero).putInode k Inode.zero) :=
  (h.setData (h.sane.alloc.blockBound hk) Bytes.zero).of_sane
    ((h.sane.release hk0 hk).of_tables rfl rfl rfl) rfl rfl

theorem flush : Mapped dev v.flush := .of_flush h.layout h.sane h.count h.headed

theorem reload : Mapped dev v.reload :=
  ⟨⟨h.layout.1, h.layout.2, h.layout.3⟩, h.stored, h.count,
    ⟨h.headed.superblock, h.headed.magic, h.headed.blockSize⟩, h.stored.of_tables rfl rfl rfl⟩

theorem live_of_direct0 {i : InodeNo} (hi : (v.inodes i).direct0 ≠ 0) : Live v.inodes i := by
  by_contra hdead
  rw [h.sane.alloc.unused i hdead] at hi
  exact hi rfl

theorem live_of_type {i : InodeNo} (hi : (v.inodes i).type ≠ 0) : Live v.inodes i := by
  by_contra hdead
  rw [h.sane.alloc.unused i hdead] at hi
  exact hi rfl

theorem dataSector_within {b : UInt32} (hd : dev.Roomy n) (hpos : 1 ≤ b.toNat)
    (hlt : b.toNat < v.sb.blockCount.toNat) (write : Bool) :
    Transfer.Within n ⟨write, v.dataSector b, 1, 512⟩ :=
  h.layout.dataSector_within hd h.count hpos hlt write

theorem sectorOf_within {i : InodeNo} (hd : dev.Roomy n) (hi : (v.inodes i).direct0 ≠ 0)
    (write : Bool) : Transfer.Within n ⟨write, v.sectorOf i, 1, 512⟩ :=
  have hlive := h.live_of_direct0 hi
  h.dataSector_within hd (h.sane.alloc.blockPos i hlive) (h.sane.alloc.blockLt i hlive) write

end Mapped

/-! ## What is noted -/

/-- Every transfer since `start` was in its region. -/
def Logged (n : Nat) (start : List Transfer) (s : Fs) : Prop :=
  ∃ added, s.log = start ++ added ∧ ∀ t ∈ added, t.Within n

theorem Logged.note (h : Logged n start s) {t : Transfer} (ht : t.Within n) :
    Logged n start (s.noted t) := by
  obtain ⟨added, hlog, hadded⟩ := h
  refine ⟨added ++ [t], ?_, ?_⟩
  · change s.log ++ [t] = _
    rw [hlog, List.append_assoc]
  · intro u hu
    rcases List.mem_append.mp hu with hu | hu
    · exact hadded u hu
    · rw [List.mem_singleton.mp hu]
      exact ht

structure Confined (dev : Device) (n : Nat) (start : List Transfer) (s : Fs) : Prop where
  mapped : Mapped dev s.toVolume
  noted : Logged n start s

namespace Confined

variable (h : Confined dev n start s)

include h

theorem note {t : Transfer} (ht : t.Within n) : Confined dev n start (s.noted t) :=
  ⟨h.mapped, h.noted.note ht⟩

theorem setVolume (hv : Mapped dev v) : Confined dev n start (s.setVolume v) := ⟨hv, h.noted⟩

theorem setScratch (b : Block) : Confined dev n start (s.setScratch b) := ⟨h.mapped, h.noted⟩

theorem setScratch2 (b : Block) : Confined dev n start (s.setScratch2 b) := ⟨h.mapped, h.noted⟩

end Confined

/-- The program keeps to the regions, however it ends. -/
def KeepsConfined (dev : Device) (n : Nat) (start : List Transfer) (m : FsM α) : Prop :=
  Keeps (Confined dev n start) m

/-- However the program ends from here, it has kept to the regions. -/
abbrev EndsConfined (dev : Device) (n : Nat) (start : List Transfer) (m : FsM α) (s : Fs) : Prop :=
  Ends (Confined dev n start) m s

section Steps

variable (hd : dev.Roomy n) {Q : Unit → Fs → Prop} {R D : Fs → Prop}

section Transfers

include hd

theorem Confined.read (h : Confined dev n start s) {i : InodeNo} (hi : (s.inodes i).direct0 ≠ 0)
    {Q : Block → Fs → Prop}
    (hQ : ∀ s', Confined dev n start s' → s'.toVolume = s.toVolume → Q (s.blockOf i) s') :
    wp (diskReadLba dev 512 (s.sectorOf i)) Q R D s := by
  rw [hd.wp_read]
  exact hQ _ (h.note (h.mapped.sectorOf_within hd hi false)) rfl

theorem Confined.load (h : Confined dev n start s) {i : InodeNo} (hi : (s.inodes i).direct0 ≠ 0)
    (hQ : ∀ s', Confined dev n start s' → s'.toVolume = s.toVolume → Q () s') :
    wp (loadScratch dev (s.sectorOf i)) Q R D s := by
  rw [hd.wp_loadScratch]
  exact hQ _ ((h.note (h.mapped.sectorOf_within hd hi false)).setScratch _) rfl

theorem Confined.load2 (h : Confined dev n start s) {i : InodeNo}
    (hi : (s.inodes i).direct0 ≠ 0)
    (hQ : ∀ s', Confined dev n start s' → s'.toVolume = s.toVolume → Q () s') :
    wp (loadScratch2 dev (s.sectorOf i)) Q R D s := by
  rw [hd.wp_loadScratch2]
  exact hQ _ ((h.note (h.mapped.sectorOf_within hd hi false)).setScratch2 _) rfl

theorem Confined.writeData (h : Confined dev n start s) {a : UInt32} (hpos : 1 ≤ a.toNat)
    (hlt : a.toNat < s.sb.blockCount.toNat) (b : Block)
    (hQ : ∀ s', Confined dev n start s' → s'.toVolume = s.toVolume.setData a b → Q () s') :
    wp (diskWriteLba dev 512 (s.dataSector a) b) Q R D s := by
  rw [hd.wp_write]
  refine hQ _ ((h.note (h.mapped.dataSector_within hd hpos hlt true)).setVolume ?_) rfl
  exact h.mapped.setData (Nat.lt_of_lt_of_le hlt h.mapped.sane.alloc.countLe) b

theorem Confined.write (h : Confined dev n start s) {i : InodeNo} (hi : (s.inodes i).direct0 ≠ 0)
    (b : Block) (hQ : ∀ s', Confined dev n start s' →
      s'.toVolume = s.toVolume.setData (s.inodes i).direct0 b → Q () s') :
    wp (diskWriteLba dev 512 (s.sectorOf i) b) Q R D s :=
  have hlive := h.mapped.live_of_direct0 hi
  h.writeData hd (h.mapped.sane.alloc.blockPos i hlive) (h.mapped.sane.alloc.blockLt i hlive) b hQ

theorem KeepsConfined.flushTables : KeepsConfined dev n start (flushTables dev) := fun s h => by
  rw [hd.wp_flushTables]
  obtain ⟨hbitmap, hinodes⟩ := h.mapped.layout.flush_within hd
  exact ((h.note hbitmap).note hinodes).setVolume h.mapped.flush

theorem Confined.store (h : Confined dev n start s) {d : InodeNo}
    (hdir : (s.inodes d).direct0 ≠ 0) (b : Block) : EndsConfined dev n start (do
      diskWriteLba dev 512 (s.sectorOf d) b
      SevenOS.flushTables dev) s := by
  rw [EndsConfined, Ends, wp_bind]
  exact h.write hd hdir b fun s' h' _ => KeepsConfined.flushTables hd s' h'

theorem Confined.storeTwo (h : Confined dev n start s) {d k : InodeNo}
    (hdir : (s.inodes d).direct0 ≠ 0) (hk : (s.inodes k).direct0 ≠ 0) (b c : Block) :
    EndsConfined dev n start (do
      diskWriteLba dev 512 (s.sectorOf d) b
      diskWriteLba dev 512 (s.sectorOf k) c
      SevenOS.flushTables dev) s := by
  rw [EndsConfined, Ends, wp_bind]
  refine h.write hd hdir b fun s' h' hv => ?_
  have hsector : s.sectorOf k = s'.sectorOf k := by rw [hv]; rfl
  rw [hsector]
  exact h'.store hd (by rw [hv]; exact hk) c

end Transfers

/-- An inode and a block are taken. What had a block still has one. -/
theorem Confined.taken (h : Confined dev n start s) {k : InodeNo} {b : UInt32}
    (hk : allocInodeRaw s.toVolume = some k) (hb : allocBlockRaw s.toVolume = some b)
    {type : UInt8} (ht : type = inodeFile ∨ type = inodeDir) {size : UInt32}
    (hsize : size.toNat ≤ 512) {s' : Fs}
    (hs' : s' = s.setVolume (s.toVolume.take k ((s.inodes k).fresh type size b))) :
    Confined dev n start s' ∧
      ∀ i, i = k ∨ (s.inodes i).direct0 ≠ 0 → (s'.inodes i).direct0 ≠ 0 := by
  subst hs'
  have hsane := h.mapped.sane.take hk hb ht hsize
  refine ⟨h.setVolume (h.mapped.of_sane hsane rfl rfl), fun i hi => hsane.direct0_ne ?_⟩
  by_cases hik : i = k
  · simp [Live, Volume.take, hik, Inode.fresh]
  · simpa [Live, Volume.take, hik] using h.mapped.live_of_direct0 (hi.resolve_left hik)

theorem Confined.take_step (h : Confined dev n start s) {k : InodeNo} {b : UInt32}
    (hk : allocInodeRaw s.toVolume = some k) (hb : allocBlockRaw s.toVolume = some b)
    {type : UInt8} (ht : type = inodeFile ∨ type = inodeDir) {size : UInt32}
    (hsize : size.toNat ≤ 512) {m : FsM α}
    (hm : ∀ s', Confined dev n start s' →
      (∀ i, i = k ∨ (s.inodes i).direct0 ≠ 0 → (s'.inodes i).direct0 ≠ 0) →
      (s'.inodes k).direct0 = b → EndsConfined dev n start m s') :
    EndsConfined dev n start
      (do markBlockUsed b; modifyInode k (fun ino => ino.fresh type size b); m) s := by
  obtain ⟨h', hpointed⟩ := h.taken hk hb ht hsize rfl
  rw [EndsConfined, Ends, wp_bind, wp_markBlockUsed, wp_bind, wp_modifyInode]
  exact hm _ h' hpointed (by simp [Inode.fresh])

theorem Confined.resize_step (h : Confined dev n start s) {k : InodeNo} {size : UInt32}
    (hsize : size.toNat ≤ 512) (hk : Live s.inodes k) {m : FsM α}
    (hm : ∀ s', Confined dev n start s' →
      (∀ i, (s'.inodes i).direct0 = (s.inodes i).direct0) → EndsConfined dev n start m s') :
    EndsConfined dev n start (do modifyInode k (fun ino => { ino with size := size }); m) s := by
  rw [EndsConfined, Ends, wp_bind, wp_modifyInode]
  refine hm _ (h.setVolume (h.mapped.of_sane (h.mapped.sane.resize hk hsize) rfl rfl)) ?_
  intro i
  by_cases hik : i = k
  · subst hik
    simp
  · simp [hik]

end Steps

end SevenOS
