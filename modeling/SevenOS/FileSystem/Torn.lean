import SevenOS.FileSystem.LeftAlone

/-! # Writes that do not reach the disk

When power fails in the middle of a call, some of its sectors are on the disk and some are
not. What a file needs to be found and read again is therefore kept sector by sector: if
every write of a call leaves it there, it is there whichever of the writes came through.
-/

namespace SevenOS

open Prog

variable {dev : Device} {fails : Fs → UInt32 → Bool} {stray unflushed : InodeNo → Prop}
  {v w : Volume} {p : CStr} {s : Fs}

/-- The device when the writes that `fails` picks do not reach their sector. -/
def Device.cut (dev : Device) (fails : Fs → UInt32 → Bool) : Device :=
  { dev with writeFault := fun s lba => if fails s lba then some (s.disk lba) else none }

theorem Device.Perfect.cut_readable (hp : dev.Perfect) (fails : Fs → UInt32 → Bool) :
    (dev.cut fails).Readable := hp.reads

/-! ## The way to a file -/

structure Waypoint where
  dir : InodeNo
  slot : Slot
  name : CStr
  type : UInt8
  inode : InodeNo

/-- The entries that lead to the file at `p`: its own, and that of its directory. -/
structure Way (stray : InodeNo → Prop) (v : Volume) (p : CStr) where
  points : List Waypoint
  inv : Inv stray v
  kept : ∀ e ∈ points, Kept stray v.inodes e.dir
  hit : ∀ e ∈ points, Hit (v.dirAt e.dir) v.inodes e.name e.type e.slot e.inode
  joined : ∀ e ∈ points, e.dir = 0 ∨ ∃ e' ∈ points, e'.dir = 0 ∧ e'.inode = e.dir
  dirs : ∀ e ∈ points, e.type = inodeDir → e.dir = 0 ∧ topName p = some e.name
  files : ∀ e ∈ points, e.type = inodeFile → v.Parent p e.dir e.name

namespace Way

def ofRoot (h : Inv stray v) (hsplit : splitPath p = none) {j : Slot} {k : InodeNo}
    (hf : Hit (v.dirAt 0) v.inodes p inodeFile j k) : Way stray v p where
  points := [⟨0, j, p, inodeFile, k⟩]
  inv := h
  kept := by simpa using h.linked.root
  hit := by simpa using hf
  joined := by simp
  dirs := by simp [inodeFile, inodeDir]
  files := by simpa using Volume.Parent.ofRoot hsplit

def ofDir (h : Inv stray v) {dirname name : CStr} (hsplit : splitPath p = some (dirname, name))
    {i j : Slot} {d k : InodeNo} (hf : v.FileIn dirname name i d j k) : Way stray v p where
  points := [⟨0, i, dirname, inodeDir, d⟩, ⟨d, j, name, inodeFile, k⟩]
  inv := h
  kept := by simpa using ⟨h.linked.root, h.keptDir h.linked.root hf.dir⟩
  hit := by simpa using ⟨hf.dir, hf.file⟩
  joined := by simp
  dirs := by simp [topName, hsplit, inodeFile, inodeDir]
  files := by
    have hparent : v.Parent p d name := .ofDir hsplit hf.dir
    simpa [inodeFile, inodeDir] using hparent

variable (way : Way stray v p)

/-- The root, and the inodes that the way leads through and to. -/
def Holds (i : InodeNo) : Prop := i = 0 ∨ ∃ e ∈ way.points, e.inode = i

variable {way} {i k d : InodeNo} {e : Waypoint}

theorem holds_inode (he : e ∈ way.points) : way.Holds e.inode := .inr ⟨e, he, rfl⟩

theorem holds_dir (he : e ∈ way.points) : way.Holds e.dir := by
  rcases way.joined e he with hroot | ⟨e', he', -, hinode⟩
  · exact .inl hroot
  · exact .inr ⟨e', he', hinode⟩

theorem Holds.live (h : way.Holds i) : Live v.inodes i ∧ ¬ stray i := by
  rcases h with rfl | ⟨e, he, rfl⟩
  · exact ⟨way.inv.rootLive, way.inv.linked.root.2⟩
  · exact (way.inv.named (way.kept e he) (way.hit e he)).2

theorem Holds.eq_of_sector (hi : way.Holds i) (hk : way.Holds k)
    (heq : v.sectorOf i = v.sectorOf k) : i = k := by
  by_contra hne
  exact way.inv.sectorOf_ne hi.live.1 hk.live.1 hne heq

theorem type_cases (he : e ∈ way.points) : e.type = inodeFile ∨ e.type = inodeDir := by
  have hit := way.hit e he
  rw [← hit.type]
  exact way.inv.alloc.typed _ hit.used

theorem point_of_holds (hd : Kept stray v.inodes d) {j : Slot} {name : CStr}
    (he : v.dirAt d j = some (name, inodeByte k)) (hk : way.Holds k) :
    ∃ e ∈ way.points, e.dir = d ∧ e.slot = j ∧ e.name = name ∧ e.inode = k := by
  rcases hk with rfl | ⟨e, hmem, rfl⟩
  · exact ((way.inv.linked.named hd he).1 rfl).elim
  · have hentry := (way.hit e hmem).entry
    obtain ⟨hdir, hslot⟩ :=
      way.inv.linked.once _ _ _ _ _ _ _ (way.kept e hmem) hd hentry he
    obtain ⟨-, hname⟩ := way.inv.entry_det (way.kept e hmem) hd hentry he
    exact ⟨e, hmem, hdir, hslot, hname, rfl⟩

/-- What a path means is on the way only if it is the file or its directory. -/
theorem not_holds {q name : CStr} {j : Slot} {type : UInt8} (hparent : v.Parent q d name)
    (hit : Hit (v.dirAt d) v.inodes name type j k) (hplace : ¬ SamePlace q p)
    (hdir : type = inodeDir → topName p ≠ some q) : ¬ way.Holds k := by
  intro hk
  obtain ⟨e, he, rfl, rfl, rfl, rfl⟩ := point_of_holds (way.inv.parent_kept hparent) hit.entry hk
  have htype : e.type = type := (way.hit e he).type.symm.trans hit.type
  rcases type_cases he with hfile | hisDir
  · exact hplace (way.inv.parent_split hparent (way.files e he hfile))
  · obtain ⟨hroot, htop⟩ := way.dirs e he hisDir
    rw [hroot] at hparent
    refine hdir (htype.symm.trans hisDir) ?_
    rw [htop, (way.inv.parent_root hparent).2]

theorem not_holds_below {j : Slot} (he : v.edge stray d j k) (hk : ¬ way.Holds k) {x : InodeNo}
    (hx : Below (v.edge stray) k x) : ¬ way.Holds x := by
  have hk0 : k ≠ 0 := fun heq => hk (.inl heq)
  have hout : ¬ Below (v.edge stray) k 0 := fun hbelow =>
    hk0 (way.inv.rooted.below_root hbelow)
  have step : ∀ e ∈ way.points, ¬ Below (v.edge stray) k e.dir →
      ¬ Below (v.edge stray) k e.inode := by
    intro e hmem hdir hbelow
    have hedge : v.edge stray e.dir e.slot e.inode :=
      ⟨way.kept e hmem, e.name, (way.hit e hmem).entry⟩
    obtain ⟨hd, hj⟩ := way.inv.rooted.entered he hedge hbelow hdir
    rw [hd, hj] at hedge
    rw [way.inv.rooted.det _ _ _ _ he hedge] at hk
    exact hk (holds_inode hmem)
  rintro (rfl | ⟨e, hmem, rfl⟩)
  · exact hout hx
  · refine step e hmem ?_ hx
    rcases way.joined e hmem with hroot | ⟨e', hmem', hroot, hinode⟩
    · rw [hroot]
      exact hout
    · rw [← hinode]
      refine step e' hmem' ?_
      rw [hroot]
      exact hout

end Way

/-! ## Sector by sector -/

/-- A block of the entry's directory has the entry, and no other of this name and type. -/
structure Waypoint.Stands (type : InodeNo → UInt8) (e : Waypoint) (b : Block) : Prop where
  named : (listing b).WellNamed
  entry : listing b e.slot = some (e.name, inodeByte e.inode)
  alone : ∀ j x, listing b j = some (e.name, inodeByte x) → type x = e.type → j = e.slot

/-- Inodes that are in use are of their types. -/
def Typed (v : Volume) (type : InodeNo → UInt8) : Prop :=
  ∀ i, Live v.inodes i → type i = (v.inodes i).type

/-- The types of the inodes in use, and those that the others are to get. -/
def Volume.typesOr (v : Volume) (new : InodeNo → UInt8) (i : InodeNo) : UInt8 :=
  if (v.inodes i).used ≠ 0 then (v.inodes i).type else new i

theorem Volume.typed_typesOr (v : Volume) (new : InodeNo → UInt8) : Typed v (v.typesOr new) :=
  fun _ hi => if_pos hi

theorem Volume.typesOr_free (new : InodeNo → UInt8) {k : InodeNo} (hk : ¬ Live v.inodes k) :
    v.typesOr new k = new k := if_neg hk

namespace Way

variable (way : Way stray v p) (type : InodeNo → UInt8)

/-- What an inode may be: one on the way is as it was, any other one keeps off their blocks. -/
structure Bears (i : InodeNo) (ino : Inode) : Prop where
  held : way.Holds i → ino = v.inodes i
  apart : ¬ way.Holds i → ∀ x, way.Holds x → ino.direct0 ≠ (v.inodes x).direct0
  bound : ino.direct0.toNat < 32768
  typed : ino.used ≠ 0 → ino.type = type i

/-- What a sector may hold. -/
structure Admits (lba : UInt32) (b : Block) : Prop where
  header : lba = fsSuperLba → b = v.disk lba
  table : ∀ i : InodeNo, lba = fsInodeTableLba + UInt32.ofNat (i.val / 8) →
    way.Bears type i (Inode.decode b (64 * (i.val % 8)))
  entries : ∀ e ∈ way.points, lba = v.sectorOf e.dir → e.Stands type b
  content : ∀ e ∈ way.points, e.type = inodeFile → lba = v.sectorOf e.inode → b = v.disk lba

/-- The inode table in memory and all sectors of the disk are as the file needs them. -/
structure Guards (w : Volume) : Prop where
  sb : w.sb = v.sb
  inodes : ∀ i, way.Bears type i (w.inodes i)
  disk : ∀ lba, way.Admits type lba (w.disk lba)

/-- What may be written to the block of an inode. -/
structure Takes (i : InodeNo) (b : Block) : Prop where
  entries : ∀ e ∈ way.points, e.dir = i → e.Stands type b
  content : ∀ e ∈ way.points, e.type = inodeFile → e.inode ≠ i

variable {way type} {i k d : InodeNo} {e : Waypoint} {b : Block} {ino : Inode}

/-! ### Inodes -/

theorem Bears.zero (hi : ¬ way.Holds i) : way.Bears type i Inode.zero := by
  refine ⟨fun hheld => (hi hheld).elim, fun _ x hx heq => ?_, by decide, fun hused => ?_⟩
  · exact way.inv.direct0_ne hx.live.1 heq.symm
  · exact (hused rfl).elim

theorem Bears.resize (h : way.Bears type i ino) (hi : ¬ way.Holds i) (size : UInt32) :
    way.Bears type i { ino with size := size } :=
  ⟨fun hheld => (hi hheld).elim, h.apart, h.bound, h.typed⟩

theorem bears_self (htype : Typed v type) (i : InodeNo) : way.Bears type i (v.inodes i) := by
  by_cases hlive : Live v.inodes i
  · refine ⟨fun _ => rfl, fun hi x hx heq => ?_, way.inv.alloc.blockBound hlive,
      fun _ => (htype i hlive).symm⟩
    rw [way.inv.block_eq_iff hlive hx.live.1] at heq
    exact hi (heq ▸ hx)
  · have hi : ¬ way.Holds i := fun hheld => hlive hheld.live.1
    rw [way.inv.alloc.unused i hlive]
    exact .zero hi

/-! ### Sectors -/

theorem sector_toNat (hi : way.Holds i) : 145 ≤ (v.sectorOf i).toNat := by
  rw [Volume.sectorOf_eq, way.inv.layout.dataSector_toNat (way.inv.alloc.blockBound hi.live.1)]
  omega

theorem table_toNat (i : InodeNo) :
    (fsInodeTableLba + UInt32.ofNat (i.val / 8)).toNat = 137 + i.val / 8 := by
  rw [Volume.table_toNat (by decide) (by omega)]
  rfl

theorem admits_bitmap {lba : UInt32} (hlow : 128 < lba.toNat) (hhigh : lba.toNat < 137) (b : Block) :
    way.Admits type lba b := by
  refine ⟨?_, fun i heq => ?_, fun e he heq => ?_, fun e he _ heq => ?_⟩
  · rintro rfl
    exact absurd hlow (by decide)
  · rw [heq, table_toNat] at hhigh
    omega
  · have := sector_toNat (holds_dir he)
    rw [← heq] at this
    omega
  · have := sector_toNat (holds_inode he)
    rw [← heq] at this
    omega

/-- A sector of the inode table may hold what the inodes may be. -/
theorem admits_table {tab : Table} (htab : ∀ i, way.Bears type i (tab i)) {n : Nat} (hn : n < 8) :
    way.Admits type (fsInodeTableLba + UInt32.ofNat n) (inodeSector tab n) := by
  have hsector : (fsInodeTableLba + UInt32.ofNat n).toNat = 137 + n := by
    rw [Volume.table_toNat (by decide) hn]
    rfl
  refine ⟨fun heq => ?_, fun i heq => ?_, fun e he heq => ?_, fun e he _ heq => ?_⟩
  · have := congrArg UInt32.toNat heq
    rw [hsector, show fsSuperLba.toNat = 128 from rfl] at this
    omega
  · have := congrArg UInt32.toNat heq
    rw [hsector, table_toNat] at this
    obtain rfl : n = i.val / 8 := by omega
    rw [decode_inodeSector]
    exact htab i
  · have := sector_toNat (holds_dir he)
    rw [← heq, hsector] at this
    omega
  · have := sector_toNat (holds_inode he)
    rw [← heq, hsector] at this
    omega

namespace Guards

variable (h : way.Guards type w)

include h

theorem sectorOf (i : InodeNo) : (w.sectorOf i).toNat = 145 + (w.inodes i).direct0.toNat := by
  have hlayout : w.Layout := by
    obtain ⟨h₁, h₂, h₃⟩ := way.inv.layout
    exact ⟨by rw [h.sb, h₁], by rw [h.sb, h₂], by rw [h.sb, h₃]⟩
  exact hlayout.dataSector_toNat (h.inodes i).bound

/-- Blocks of inodes on the way lie where they lay, other blocks lie elsewhere. -/
theorem sectorOf_eq (hk : way.Holds k) (heq : w.sectorOf i = v.sectorOf k) : i = k := by
  have hsector : w.sectorOf i = v.dataSector (w.inodes i).direct0 := by
    rw [Volume.sectorOf_eq, Volume.dataSector, Volume.dataSector, h.sb]
  rw [hsector] at heq
  have hblock := Volume.dataSector_inj.mp heq
  by_cases hi : way.Holds i
  · rw [(h.inodes i).held hi] at hblock
    exact hi.eq_of_sector hk (congrArg v.dataSector hblock)
  · exact ((h.inodes i).apart hi k hk hblock).elim

/-- What may be written to the block of an inode may be written to its sector. -/
theorem admits (hb : way.Takes type i b) : way.Admits type (w.sectorOf i) b := by
  refine ⟨fun heq => ?_, fun k heq => ?_, fun e he heq => ?_, fun e he hfile heq => ?_⟩
  · have := h.sectorOf i
    rw [heq, show fsSuperLba.toNat = 128 from rfl] at this
    omega
  · have := h.sectorOf i
    rw [heq, table_toNat] at this
    omega
  · exact hb.entries e he (h.sectorOf_eq (holds_dir he) heq).symm
  · exact (hb.content e he hfile (h.sectorOf_eq (holds_inode he) heq).symm).elim

theorem of_eq {w' : Volume} (hw : w' = w) : way.Guards type w' := hw ▸ h

theorem congr {w' : Volume} (hsb : w'.sb = w.sb) (htab : w'.inodes = w.inodes)
    (hdisk : w'.disk = w.disk) : way.Guards type w' :=
  ⟨hsb.trans h.sb, htab ▸ h.inodes, hdisk ▸ h.disk⟩

theorem setSector {lba : UInt32} (hb : way.Admits type lba b) :
    way.Guards type (w.setSector lba b) := by
  refine ⟨h.sb, h.inodes, fun l => ?_⟩
  change way.Admits type l (assign w.disk lba b l)
  by_cases hl : l = lba
  · rw [hl, assign_same]
    exact hb
  · rw [assign_of_ne _ _ hl]
    exact h.disk l

theorem putInode (hino : way.Bears type i ino) : way.Guards type (w.putInode i ino) := by
  refine ⟨h.sb, fun k => ?_, h.disk⟩
  change way.Bears type k (assign w.inodes i ino k)
  by_cases hk : k = i
  · rw [hk, assign_same]
    exact hino
  · rw [assign_of_ne _ _ hk]
    exact h.inodes k

theorem live (hk : way.Holds k) : Live w.inodes k := by
  rw [Live, (h.inodes k).held hk]
  exact hk.live.1

theorem not_holds (hk : ¬ Live w.inodes k) : ¬ way.Holds k := fun hheld => hk (h.live hheld)

theorem take (hw : Inv stray w) (hc : w.CanTake k ino) (htype : ino.type = type k) :
    way.Guards type (w.take k ino) := by
  have hused : way.Guards type (w.useBlock ino.direct0) := h.congr rfl rfl rfl
  refine hused.putInode ⟨fun hk => (h.not_holds hc.unused hk).elim, fun _ x hx heq => ?_,
    Nat.lt_of_lt_of_le hc.blockLt hw.alloc.countLe, fun _ => htype⟩
  rw [← (h.inodes x).held hx] at heq
  exact (hw.ne_of_canTake hc (h.live hx)).2 heq.symm

theorem resize (hk : ¬ way.Holds k) (size : UInt32) :
    way.Guards type (w.putInode k { w.inodes k with size := size }) :=
  h.putInode ((h.inodes k).resize hk size)

theorem erase (hk : ¬ way.Holds k) : way.Guards type (w.putInode k Inode.zero) :=
  h.putInode (.zero hk)

end Guards

/-! ### Blocks of directories -/

theorem stands_self (htype : Typed v type) (he : e ∈ way.points) :
    e.Stands type (v.blockOf e.dir) := by
  refine ⟨way.inv.linked.fits _ (way.kept e he), (way.hit e he).entry, fun j x hx hxtype => ?_⟩
  have hlive := (way.inv.linked.named (way.kept e he) hx).2.1
  rw [htype x hlive] at hxtype
  exact (way.inv.hit_unique (way.kept e he) ⟨hx, hlive, hxtype⟩ (way.hit e he)).1

/-- Between two calls, memory and disk are as the file needs them. -/
theorem guards_self (way : Way stray v p) (hrest : Resting stray unflushed v) (htype : Typed v type) :
    way.Guards type v := by
  refine ⟨rfl, bears_self htype, fun lba => ⟨fun _ => rfl, fun i heq => ?_, fun e he heq => ?_,
    fun _ _ _ _ => rfl⟩⟩
  · have hdisk : Inode.decode (v.disk lba) (64 * (i.val % 8)) = v.inodeOnDisk i := by
      rw [Volume.inodeOnDisk, way.inv.layout.inodeTableLba, heq]
    rw [hdisk]
    by_cases hi : unflushed i
    · rw [hrest.synced.zeroed i hi]
      exact .zero fun hheld => hheld.live.2 (hrest.unnamed i hi)
    · rw [hrest.synced.inodes i hi]
      exact bears_self htype i
  · rw [heq, Volume.disk_sectorOf]
    exact stands_self htype he

end Way

/-- Another slot is assigned an entry that fits and does not clash. -/
theorem Waypoint.Stands.edit {type : InodeNo → UInt8} {e : Waypoint} {b c : Block}
    (h : e.Stands type b) {j : Slot} {x : Option (CStr × UInt8)}
    (hc : listing c = assign (listing b) j x) (hj : j ≠ e.slot)
    (hx : ∀ name n, x = some (name, n) → (1 ≤ name.length ∧ name.length < 30) ∧
      ∀ k, n = inodeByte k → name = e.name → type k ≠ e.type) : e.Stands type c := by
  refine ⟨fun i name n hi => ?_, ?_, fun i k hi htype => ?_⟩
  · rw [hc] at hi
    by_cases hij : i = j
    · rw [hij, assign_same] at hi
      exact (hx name n hi).1
    · rw [assign_of_ne _ _ hij] at hi
      exact h.named i name n hi
  · rw [hc, assign_of_ne _ _ hj.symm]
    exact h.entry
  · rw [hc] at hi
    by_cases hij : i = j
    · rw [hij, assign_same] at hi
      exact ((hx _ _ hi).2 k rfl rfl htype).elim
    · rw [assign_of_ne _ _ hij] at hi
      exact h.alone i k hi htype

namespace Way

variable {way : Way stray v p} {type : InodeNo → UInt8} {i k d : InodeNo} {j : Slot} {b : Block}
  {name : CStr}

theorem takes_off (hi : ¬ way.Holds i) (b : Block) : way.Takes type i b :=
  ⟨fun _ he hd => (hi (hd ▸ holds_dir he)).elim, fun _ he _ heq => hi (heq ▸ holds_inode he)⟩

theorem takes_dir (hd : LiveDir v.inodes d)
    (hb : ∀ e ∈ way.points, e.dir = d → e.Stands type b) : way.Takes type d b := by
  refine ⟨hb, fun e he hfile heq => ?_⟩
  have htype := (way.hit e he).type
  rw [heq, hd.2, hfile] at htype
  exact absurd htype (by decide)

variable (htype : Typed v type)

include htype

theorem takes_same (hd : LiveDir v.inodes d) : way.Takes type d (v.blockOf d) := by
  refine takes_dir hd fun e he heq => ?_
  rw [← heq]
  exact stands_self htype he

theorem takes_enter (hc : v.CanEnter stray d j name (type k)) :
    way.Takes type d (fillEntry (v.blockOf d) j k name) := by
  refine takes_dir hc.dir.1 fun e he heq => ?_
  subst heq
  refine (stands_self htype he).edit
    (listing_fillEntry (way.inv.linked.fits _ hc.dir) j k name hc.fits.2) ?_ ?_
  · rintro rfl
    have hfree := hc.free
    rw [(way.hit e he).entry] at hfree
    cases hfree
  · rintro name' n heq
    cases heq
    refine ⟨hc.fits, fun x hx hname hxtype => ?_⟩
    rw [inodeByte_injective hx, hname, hxtype] at hc
    exact hc.absent _ _ (way.hit e he)

theorem takes_leave (hd : Kept stray v.inodes d) (he : v.dirAt d j = some (name, inodeByte k))
    (hk : ¬ way.Holds k) : way.Takes type d (clearEntry (v.blockOf d) j) := by
  refine takes_dir hd.1 fun e hmem heq => ?_
  subst heq
  refine (stands_self htype hmem).edit
    (listing_clearEntry (way.inv.linked.fits _ hd) j) ?_ fun _ _ hnone => by cases hnone
  rintro rfl
  have hsame := he.symm.trans (way.hit e hmem).entry
  simp only [Option.some.injEq, Prod.mk.injEq] at hsame
  exact hk (inodeByte_injective hsame.2 ▸ holds_inode hmem)

theorem takes_rename (hd : Kept stray v.inodes d) {old : CStr}
    (he : v.dirAt d j = some (old, inodeByte k)) (hk : ¬ way.Holds k)
    (hfits : 1 ≤ name.length ∧ name.length < 30)
    (habsent : ∀ i x, ¬ Hit (v.dirAt d) v.inodes name (type k) i x) :
    way.Takes type d (renameEntry (v.blockOf d) j name) := by
  refine takes_dir hd.1 fun e hmem heq => ?_
  subst heq
  refine (stands_self htype hmem).edit
    (listing_renameEntry (way.inv.linked.fits _ hd) he name hfits.2) ?_ ?_
  · rintro rfl
    have hsame := he.symm.trans (way.hit e hmem).entry
    simp only [Option.some.injEq, Prod.mk.injEq] at hsame
    exact hk (inodeByte_injective hsame.2 ▸ holds_inode hmem)
  · rintro name' n heq
    cases heq
    refine ⟨hfits, fun x hx hname hxtype => ?_⟩
    rw [inodeByte_injective hx, hname, hxtype] at habsent
    exact habsent _ _ (way.hit e hmem)

end Way

/-! ## Transfers -/

/-- The sector is written, or nothing is and the call gives up. -/
theorem wp_cutWrite {object : Nat} {lba : UInt32} {b : Block} {Q : Unit → Fs → Prop}
    {R D : Fs → Prop}
    (hdone : Q () ((s.noted ⟨true, lba, 1, object⟩).setVolume (s.toVolume.setSector lba b)))
    (hfail : R (s.noted ⟨true, lba, 1, object⟩)) :
    wp (diskWriteLba (dev.cut fails) object lba b) Q R D s := by
  simp only [diskWriteLba, writeSector, wp_bind, wp_note, wp_get, Device.cut]
  by_cases hfails : fails (s.noted ⟨true, lba, 1, object⟩) lba = true
  · rw [if_pos hfails]
    simp only [wp_bind, wp_modify, wp_refuse]
    have hsame : assign (s.noted ⟨true, lba, 1, object⟩).disk lba
        ((s.noted ⟨true, lba, 1, object⟩).disk lba) = s.disk :=
      congrArg Volume.disk (Volume.setSector_eq_self (v := s.toVolume) rfl)
    rw [hsame]
    exact hfail
  · rw [if_neg hfails]
    exact hdone

namespace Way

variable {way : Way stray v p} {type : InodeNo → UInt8}

/-- However it ends from `s`, the program leaves the file what it needs. -/
abbrev EndsGuarded (way : Way stray v p) (type : InodeNo → UInt8) {α : Type} (m : FsM α)
    (s : Fs) : Prop := Ends (fun s => way.Guards type s.toVolume) m s

namespace Guards

theorem writeSectors {object : Nat} {lba : UInt32} {n : Nat} {content : Nat → Block}
    (h : way.Guards type s.toVolume)
    (hcontent : ∀ k, k < n → way.Admits type (lba + UInt32.ofNat k) (content k)) :
    way.EndsGuarded type (diskWriteSectors (dev.cut fails) object lba n content) s := by
  have hnote : way.Guards type (s.noted ⟨true, lba, n, object⟩).toVolume := h
  refine Ends.bind (Q := fun _ s => way.Guards type s.toVolume) hnote fun _ s' h' => ?_
  refine Keeps.foldlM _ (fun _ k hk s h => ?_) () s' h'
  have hb := hcontent k (List.mem_range.mp hk)
  simp only [writeSector, Device.cut, wp_bind, wp_get]
  by_cases hfails : fails s (lba + UInt32.ofNat k) = true
  · rw [if_pos hfails]
    exact h.setSector (h.disk _)
  · rw [if_neg hfails]
    exact h.setSector hb

theorem flushTables (h : way.Guards type s.toVolume) :
    way.EndsGuarded type (flushTables (dev.cut fails)) s := by
  have hlayout := way.inv.layout
  refine Ends.bind (Q := fun _ s => way.Guards type s.toVolume) ?_ fun _ s' h' => Ends.get ?_
  · refine Ends.get (h.writeSectors fun k hk => admits_bitmap ?_ ?_ _)
    all_goals
      rw [h.sb, hlayout.bitmapLba, Volume.table_toNat (by decide) hk]
      change k < 8 at hk
      simp only [show fsBitmapLba.toNat = 129 from rfl]
      omega
  · refine h'.writeSectors fun k hk => ?_
    rw [h'.sb, hlayout.inodeTableLba]
    exact admits_table h'.inodes hk

variable {i d k : InodeNo} {b c : Block}

theorem write (h : way.Guards type s.toVolume) (hb : way.Takes type i b)
    {Q : Unit → Fs → Prop} {D : Fs → Prop}
    (hQ : ∀ s', way.Guards type s'.toVolume →
      s'.toVolume = s.toVolume.setSector (s.sectorOf i) b → s'.blockScratch = s.blockScratch →
      s'.blockScratch2 = s.blockScratch2 → Q () s') :
    wp (diskWriteLba (dev.cut fails) 512 (s.sectorOf i) b) Q
      (fun s => way.Guards type s.toVolume) D s :=
  wp_cutWrite (hQ _ (h.setSector (h.admits hb)) rfl rfl rfl) h

theorem store (h : way.Guards type s.toVolume) (hb : way.Takes type d b) :
    way.EndsGuarded type (do
      diskWriteLba (dev.cut fails) 512 (s.sectorOf d) b
      SevenOS.flushTables (dev.cut fails)) s := by
  rw [EndsGuarded, Ends, wp_bind]
  exact h.write hb fun s' h' _ _ _ => h'.flushTables

theorem storeTwo (h : way.Guards type s.toVolume) (hb : way.Takes type d b)
    (hc : way.Takes type k c) : way.EndsGuarded type (do
      diskWriteLba (dev.cut fails) 512 (s.sectorOf d) b
      diskWriteLba (dev.cut fails) 512 (s.sectorOf k) c
      SevenOS.flushTables (dev.cut fails)) s := by
  rw [EndsGuarded, Ends, wp_bind]
  refine h.write hb fun s' h' hv _ _ => ?_
  have hsector : s.sectorOf k = s'.sectorOf k := by rw [hv]; rfl
  rw [hsector]
  exact h'.store hc

end Guards

end Way

end SevenOS
