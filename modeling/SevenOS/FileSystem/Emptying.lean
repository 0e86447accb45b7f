import SevenOS.FileSystem.Files
import SevenOS.FileSystem.Proof.ReadOnly

/-! # Writing nothing

`fs_write_path` with an empty string. Where it finds a file it sets its size to 0
and then writes, and no transfer that fails gives the size back; a file without
content stays without content. This holds in every state, whatever the tables
and directories hold.
-/

namespace SevenOS

open Prog

variable {dev : Device} {stray : InodeNo → Prop} {v : Volume} {s : Fs} {path : CStr} {k : InodeNo}

/-- The file that `fs_write_path` finds at a path. -/
def Volume.WritesTo (v : Volume) (path : CStr) (k : InodeNo) : Prop :=
  v.mounted = true ∧ path ≠ CStr.empty ∧
    match splitPath path with
    | none => path.length < 30 ∧ (v.inodes 0).direct0 ≠ 0 ∧
        ∃ j, scanEntries outOfTable path inodeFile (v.blockOf 0) v.inodes = .found j k
    | some (dirname, name) => name ≠ CStr.empty ∧ rootReadable v ∧
        ∃ d, v.findIn 0 dirname inodeDir = some d ∧ (v.inodes d).direct0 ≠ 0 ∧
          ∃ j, scanEntries outOfTable name inodeFile (v.blockOf d) v.inodes = .found j k

/-- In a sound directory the scan finds what the lookup finds. -/
theorem Inv.scan_iff (h : Inv stray v) {d : InodeNo} (hd : Kept stray v.inodes d) {name : CStr} :
    (∃ j, scanEntries outOfTable name inodeFile (v.blockOf d) v.inodes = .found j k) ↔
      v.findIn d name inodeFile = some k := by
  rw [h.findIn_some hd (by decide)]
  constructor
  · rintro ⟨j, hfound⟩
    exact ⟨j, (scan_found hfound).1⟩
  · rintro ⟨j, hit⟩
    cases hscan : scanEntries outOfTable name inodeFile (v.blockOf d) v.inodes with
    | bad =>
        obtain ⟨i, n, hentry, hbad⟩ := scan_bad hscan
        obtain ⟨i', rfl, -⟩ := h.linked.names d i name n hd hentry
        rw [outOfTable_inodeByte] at hbad
        cases hbad
    | found j' k' =>
        rw [(h.hit_unique hd (scan_found hscan).1 hit).2]
        exact ⟨j', rfl⟩
    | absent free => exact absurd hit ((scan_absent hscan).1 j k (outOfTable_inodeByte k))

/-- In a sound volume that is the file that the path names. -/
theorem Ready.writesTo_iff (h : Ready stray v) (hne : path ≠ CStr.empty) :
    v.WritesTo path k ↔ v.resolve path inodeFile = some k := by
  have hscan : ∀ d name, Kept stray v.inodes d →
      ((∃ j, scanEntries outOfTable name inodeFile (v.blockOf d) v.inodes = .found j k) ↔
        v.findIn d name inodeFile = some k) := fun _ _ hd => h.inv.scan_iff hd
  unfold Volume.WritesTo Volume.resolve
  cases splitPath path with
  | none =>
      dsimp only
      rw [hscan 0 path h.inv.linked.root]
      constructor
      · rintro ⟨-, -, -, -, hfound⟩
        exact hfound
      · intro hfound
        obtain ⟨j, hit⟩ := (h.inv.findIn_some h.inv.linked.root (by decide)).mp hfound
        exact ⟨h.mounted, hne, (h.inv.linked.fits 0 h.inv.linked.root j path _ hit.entry).2,
          h.inv.direct0_ne h.inv.rootLive, hfound⟩
  | some parts =>
      obtain ⟨dirname, name⟩ := parts
      dsimp only
      rw [Option.bind_eq_some_iff]
      constructor
      · rintro ⟨-, -, -, -, d, hdir, -, hfound⟩
        exact ⟨d, hdir, (hscan d name (h.inv.findIn_kept hdir)).mp hfound⟩
      · rintro ⟨d, hdir, hfound⟩
        have hd := h.inv.findIn_kept hdir
        obtain ⟨j, hit⟩ := (h.inv.findIn_some hd (by decide)).mp hfound
        have hname : name ≠ CStr.empty := by
          rintro rfl
          exact absurd (h.inv.linked.fits d hd j _ _ hit.entry).1 (by decide)
        exact ⟨h.mounted, hne, hname, h.inv.rootReadable, d, hdir, h.inv.direct0_ne hd.1.1,
          (hscan d name hd).mpr hfound⟩

/-! ## Files without content -/

theorem Volume.contents_eq_nil : v.contents k = [] ↔ (v.inodes k).size = 0 := by
  rw [Volume.contents, Bytes.firstBytes, List.map_eq_nil_iff, List.range_eq_nil]
  exact UInt32.toNat_inj (b := 0)

/-- The program leaves a file without content so. -/
def KeepsEmpty {α : Type} (k : InodeNo) (m : FsM α) : Prop :=
  Keeps (fun s : Fs => (s.inodes k).size = 0) m

namespace KeepsEmpty

variable {α β : Type}

theorem bind {m : FsM β} {f : β → FsM α} (hm : KeepsEmpty k m) (hf : ∀ b, KeepsEmpty k (f b)) :
    KeepsEmpty k (m >>= f) := Keeps.bind hm hf

theorem of_readOnly {m : FsM α} (h : ReadOnly m) : KeepsEmpty k m := fun s hs =>
  h.step (fun _ s' hv => by rw [hv]; exact hs) (fun s' hv => by rw [hv]; exact hs) fun s' hv => by
    rw [hv]; exact hs

theorem writeSector (lba : UInt32) (b : Block) : KeepsEmpty k (writeSector dev lba b) := by
  refine Keeps.get.bind fun s => ?_
  cases dev.writeFault s lba with
  | none => exact Keeps.modify fun _ h => h
  | some left =>
      refine bind (β := Unit) ?_ fun _ => Keeps.refuse
      exact Keeps.modify fun _ h => h

theorem diskWriteLba (object : Nat) (lba : UInt32) (b : Block) :
    KeepsEmpty k (diskWriteLba dev object lba b) :=
  bind (of_readOnly (.note _)) fun _ => writeSector lba b

theorem diskWriteSectors (object : Nat) (lba : UInt32) (sectors : Nat) (data : Nat → Block) :
    KeepsEmpty k (diskWriteSectors dev object lba sectors data) :=
  bind (of_readOnly (.note _)) fun _ => Keeps.foldlM _ (fun _ _ _ => writeSector _ _) _

theorem flushTables : KeepsEmpty k (flushTables dev) :=
  bind (Keeps.get.bind fun _ => diskWriteSectors _ _ _ _) fun _ =>
    Keeps.get.bind fun _ => diskWriteSectors _ _ _ _

theorem markBlockUsed (b : UInt32) : KeepsEmpty k (markBlockUsed b) := Keeps.modify fun _ h => h

theorem modifyInode (i : InodeNo) {f : Inode → Inode} (hf : ∀ ino, ino.size = 0 → (f ino).size = 0) :
    KeepsEmpty k (modifyInode i f) := by
  refine Keeps.modify fun s h => ?_
  change (assign s.inodes i (f (s.inodes i)) k).size = 0
  by_cases hki : k = i
  · rw [hki, assign_same]
    exact hf _ (hki ▸ h)
  · rw [assign_of_ne _ _ hki]
    exact h

theorem ensureRootDirBlock : KeepsEmpty k (ensureRootDirBlock dev) := by
  refine Keeps.get.bind fun s => Keeps.ite (fun _ => Keeps.pure ()) fun _ => ?_
  refine (Keeps.demand _).bind fun block => (markBlockUsed _).bind fun _ => ?_
  refine bind (modifyInode 0 ?_) fun _ => Keeps.get.bind fun _ => ?_
  · exact fun _ h => h
  · exact (diskWriteLba _ _ _).bind fun _ => flushTables

theorem claimFile (freeSlot : Option Slot) : KeepsEmpty k (claimFile freeSlot) := by
  refine (Keeps.demand _).bind fun slot => Keeps.get.bind fun _ => ?_
  refine (Keeps.demand _).bind fun inode => (Keeps.demand _).bind fun block => ?_
  refine (markBlockUsed _).bind fun _ => bind (modifyInode inode ?_) fun _ => Keeps.pure _
  exact fun _ h => h

theorem setSize (i : InodeNo) : KeepsEmpty k
    (SevenOS.modifyInode i fun ino => { ino with size := dataLength CStr.empty }) :=
  modifyInode i fun _ _ => rfl

theorem writeOut (lba lba' : Fs → UInt32) (b : Fs → Block) (b' : Block) :
    KeepsEmpty k (do
      let s ← Prog.get
      SevenOS.diskWriteLba dev 512 (lba s) (b s)
      SevenOS.diskWriteLba dev 512 (lba' s) b'
      SevenOS.flushTables dev) :=
  Keeps.get.bind fun _ => (diskWriteLba _ _ _).bind fun _ => (diskWriteLba _ _ _).bind fun _ =>
    flushTables

theorem fsWrite (name : CStr) : KeepsEmpty k (fsWrite dev name CStr.empty) := by
  refine Keeps.get.bind fun s => (Keeps.require _).bind fun _ => (Keeps.require _).bind fun _ => ?_
  refine (Keeps.require _).bind fun _ => ensureRootDirBlock.bind fun _ => Keeps.get.bind fun s => ?_
  refine (of_readOnly (.diskReadLba _ _)).bind fun dirBlock => ?_
  cases scanEntries outOfTable name inodeFile dirBlock s.inodes with
  | bad => exact bind Keeps.refuse fun _ => (setSize _).bind fun _ => writeOut _ _ _ _
  | found j i => exact bind (Keeps.pure _) fun _ => (setSize _).bind fun _ => writeOut _ _ _ _
  | absent freeSlot =>
      refine (claimFile freeSlot).bind fun claimed => ?_
      exact bind (Keeps.pure _) fun _ => (setSize _).bind fun _ => writeOut _ _ _ _

theorem fsWritePath (path : CStr) : KeepsEmpty k (fsWritePath dev path CStr.empty) := by
  refine Keeps.get.bind fun s => (Keeps.require _).bind fun _ => (Keeps.require _).bind fun _ => ?_
  cases splitPath path with
  | none => exact fsWrite path
  | some parts =>
      refine (Keeps.require _).bind fun _ => (Keeps.require _).bind fun _ => ?_
      refine (of_readOnly (.loadScratch _)).bind fun _ => ?_
      refine (of_readOnly (.lookupDir _)).bind fun d => Keeps.get.bind fun _ => ?_
      refine (Keeps.require _).bind fun _ => (of_readOnly (.loadScratch2 _)).bind fun _ => ?_
      refine Keeps.get.bind fun s => ?_
      dsimp only
      cases scanEntries outOfTable parts.2 inodeFile s.blockScratch2 s.inodes with
      | bad => exact bind Keeps.refuse fun _ => (setSize _).bind fun _ => writeOut _ _ _ _
      | found j i => exact bind (Keeps.pure _) fun _ => (setSize _).bind fun _ => writeOut _ _ _ _
      | absent freeSlot =>
          refine (claimFile freeSlot).bind fun claimed => ?_
          refine bind (β := Unit) ?_ fun _ => ?_
          · exact Keeps.modify fun _ h => h
          · exact bind (Keeps.pure _) fun _ => (setSize _).bind fun _ => writeOut _ _ _ _

end KeepsEmpty

/-! ## Files with content -/

/-- The size is 0 as soon as it is set, and what follows leaves it so. -/
theorem KeepsEmpty.emptied {rest : Unit → FsM Unit} (h : KeepsEmpty k (rest ())) (s : Fs) :
    wp (SevenOS.modifyInode k (fun ino => { ino with size := dataLength CStr.empty }) >>= rest)
      (fun _ s' => (s'.inodes k).size = 0) (fun s' => (s'.inodes k).size = 0)
      (fun s' => (s'.inodes k).size = 0) s := by
  refine (wp_bind _ _).mpr (h _ ?_)
  change (assign s.inodes k _ k).size = 0
  rw [assign_same]
  rfl

theorem wp_ensureRootDirBlock_of_ne {Q : Unit → Fs → Prop} {R D : Fs → Prop}
    (h : (s.inodes 0).direct0 ≠ 0) : wp (ensureRootDirBlock dev) Q R D s ↔ Q () s := by
  simp [ensureRootDirBlock, h]

theorem wp_require_pass {α : Type} {p : Prop} [Decidable p] (hp : p) {f : Unit → FsM α}
    {Q : α → Fs → Prop} {R D : Fs → Prop} (h : wp (f ()) Q R D s) :
    wp (require p >>= f) Q R D s := by
  rw [wp_bind, wp_require]
  exact ⟨fun _ => h, fun hn => absurd hp hn⟩

theorem wp_lookupDir_found {dirname : CStr} {d : InodeNo} (hb : s.blockScratch = s.blockOf 0)
    (hdir : s.findIn 0 dirname inodeDir = some d) {Q : InodeNo → Fs → Prop} {R D : Fs → Prop}
    (h : Q d s) : wp (lookupDir dirname) Q R D s := by
  obtain ⟨i, hentry, hindex⟩ := Option.bind_eq_some_iff.mp hdir
  rw [lookupDir, wp_bind, wp_get, wp_bind, wp_demand, hb, hentry]
  refine ⟨fun i' hi' => ?_, fun hnone => by cases hnone⟩
  obtain rfl := Option.some.inj hi'
  rw [wp_demand, hindex]
  refine ⟨fun d' hd' => ?_, fun hnone => by cases hnone⟩
  obtain rfl := Option.some.inj hd'
  exact h

theorem fsWrite_empties (hd : dev.Readable) (hmounted : s.mounted = true) (hne : path ≠ CStr.empty)
    (hlen : path.length < 30) (hblock : (s.inodes 0).direct0 ≠ 0) {j : Slot}
    (hfound : scanEntries outOfTable path inodeFile (s.blockOf 0) s.inodes = .found j k) :
    wp (fsWrite dev path CStr.empty) (fun _ s' => (s'.inodes k).size = 0)
      (fun s' => (s'.inodes k).size = 0) (fun s' => (s'.inodes k).size = 0) s := by
  rw [fsWrite, wp_bind, wp_get]
  refine wp_require_pass hmounted (wp_require_pass hne (wp_require_pass hlen ?_))
  rw [wp_bind, wp_ensureRootDirBlock_of_ne hblock, wp_bind, wp_get, wp_bind, hd.wp_read,
    Volume.disk_sectorOf]
  simp only [hfound]
  rw [wp_bind, wp_pure]
  refine KeepsEmpty.emptied ?_ _
  exact KeepsEmpty.writeOut _ _ _ _

theorem fsWritePath_empties (hd : dev.Readable) (h : s.toVolume.WritesTo path k) :
    wp (fsWritePath dev path CStr.empty) (fun _ s' => (s'.inodes k).size = 0)
      (fun s' => (s'.inodes k).size = 0) (fun s' => (s'.inodes k).size = 0) s := by
  obtain ⟨hmounted, hne, hfile⟩ := h
  rw [fsWritePath, wp_bind, wp_get]
  refine wp_require_pass hmounted (wp_require_pass hne ?_)
  cases hsplit : splitPath path with
  | none =>
      rw [hsplit] at hfile
      obtain ⟨hlen, hblock, j, hfound⟩ := hfile
      exact fsWrite_empties hd hmounted hne hlen hblock hfound
  | some parts =>
      obtain ⟨dirname, name⟩ := parts
      rw [hsplit] at hfile
      obtain ⟨hname, hroot, d, hdir, hblock, j, hfound⟩ := hfile
      refine wp_require_pass hname (wp_require_pass hroot ?_)
      rw [wp_bind, hd.wp_loadScratch, wp_bind]
      apply wp_lookupDir_found
      · rfl
      · exact hdir
      rw [wp_bind, wp_get]
      refine wp_require_pass hblock ?_
      rw [wp_bind, hd.wp_loadScratch2, wp_bind, wp_get]
      simp only [Fs.toVolume_noted, Fs.toVolume_setScratch, Fs.toVolume_setScratch2,
        Fs.scratch2_setScratch2, Volume.disk_sectorOf, hfound]
      rw [wp_bind, wp_pure]
      refine KeepsEmpty.emptied ?_ _
      exact KeepsEmpty.writeOut _ _ _ _

end SevenOS
