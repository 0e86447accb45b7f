import SevenOS.FileSystem.CutRemoving
import SevenOS.Shell.Boot

/-! # Power cuts

When the power fails in the middle of a call, what was written so far is on the disk and
the rest is not. The tables and the directories may then contradict each other, and nothing
of the kernel checks them. Still the next start mounts this disk, and every file that the
call was to leave alone is there and has its content.
-/

namespace SevenOS

open Prog

variable {dev : Device} {test : FsM Unit} {fails : Fs → UInt32 → Bool}
  {stray unflushed : InodeNo → Prop} {v v' w : Volume} {p : CStr} {s : Fs} {k : InodeNo}
  {maxlen : UInt32}

/-! ## What the next mount finds -/

/-- The path leads to inode `k` again, which has its content. -/
structure FoundAgain (v : Volume) (p : CStr) (k : InodeNo) (v' : Volume) : Prop where
  mounted : v'.mounted = true
  root : v'.inodes 0 = v.inodes 0
  found : v'.resolve p inodeFile = some k
  inode : v'.inodes k = v.inodes k
  block : v'.blockOf k = v.blockOf k
  dir : ∀ dirname name, splitPath p = some (dirname, name) →
    ∃ d, LiveDir v.inodes d ∧ v'.findIn 0 dirname inodeDir = some d ∧ v'.inodes d = v.inodes d

namespace Way

variable {way : Way stray v p} {type : InodeNo → UInt8} {i : InodeNo} {e : Waypoint}

namespace Guards

variable (h : way.Guards type w)

include h

theorem headed (hhead : Headed v) : Headed { v with disk := w.disk } := by
  refine ⟨?_, hhead.magic, hhead.blockSize⟩
  change Superblock.decode (w.disk fsSuperLba) = v.sb
  rw [(h.disk fsSuperLba).header rfl, hhead.superblock]

theorem onDisk (i : InodeNo) :
    way.Bears type i (({ v with disk := w.disk } : Volume).reload.inodes i) := by
  have hlba : v.sb.inodeTableLba = fsInodeTableLba := way.inv.layout.inodeTableLba
  change way.Bears type i
    (Inode.decode (w.disk (v.sb.inodeTableLba + UInt32.ofNat (i.val / 8))) (64 * (i.val % 8)))
  rw [hlba]
  exact (h.disk _).table i rfl

theorem reload_inodes (hi : way.Holds i) :
    ({ v with disk := w.disk } : Volume).reload.inodes i = v.inodes i :=
  (h.onDisk i).held hi

theorem reload_blockOf (hi : way.Holds i) :
    ({ v with disk := w.disk } : Volume).reload.blockOf i = w.disk (v.sectorOf i) := by
  rw [Volume.blockOf, h.reload_inodes hi]
  rfl

theorem reload_content (he : e ∈ way.points) (hfile : e.type = inodeFile) :
    ({ v with disk := w.disk } : Volume).reload.blockOf e.inode = v.blockOf e.inode := by
  rw [h.reload_blockOf (holds_inode he), (h.disk _).content e he hfile rfl]
  rfl

/-- The entry is found, and no other one is found in its place. -/
theorem reload_findIn (he : e ∈ way.points) :
    ({ v with disk := w.disk } : Volume).reload.findIn e.dir e.name e.type = some e.inode := by
  have hstands := (h.disk _).entries e he rfl
  have htype : e.type ≠ 0 := by
    rcases type_cases he with heq | heq <;> rw [heq] <;> decide
  have hino := h.reload_inodes (holds_inode he)
  have hbears := h.onDisk
  have hblock := h.reload_blockOf (holds_dir he)
  generalize ({ v with disk := w.disk } : Volume).reload = v' at *
  have hhit := way.hit e he
  have hit : Hit (v'.dirAt e.dir) v'.inodes e.name e.type e.slot e.inode := by
    refine ⟨?_, ?_, ?_⟩
    · rw [Volume.dirAt, hblock]
      exact hstands.entry
    · rw [hino]
      exact hhit.used
    · rw [hino]
      exact hhit.type
  cases hfound : v'.findIn e.dir e.name e.type with
  | none => exact ((Volume.findIn_none htype).mp hfound _ _ hit).elim
  | some x =>
      obtain ⟨j, hfind, hindex⟩ := Option.bind_eq_some_iff.mp hfound
      obtain ⟨x', hit'⟩ := findDirEntry_some htype hfind
      rw [hit'.inodeIndex] at hindex
      cases hindex
      have hentry := hit'.entry
      rw [hblock] at hentry
      have hslot := hstands.alone j x hentry (((hbears x).typed hit'.used).symm.trans hit'.type)
      rw [hslot, hstands.entry] at hentry
      simp only [Option.some.injEq, Prod.mk.injEq] at hentry
      rw [inodeByte_injective hentry.2]

end Guards

end Way

/-- Every file has a way, and where the way lasts the file is found again. -/
theorem Inv.found_again (h : Inv stray v) (hk : v.resolve p inodeFile = some k) :
    ∃ way : Way stray v p, ∀ w, way.Lasts w →
      FoundAgain v p k ({ v with disk := w.disk } : Volume).reload := by
  cases hsplit : splitPath p with
  | none =>
      obtain ⟨j, hf⟩ := (h.root_file hsplit).mp hk
      refine ⟨.ofRoot h hsplit hf, ?_⟩
      rintro w ⟨type, hw⟩
      have he : ⟨0, j, p, inodeFile, k⟩ ∈ (Way.ofRoot h hsplit hf).points := by simp [Way.ofRoot]
      have hroot := hw.reload_inodes (.inl rfl)
      have hfound := hw.reload_findIn he
      have hinode := hw.reload_inodes (Way.holds_inode he)
      have hblock := hw.reload_content he rfl
      refine ⟨rfl, hroot, ?_, hinode, hblock, fun _ _ hparts => ?_⟩
      · rw [Volume.resolve_root hsplit]
        exact hfound
      · rw [hsplit] at hparts
        cases hparts
  | some parts =>
      obtain ⟨dirname, name⟩ := parts
      obtain ⟨i, d, j, hf⟩ := h.fileIn hsplit hk
      refine ⟨.ofDir h hsplit hf, ?_⟩
      rintro w ⟨type, hw⟩
      have hdir : ⟨0, i, dirname, inodeDir, d⟩ ∈ (Way.ofDir h hsplit hf).points := by
        simp [Way.ofDir]
      have he : ⟨d, j, name, inodeFile, k⟩ ∈ (Way.ofDir h hsplit hf).points := by
        simp [Way.ofDir]
      have hroot := hw.reload_inodes (.inl rfl)
      have hfoundDir := hw.reload_findIn hdir
      have hinodeDir := hw.reload_inodes (Way.holds_inode hdir)
      have hfound := hw.reload_findIn he
      have hinode := hw.reload_inodes (Way.holds_inode he)
      have hblock := hw.reload_content he rfl
      refine ⟨rfl, hroot, ?_, hinode, hblock, fun _ _ hparts => ?_⟩
      · rw [Volume.resolve_dir hsplit hfoundDir]
        exact hfound
      · rw [hsplit] at hparts
        cases hparts
        exact ⟨d, (h.keptDir h.linked.root hf.dir).1, hfoundDir, hinodeDir⟩

/-! ## Reading it -/

namespace FoundAgain

variable (h : FoundAgain v p k s.toVolume)

include h

theorem readFile : s.toVolume.readFile k maxlen = v.readFile k maxlen := by
  rw [Volume.readFile, Volume.readFile, h.block, h.inode]

theorem rootReadable (hinv : Inv stray v) : rootReadable s.toVolume := by
  rw [SevenOS.rootReadable, h.root]
  exact hinv.rootReadable

theorem block_ne (hinv : Inv stray v) (hk : v.resolve p inodeFile = some k) :
    (s.inodes k).direct0 ≠ 0 := by
  rw [h.inode]
  exact hinv.direct0_ne (hinv.resolve_live (by decide) hk).1

/-- The volume is not checked when it is read, it only has to lead to the file. -/
theorem readPath_returns (hp : dev.Perfect) (hinv : Inv stray v)
    (hk : v.resolve p inodeFile = some k) :
    Returns (fsReadPath dev p maxlen) (.ok (v.readFile k maxlen)) s := by
  have hroot := h.rootReadable hinv
  have hblock := h.block_ne hinv hk
  have hpath : p ≠ CStr.empty := by
    rintro rfl
    rw [hinv.resolve_empty (by decide) (.inl rfl)] at hk
    cases hk
  have hfound := h.found
  rw [← h.readFile]
  simp only [Returns, fsReadPath, wp_bind, wp_get, wp_require]
  refine ⟨fun _ => ⟨fun _ => ?_, fun hno => (hno hpath).elim⟩, fun hno => (hno h.mounted).elim⟩
  cases hsplit : splitPath p with
  | none =>
      rw [Volume.resolve_root hsplit] at hfound
      simp only [fsRead, wp_bind, wp_get, wp_require, wp_pure, hp.wp_loadScratch,
        hp.wp_loadScratch2]
      refine ⟨fun _ => ⟨fun _ => ⟨fun _ => ?_, fun hno => (hno hroot).elim⟩,
        fun hno => (hno hpath).elim⟩, fun hno => (hno h.mounted).elim⟩
      refine wp_findIn (v := s.toVolume) (d := 0) rfl rfl (fun k' hk' => ?_) fun hnone => ?_
      · cases hfound.symm.trans hk'
        exact ⟨fun _ => rfl, fun hno => (hno hblock).elim⟩
      · cases hfound.symm.trans hnone
  | some parts =>
      obtain ⟨dirname, filename⟩ := parts
      have hname : filename ≠ CStr.empty := by
        rintro rfl
        rw [hinv.resolve_empty (by decide) (.inr ⟨dirname, hsplit⟩)] at hk
        cases hk
      obtain ⟨d, hd, hdir, hino⟩ := h.dir dirname filename hsplit
      rw [Volume.resolve_dir hsplit hdir] at hfound
      have hdirBlock : (s.inodes d).direct0 ≠ 0 := by
        rw [hino]
        exact hinv.direct0_ne hd.1
      simp only [wp_bind, wp_get, wp_require, wp_pure, hp.wp_loadScratch, hp.wp_loadScratch2]
      refine ⟨fun _ => ⟨fun _ => ?_, fun hno => (hno hroot).elim⟩, fun hno => (hno hname).elim⟩
      refine wp_lookupDir_find (v := s.toVolume) (by rfl) (by rfl) (fun d' hd' => ?_) fun hnone => ?_
      · cases hdir.symm.trans hd'
        refine ⟨fun _ => ?_, fun hno => (hno hdirBlock).elim⟩
        refine wp_findIn (v := s.toVolume) (d := d) rfl rfl (fun k' hk' => ?_) fun hnone => ?_
        · cases hfound.symm.trans hk'
          exact ⟨fun _ => rfl, fun hno => (hno hblock).elim⟩
        · cases hfound.symm.trans hnone
      · cases hdir.symm.trans hnone

omit h in
theorem readPasswd_returns (hp : dev.Perfect) (hinv : Inv stray v)
    (hk : v.resolve sysPasswd inodeFile = some k) (h : FoundAgain v sysPasswd k s.toVolume) :
    Returns (fsReadPasswd dev) (passwdOutcome v) s := by
  have hroot := h.rootReadable hinv
  have hblock := h.block_ne hinv hk
  obtain ⟨d, hd, hdir, hino⟩ := h.dir sysName passwdName splitPath_sysPasswd
  have hfound := h.found
  rw [Volume.resolve_dir splitPath_sysPasswd hdir] at hfound
  have hdirBlock : (s.inodes d).type = inodeDir ∧ (s.inodes d).direct0 ≠ 0 := by
    rw [hino]
    exact ⟨hd.2, hinv.direct0_ne hd.1⟩
  have hread : wp (readSysFile dev passwdName 4) (fun buf _ => buf = v.readFile k 4)
      (fun _ => False) (fun _ => False) s := by
    rw [← h.readFile]
    simp only [readSysFile, wp_bind, wp_get, wp_require, wp_pure, hp.wp_loadScratch,
      hp.wp_loadScratch2]
    refine ⟨fun _ => ⟨fun _ => ?_, fun hno => hno hroot⟩, fun hno => hno h.mounted⟩
    refine wp_findIn (v := s.toVolume) (d := 0) rfl rfl (fun d' hd' => ?_) fun hnone => ?_
    · cases hdir.symm.trans hd'
      refine ⟨fun _ => ?_, fun hno => hno hdirBlock⟩
      refine wp_findIn (v := s.toVolume) (d := d) rfl rfl (fun k' hk' => ?_) fun hnone => ?_
      · cases hfound.symm.trans hk'
        exact ⟨fun _ => rfl, fun hno => hno hblock⟩
      · cases hfound.symm.trans hnone
    · cases hdir.symm.trans hnone
  rw [Returns, fsReadPasswd, wp_bind, passwdOutcome, v.sysFile_eq, hk]
  refine wp_mono hread ?_ (fun _ hno => hno.elim) fun _ hno => hno.elim
  rintro buf s' rfl
  rw [wp_bind, wp_require]
  exact ⟨fun hlen => if_pos hlen, fun hlen => if_neg hlen⟩

end FoundAgain

/-! ## The restart -/

theorem Call.exists_leaves (call : Call) : ∃ q, call.Leaves q := by
  have other : ∀ q : CStr, ∃ r, splitPath r = none ∧ q ≠ r := fun q => by
    by_cases hq : q = nameA
    · exact ⟨nameB, by decide, by rw [hq]; decide⟩
    · exact ⟨nameA, by decide, hq⟩
  have apart : ∀ {q r : CStr}, splitPath r = none → q ≠ r → ¬ SamePlace q r :=
    fun hr hne hplace => hne (hplace.2 (hplace.1.trans hr))
  have top : ∀ {q r : CStr}, splitPath r = none → topName r ≠ some q := fun hr htop => by
    rw [topName, hr] at htop
    cases htop
  cases call with
  | mkdirPath path => exact ⟨path, trivial⟩
  | create name => exact ⟨name, trivial⟩
  | writePath path data =>
      obtain ⟨r, hr, hne⟩ := other path
      exact ⟨r, apart hr hne⟩
  | copyPath srcPath dstPath =>
      obtain ⟨r, hr, hne⟩ := other dstPath
      refine ⟨r, apart hr hne, fun hsplit => ?_⟩
      rw [hr] at hsplit
      cases hsplit
  | rename srcPath dstPath =>
      obtain ⟨r, hr, hne⟩ := other srcPath
      exact ⟨r, apart hr hne, top hr⟩
  | removePath path =>
      obtain ⟨r, hr, hne⟩ := other path
      exact ⟨r, apart hr hne⟩
  | removePathRecursive path =>
      obtain ⟨r, hr, hne⟩ := other path
      exact ⟨r, apart hr hne, top hr⟩
  | writePasswd hash =>
      obtain ⟨r, -, hne⟩ := other sysPasswd
      exact ⟨r, hne.symm⟩

/-- The way to nothing: the disk is still one of this file system. -/
def Way.none (h : Inv stray v) (p : CStr) : Way stray v p where
  points := []
  inv := h
  kept := by simp
  hit := by simp
  joined := by simp
  dirs := by simp
  files := by simp

/-- The power fails during a call, where the first of the writes that `fails` picks is due,
and the machine is started again. -/
def Machine.cutDuring (dev : Device) (fails : Fs → UInt32 → Bool) (call : Call) (m : Machine) :
    Machine :=
  boot dev (call.run (dev.cut fails) m.fs).2.disk

variable {m₀ m : Machine} {call : Call}

theorem Resting.cutDuring_headed (hp : dev.Perfect) (hrest : Resting stray unflushed m.fs.toVolume)
    (hfits : call.Fits m.fs.toVolume) (fails : Fs → UInt32 → Bool) :
    Headed { m.fs.toVolume with disk := (call.run (dev.cut fails) m.fs).2.disk } := by
  obtain ⟨q, hq⟩ := call.exists_leaves
  have hlasts : (Way.none hrest.inv q).EndsLasting (call.run (dev.cut fails)) m.fs :=
    Way.call_lasts hp hrest hfits hq
  obtain ⟨type, hguards⟩ := hlasts.run
  exact hguards.headed hrest.headed

theorem Resting.cutDuring_volume (hp : dev.Perfect) (hrest : Resting stray unflushed m.fs.toVolume)
    (hfits : call.Fits m.fs.toVolume) (fails : Fs → UInt32 → Bool) :
    (m.cutDuring dev fails call).fs.toVolume =
      ({ m.fs.toVolume with disk := (call.run (dev.cut fails) m.fs).2.disk } : Volume).reload := by
  have hheaded := hrest.cutDuring_headed hp hfits fails
  generalize hv : { m.fs.toVolume with disk := (call.run (dev.cut fails) m.fs).2.disk } = v
  rw [hv] at hheaded
  have hboot := boot_volume (s := m.fs.setVolume v) hp hheaded
  rw [Fs.toVolume_setVolume, ← hv] at hboot
  rw [← hv]
  exact hboot

theorem Resting.cutDuring_found (hp : dev.Perfect) (hrest : Resting stray unflushed m.fs.toVolume)
    (hfits : call.Fits m.fs.toVolume) (hleaves : call.Leaves p)
    (hk : m.fs.toVolume.resolve p inodeFile = some k) (fails : Fs → UInt32 → Bool) :
    FoundAgain m.fs.toVolume p k (m.cutDuring dev fails call).fs.toVolume := by
  obtain ⟨way, hfound⟩ := hrest.inv.found_again hk
  have hlasts : way.EndsLasting (call.run (dev.cut fails)) m.fs :=
    Way.call_lasts hp hrest hfits hleaves
  rw [hrest.cutDuring_volume hp hfits]
  exact hfound _ hlasts.run

/-- The `sys` directory is being removed: its files and its own block are gone, its entry and
the tables are not yet written. -/
def sysGoing (s : Fs) (_ : UInt32) : Bool := decide (40 ≤ s.log.length)

end SevenOS
