import SevenOS.FileSystem.Torn

/-! # Calls that are cut short

Each call, on a device that loses some of its writes: wherever it ends, what a file that
the call leaves alone needs is in memory and on the disk. Up to the first write the call
runs as on any other device, so what it has found by then is known.
-/

namespace SevenOS

open Prog

variable {dev : Device} {fails : Fs → UInt32 → Bool} {stray unflushed : InodeNo → Prop}
  {p : CStr} {s : Fs}

namespace Way

variable {v w : Volume}

/-- Some types of the inodes will do. -/
def Lasts (way : Way stray v p) (w : Volume) : Prop := ∃ type, way.Guards type w

/-- However it ends from `s`, the program leaves the file what it needs. -/
abbrev EndsLasting (way : Way stray v p) {α : Type} (m : FsM α) (s : Fs) : Prop :=
  Ends (fun s => way.Lasts s.toVolume) m s

variable {way : Way stray v p} {type : InodeNo → UInt8} {α : Type}

theorem EndsGuarded.lasts {m : FsM α} (h : way.EndsGuarded type m s) : way.EndsLasting m s :=
  wp_mono h (fun _ _ h => ⟨type, h⟩) (fun _ h => ⟨type, h⟩) fun _ h => ⟨type, h⟩

theorem Lasts.of_eq {w' : Volume} (h : way.Lasts w) (hw : w' = w) : way.Lasts w' := hw ▸ h

theorem lasts_self (way : Way stray v p) (hrest : Resting stray unflushed v) : way.Lasts v :=
  ⟨_, way.guards_self hrest (v.typed_typesOr fun _ => 0)⟩

namespace Guards

variable {k : InodeNo} {b : UInt32} {size : UInt32} {t : UInt8} {m : FsM α}

theorem take_step (h : way.Guards type s.toVolume) (hinv : Inv stray s.toVolume)
    (hc : s.toVolume.CanTake k ((s.inodes k).fresh t size b)) (htype : t = type k)
    (hm : ∀ s' : Fs, way.Guards type s'.toVolume → s'.dataSector b = s'.sectorOf k →
      s'.blockScratch = s.blockScratch → s'.blockScratch2 = s.blockScratch2 →
      way.EndsGuarded type m s') :
    way.EndsGuarded type
      (do markBlockUsed b; modifyInode k (fun ino => ino.fresh t size b); m) s := by
  rw [EndsGuarded, Ends, wp_bind, wp_markBlockUsed, wp_bind, wp_modifyInode]
  refine hm _ (h.take hinv hc htype) ?_ rfl rfl
  simp [Volume.sectorOf_eq, Inode.fresh]

theorem resize_step (h : way.Guards type s.toVolume) (hk : ¬ way.Holds k)
    (hm : ∀ s' : Fs, way.Guards type s'.toVolume → s'.blockScratch = s.blockScratch →
      s'.blockScratch2 = s.blockScratch2 → way.EndsGuarded type m s') :
    way.EndsGuarded type (do modifyInode k (fun ino => { ino with size := size }); m) s := by
  rw [EndsGuarded, Ends, wp_bind, wp_modifyInode]
  exact hm _ (h.resize hk size) rfl rfl

end Guards

end Way

/-- Only one path leads to the password. -/
theorem SamePlace.sysPasswd (h : SamePlace SevenOS.sysPasswd p) : p = SevenOS.sysPasswd := by
  have hsplit := h.1.symm.trans splitPath_sysPasswd
  exact CStr.ext ((splitPath_chars hsplit (by decide)).trans
    (splitPath_chars splitPath_sysPasswd (by decide)).symm)

/-- Up to its end `prepareEntry` writes nothing. -/
theorem Inv.wp_prepareEntry_cut (h : Inv stray s.toVolume) {name : CStr} {type : UInt8}
    {Q : InodeNo × UInt32 × Block × Slot → Fs → Prop} {R D : Fs → Prop} :
    wp (prepareEntry (dev.cut fails) name type) Q R D s ↔
      wp (prepareEntry dev name type) Q R D s := by
  simp only [prepareEntry, wp_bind, wp_get, wp_require, h.wp_ensureRootDirBlock]
  exact Iff.rfl

namespace Way

section Calls

variable (hp : dev.Perfect) (hrest : Resting stray unflushed s.toVolume)
  {way : Way stray s.toVolume p}

include hp hrest

/-! ## Creating -/

/-- What a creation has prepared: a free inode and a free block for a new entry. -/
theorem prepared (name : CStr) (type : UInt8) {α : Type}
    {f : InodeNo × UInt32 × Block × Slot → FsM α}
    (hf : ∀ k b j s', s'.toVolume = s.toVolume → allocInodeRaw s.toVolume = some k →
      allocBlockRaw s.toVolume = some b → s.toVolume.CanEnter stray 0 j name type →
      way.EndsLasting (f (k, b, s.blockOf 0, j)) s') :
    way.EndsLasting (prepareEntry (dev.cut fails) name type >>= f) s := by
  have h := hrest.inv
  refine Ends.bind ((h.wp_prepareEntry_cut).mpr (wp_mono (prepareEntry_spec hp h name type)
    (fun _ _ h => h) (fun _ hv => (way.lasts_self hrest).of_eq hv) fun _ h => h.elim)) ?_
  rintro ⟨k, b, dirBlock, j⟩ s' ⟨hv, hk, hb, rfl, henter⟩
  exact hf k b j s' hv hk hb henter

omit hp in
/-- A free inode and a free block are taken for a new file or directory. -/
theorem created (t : UInt8) (ht : t = inodeFile ∨ t = inodeDir) {size : UInt32}
    (hsize : size.toNat ≤ 512) {k : InodeNo} {b : UInt32} {s₁ : Fs}
    (hv : s₁.toVolume = s.toVolume) (hk : allocInodeRaw s.toVolume = some k)
    (hb : allocBlockRaw s.toVolume = some b) {α : Type} {m : FsM α}
    (hm : ∀ type, Typed s.toVolume type → type k = t → ¬ way.Holds k → ∀ s₂ : Fs,
      way.Guards type s₂.toVolume → s₂.dataSector b = s₂.sectorOf k →
      s₂.blockScratch = s₁.blockScratch → s₂.blockScratch2 = s₁.blockScratch2 →
      way.EndsGuarded type m s₂) :
    way.EndsLasting
      (do markBlockUsed b; modifyInode k (fun ino => ino.fresh t size b); m) s₁ := by
  have htyped := s.toVolume.typed_typesOr fun _ => t
  have hguards := way.guards_self hrest htyped
  obtain ⟨hc, -⟩ := hrest.inv.canTake hk hb ht hsize
  have hkt := Volume.typesOr_free (fun _ => t) hc.unused
  have hfree := hguards.not_holds hc.unused
  rw [← hv] at hc
  refine EndsGuarded.lasts ((hguards.of_eq hv).take_step (hv ▸ hrest.inv) hc hkt.symm ?_)
  exact hm _ htyped hkt hfree

theorem fsMkdir_lasts (name : CStr) : way.EndsLasting (fsMkdir (dev.cut fails) name) s := by
  refine prepared hp hrest name inodeDir fun k b j s₁ hv hk hb henter => ?_
  refine created hrest inodeDir (.inr rfl) (by decide) hv hk hb
    fun type htyped htype hfree s₂ h₂ hsector _ _ => Ends.get ?_
  rw [hsector]
  exact h₂.storeTwo (takes_off hfree _) (takes_enter htyped (htype ▸ henter))

theorem fsCreate_lasts (name : CStr) : way.EndsLasting (fsCreate (dev.cut fails) name) s := by
  refine prepared hp hrest name inodeFile fun k b j s₁ hv hk hb henter => ?_
  exact created hrest inodeFile (.inl rfl) (by decide) hv hk hb
    fun type htyped htype _ s₂ h₂ _ _ _ => Ends.get (h₂.store (takes_enter htyped (htype ▸ henter)))

theorem fsMkdirPath_lasts (path : CStr) :
    way.EndsLasting (fsMkdirPath (dev.cut fails) path) s := by
  have h := way.lasts_self hrest
  have hinv := hrest.inv
  refine Ends.get <| Ends.require h fun _ => Ends.require h fun _ => ?_
  cases hsplit : splitPath path with
  | none => exact fsMkdir_lasts hp hrest path
  | some parts =>
      obtain ⟨parentName, newdir⟩ := parts
      refine Ends.require h fun hne => Ends.require h fun _ => Ends.require h fun hlen => ?_
      rw [Ends, wp_bind, hinv.wp_ensureRootDirBlock]
      refine Ends.get ?_
      rw [Ends, wp_bind, (hp.cut_readable fails).wp_loadScratch, wp_bind]
      refine wp_lookupDir rfl (fun i d hit => ?_) fun _ => h
      have hd := hinv.keptDir hinv.linked.root hit
      refine Ends.get <| Ends.require h fun _ => ?_
      rw [Ends, wp_bind, (hp.cut_readable fails).wp_loadScratch2]
      refine Ends.get ?_
      simp only [Fs.scratch2_setScratch2, Fs.toVolume_setScratch2, Fs.toVolume_setScratch,
        Fs.toVolume_noted, Volume.disk_sectorOf]
      cases hscan : scanEntries neverBad newdir inodeDir (s.blockOf d) s.inodes with
      | bad => exact h
      | found j k => exact h
      | absent free =>
          refine Ends.demand h fun j hj => Ends.demand h fun k hk => Ends.demand h fun b hb => ?_
          have henter := canEnter_of_scan hd (fun _ => rfl) hne hlen (hj ▸ hscan)
          refine created hrest inodeDir (.inr rfl) (by decide) (by rfl) hk hb
            fun type htyped htype hfree s₂ h₂ hsector _ hb₂ => Ends.get ?_
          rw [hsector, Ends, wp_bind]
          refine h₂.write (takes_off hfree _) fun s₃ h₃ _ _ hb₃ => ?_
          rw [wp_bind, wp_setScratch2]
          refine Ends.get (Guards.store (d := d) h₃ ?_)
          rw [Fs.scratch2_setScratch2, hb₃, hb₂]
          exact takes_enter htyped (htype ▸ henter)

/-! ## Writing -/

omit hp in
theorem claimed {free : Option Slot} {s₁ : Fs} (hv : s₁.toVolume = s.toVolume)
    {Q : Slot × InodeNo → Fs → Prop}
    (hQ : ∀ type, Typed s.toVolume type → ∀ j k s₂, free = some j → type k = inodeFile →
      ¬ way.Holds k → way.Guards type s₂.toVolume → s₂.blockScratch2 = s₁.blockScratch2 →
      (allocInodeRaw s.toVolume).isSome → (allocBlockRaw s.toVolume).isSome → Q (j, k) s₂) :
    wp (claimFile free) Q (fun s => way.Lasts s.toVolume) (fun s => way.Lasts s.toVolume) s₁ := by
  have htyped := s.toVolume.typed_typesOr fun _ => inodeFile
  have hguards := way.guards_self hrest htyped
  refine wp_claimFile (fun j k b hj hk hb => ?_) ⟨_, hguards.of_eq hv⟩
  rw [hv] at hk hb ⊢
  have hsize : (s.inodes k).size.toNat ≤ 512 := by
    rw [hrest.inv.alloc.unused k (allocInodeRaw_some hk).1]
    decide
  obtain ⟨hc, -⟩ := hrest.inv.canTake hk hb (.inl rfl) hsize
  have hkt := Volume.typesOr_free (fun _ => inodeFile) hc.unused
  exact hQ _ htyped j k _ hj hkt (hguards.not_holds hc.unused)
    (hguards.take hrest.inv hc hkt.symm) rfl (by rw [hk]; rfl) (by rw [hb]; rfl)

theorem fsWrite_lasts {path name : CStr} (data : CStr) (hparent : s.toVolume.Parent path 0 name)
    (hplace : ¬ SamePlace path p) :
    way.EndsLasting (fsWrite (dev.cut fails) name data) s := by
  have h := way.lasts_self hrest
  have hinv := hrest.inv
  have finish : ∀ {type : InodeNo → UInt8} {b : Block} {k : InodeNo} (s₂ : Fs),
      way.Guards type s₂.toVolume → ¬ way.Holds k → way.Takes type 0 b → way.EndsLasting (do
        modifyInode k fun ino => { ino with size := dataLength data }
        let s ← get
        diskWriteLba (dev.cut fails) 512 (s.sectorOf 0) b
        diskWriteLba (dev.cut fails) 512 (s.sectorOf k) (fileBlock data)
        flushTables (dev.cut fails)) s₂ := fun _ h₂ hk hb =>
    EndsGuarded.lasts <| h₂.resize_step hk fun _ h₃ _ _ => Ends.get <|
      h₃.storeTwo hb (takes_off hk _)
  refine Ends.get <| Ends.require h fun _ => Ends.require h fun hname => Ends.require h fun hlen => ?_
  rw [Ends, wp_bind, hinv.wp_ensureRootDirBlock]
  refine Ends.get ?_
  rw [Ends, wp_bind, (hp.cut_readable fails).wp_read]
  simp only [Volume.disk_sectorOf]
  cases hscan : scanEntries outOfTable name inodeFile (s.blockOf 0) s.inodes with
  | bad => exact h
  | found j k =>
      obtain ⟨hit, -⟩ := scan_found hscan
      have htyped := s.toVolume.typed_typesOr fun _ => inodeFile
      have hk := way.not_holds hparent hit hplace fun ht => absurd ht (by decide)
      exact finish (s.noted _) (way.guards_self hrest htyped) hk
        (takes_same htyped hinv.linked.root.1)
  | absent free =>
      rw [wp_bind]
      refine claimed hrest (by rfl) fun type htyped j k s₂ hj htype hk h₂ _ _ _ => ?_
      have henter := canEnter_of_scan hinv.linked.root outOfTable_inodeByte hname hlen (hj ▸ hscan)
      exact finish s₂ h₂ hk (takes_enter htyped (htype ▸ henter))

theorem fsWritePath_lasts (path data : CStr) (hfit : ¬ Overflows s.toVolume path)
    (hplace : ¬ SamePlace path p) :
    way.EndsLasting (fsWritePath (dev.cut fails) path data) s := by
  have h := way.lasts_self hrest
  have hinv := hrest.inv
  refine Ends.get <| Ends.require h fun _ => Ends.require h fun _ => ?_
  cases hsplit : splitPath path with
  | none => exact fsWrite_lasts hp hrest data (.ofRoot hsplit) hplace
  | some parts =>
      obtain ⟨dirname, filename⟩ := parts
      refine Ends.require h fun hname => Ends.require h fun _ => ?_
      rw [Ends, wp_bind, (hp.cut_readable fails).wp_loadScratch, wp_bind]
      refine wp_lookupDir rfl (fun i d hit => ?_) fun _ => h
      have hd := hinv.keptDir hinv.linked.root hit
      have hparent : s.toVolume.Parent path d filename := .ofDir hsplit hit
      have finish : ∀ {type : InodeNo → UInt8} {k : InodeNo} (s₂ : Fs),
          way.Guards type s₂.toVolume → ¬ way.Holds k → way.Takes type d s₂.blockScratch2 →
          way.EndsLasting (do
            modifyInode k fun ino => { ino with size := dataLength data }
            let s ← get
            diskWriteLba (dev.cut fails) 512 (s.sectorOf d) s.blockScratch2
            diskWriteLba (dev.cut fails) 512 (s.sectorOf k) (fileBlock data)
            flushTables (dev.cut fails)) s₂ := fun _ h₂ hk hb =>
        EndsGuarded.lasts <| h₂.resize_step hk fun s₃ h₃ _ hb₃ => Ends.get <|
          h₃.storeTwo (hb₃ ▸ hb) (takes_off hk _)
      refine Ends.get <| Ends.require h fun _ => ?_
      rw [Ends, wp_bind, (hp.cut_readable fails).wp_loadScratch2]
      refine Ends.get ?_
      simp only [Fs.scratch2_setScratch2, Fs.toVolume_setScratch2, Fs.toVolume_setScratch,
        Fs.toVolume_noted, Volume.disk_sectorOf]
      cases hscan : scanEntries outOfTable filename inodeFile (s.blockOf d) s.inodes with
      | bad => exact h
      | found j k =>
          obtain ⟨hfile, -⟩ := scan_found hscan
          have htyped := s.toVolume.typed_typesOr fun _ => inodeFile
          have hk := way.not_holds hparent hfile hplace fun ht => absurd ht (by decide)
          exact finish _ (way.guards_self hrest htyped) hk (takes_same htyped hd.1)
      | absent free =>
          rw [Ends, wp_bind]
          refine claimed hrest (by rfl) fun type htyped j k s₂ hj htype hk h₂ hb₂ hino hblock => ?_
          have hlen : filename.length < 30 := by
            have hfree : firstFreeSlot (s.blockOf d) = some j := hj ▸ (scan_absent hscan).2.symm
            refine Nat.lt_of_not_le fun hlong => hfit ⟨dirname, filename, i, d, hsplit, hlong,
              hit, ?_, hino, hblock⟩
            rw [hfree, Option.isSome_some]
          have henter := canEnter_of_scan hd outOfTable_inodeByte hname hlen (hj ▸ hscan)
          refine finish (s₂.setScratch2 _) h₂ hk ?_
          rw [Fs.scratch2_setScratch2, hb₂]
          exact takes_enter htyped (htype ▸ henter)

/-! ## Copying -/

omit hp hrest in
theorem not_holds_target {srcPath dstPath name : CStr} {d k : InodeNo} {j : Slot}
    (htarget : s.toVolume.CopyTarget srcPath dstPath d name)
    (hit : Hit (s.dirAt d) s.inodes name inodeFile j k) (hplace : ¬ SamePlace dstPath p)
    (hlast : splitPath p ≠ some (dstPath, lastName srcPath)) : ¬ way.Holds k := by
  have other : s.toVolume.Parent dstPath d name → ¬ way.Holds k := fun hparent =>
    not_holds hparent hit hplace fun ht => absurd ht (by decide)
  cases hdst : splitPath dstPath with
  | some parts =>
      rw [Volume.CopyTarget, hdst] at htarget
      refine other ?_
      rw [Volume.Parent, hdst]
      exact htarget
  | none =>
      rw [Volume.CopyTarget, hdst] at htarget
      rcases htarget with ⟨⟨i, hdir⟩, rfl⟩ | ⟨-, rfl, rfl⟩
      · -- into the directory `dstPath`, where `p` would have to lead
        have hroot := way.inv.linked.root
        intro hk
        obtain ⟨e, he, rfl, rfl, hname, rfl⟩ :=
          point_of_holds (way.inv.keptDir hroot hdir) hit.entry hk
        have hp := way.files e he ((way.hit e he).type.symm.trans hit.type)
        cases hsplit : splitPath p with
        | none =>
            rw [Volume.Parent, hsplit] at hp
            exact (way.inv.named hroot hdir).1 hp.1
        | some parts =>
            rw [Volume.Parent, hsplit] at hp
            obtain ⟨⟨i', hdir'⟩, hrest⟩ := hp
            obtain ⟨-, hdirname⟩ := way.inv.entry_det hroot hroot hdir'.entry hdir.entry
            refine hlast (hsplit.trans ?_)
            rw [← hdirname, ← hname, hrest]
      · exact other (.ofRoot hdst)

theorem fsCopyPath_lasts (srcPath dstPath : CStr) (hplace : ¬ SamePlace dstPath p)
    (hlast : splitPath p ≠ some (dstPath, lastName srcPath)) :
    way.EndsLasting (fsCopyPath (dev.cut fails) srcPath dstPath) s := by
  have h := way.lasts_self hrest
  have hinv := hrest.inv
  refine Ends.get <| Ends.require h fun _ => Ends.require h fun _ => ?_
  have hsource := copySource_spec (s := s) hp srcPath
  refine Ends.bind (wp_mono hsource (fun _ _ h => h) (fun _ hv => h.of_eq hv) fun _ h => h.elim) ?_
  rintro src s₁ ⟨hv₁, _, _, _, -, hsrc⟩
  refine Ends.get <| Ends.require (h.of_eq hv₁) fun _ => ?_
  have hsize : (s₁.inodes src).size.toNat ≤ 512 := by
    rw [hv₁]
    exact hinv.alloc.sizeLe src hsrc.used
  generalize (s₁.inodes src).size = fileSize at hsize
  have hinv₁ : Inv stray (s₁.noted ⟨false, s₁.sectorOf src, 1, 512⟩).toVolume := by
    simpa [hv₁] using hinv
  rw [Ends, wp_bind, (hp.cut_readable fails).wp_read, wp_bind,
    hinv₁.wp_ensureRootDirBlock]
  generalize s₁.disk (s₁.sectorOf src) = fileData
  have hnoted : (s₁.noted ⟨false, s₁.sectorOf src, 1, 512⟩).toVolume = s.toVolume := hv₁
  generalize s₁.noted _ = s₁ at hnoted ⊢
  have htarget := copyTarget_spec (s := s₁) hp srcPath dstPath
  rw [hnoted] at htarget
  refine Ends.bind (wp_mono htarget (fun _ _ h => h) (fun _ hv => h.of_eq hv) fun _ h => h.elim) ?_
  rintro ⟨d, name⟩ s₂ ⟨hv₂, htarget⟩
  have hd := hinv.copyTarget_kept htarget
  have h₂ := h.of_eq hv₂
  refine Ends.require h₂ fun hname => Ends.get <| Ends.require h₂ fun _ => ?_
  rw [Ends, wp_bind, (hp.cut_readable fails).wp_loadScratch2]
  refine Ends.get ?_
  simp only [Fs.scratch2_setScratch2, Fs.toVolume_setScratch2, Fs.toVolume_noted, Volume.disk_sectorOf,
    hv₂]
  have finish : ∀ {type : InodeNo → UInt8} {k : InodeNo} (s₃ : Fs),
      way.Guards type s₃.toVolume → ¬ way.Holds k → way.Takes type d s₃.blockScratch2 →
      way.EndsGuarded type (do
        let s ← get
        diskWriteLba (dev.cut fails) 512 (s.sectorOf d) s.blockScratch2
        diskWriteLba (dev.cut fails) 512 (s.sectorOf k) fileData
        flushTables (dev.cut fails)) s₃ := fun _ h₃ hk hb =>
    Ends.get (h₃.storeTwo hb (takes_off hk _))
  cases hscan : scanEntries neverBad name inodeFile (s.blockOf d) s.inodes with
  | bad => exact h₂
  | found j k =>
      obtain ⟨hfile, -⟩ := scan_found hscan
      have htyped := s.toVolume.typed_typesOr fun _ => inodeFile
      have hk := way.not_holds_target htarget hfile hplace hlast
      refine EndsGuarded.lasts <| Guards.resize_step ((way.guards_self hrest htyped).of_eq hv₂) hk
        fun s₃ h₃ _ hb₃ => finish s₃ h₃ hk ?_
      rw [hb₃]
      exact takes_same htyped hd.1
  | absent free =>
      refine Ends.demand h₂ fun j hj => Ends.demand h₂ fun k hk => Ends.demand h₂ fun b hb => ?_
      have henter := canEnter_of_scan hd (fun _ => rfl) hname.1 hname.2 (hj ▸ hscan)
      refine created hrest inodeFile (.inl rfl) hsize (by exact hv₂) hk hb
        fun type htyped htype hfree s₃ h₃ _ _ hb₃ => ?_
      rw [EndsGuarded, Ends, wp_bind, wp_setScratch2]
      refine finish (s₃.setScratch2 _) h₃ hfree ?_
      rw [Fs.scratch2_setScratch2, hb₃]
      exact takes_enter htyped (htype ▸ henter)

/-! ## Renaming -/

theorem loadDir_step {s₁ : Fs} (hv : s₁.toVolume = s.toVolume) {d : InodeNo}
    (hd : LiveDir s.inodes d) {α : Type} {f : Block → FsM α}
    (hf : ∀ s₂ : Fs, s₂.toVolume = s.toVolume → way.EndsLasting (f (s.blockOf d)) s₂) :
    way.EndsLasting (loadDirBlock (dev.cut fails) d >>= f) s₁ := by
  have hinv : Inv stray s₁.toVolume := hv ▸ hrest.inv
  have hload : wp (loadDirBlock (dev.cut fails) d) (fun b s₂ => b = s.blockOf d ∧
      s₂.toVolume = s.toVolume) (fun s => way.Lasts s.toVolume) (fun s => way.Lasts s.toVolume) s₁ :=
    (wp_loadDirBlock hp hinv (hv ▸ hd)).mpr ⟨by rw [hv], hv⟩
  refine Ends.bind hload ?_
  rintro b s₂ ⟨rfl, hv₂⟩
  exact hf s₂ hv₂

omit hp hrest in
theorem Guards.writeDir {type : InodeNo → UInt8} {s₁ : Fs} (h : way.Guards type s₁.toVolume)
    {d : InodeNo} {b : Block} (hb : way.Takes type d b) :
    way.EndsGuarded type (writeDirBlock (dev.cut fails) d b) s₁ := by
  simp only [EndsGuarded, Ends, writeDirBlock, wp_bind, wp_get, wp_require]
  exact ⟨fun _ => h.write hb fun s' h' _ _ _ => h', fun _ => h⟩

theorem fsRename_lasts (srcPath dstPath : CStr) (hplace : ¬ SamePlace srcPath p)
    (htop : topName p ≠ some srcPath) :
    way.EndsLasting (fsRename (dev.cut fails) srcPath dstPath) s := by
  have h := way.lasts_self hrest
  have hinv := hrest.inv
  have htyped := s.toVolume.typed_typesOr fun _ => 0
  have hguards := way.guards_self hrest htyped
  refine Ends.get <| Ends.require h fun _ => Ends.require h fun _ => ?_
  have hsource := renameSource_spec hp hinv srcPath
  refine Ends.bind (wp_mono hsource (fun _ _ h => h) (fun _ hv => h.of_eq hv) fun _ h => h.elim) ?_
  rintro ⟨d, srcName⟩ s₁ ⟨hv₁, hparent⟩
  have hd := hinv.parent_kept hparent
  refine Ends.require (h.of_eq hv₁) fun _ => ?_
  refine loadDir_step hp hrest hv₁ hd.1 fun s₂ hv₂ => Ends.get <| Ends.demand (h.of_eq hv₂) ?_
  rintro ⟨j, type⟩ hentry
  rw [hv₂] at hentry
  obtain ⟨k, hentry⟩ := renameEntryOf_some hentry
  refine Ends.demand (h.of_eq hv₂) fun k' hk' => ?_
  rw [hentry.1.inodeIndex] at hk'
  cases hk'
  have hk : ¬ way.Holds k := way.not_holds hparent hentry.1 hplace fun _ => htop
  -- the target is looked up in the same volume
  have htarget := renameTarget_spec (s := s₂) hp (hv₂ ▸ hinv) srcName dstPath
  rw [hv₂] at htarget
  refine Ends.bind (wp_mono htarget (fun _ _ h => h) (fun _ hv => h.of_eq hv) fun _ h => h.elim) ?_
  rintro ⟨d', name, isDir⟩ s₃ ⟨hv₃, htarget⟩
  have hd' := hinv.renameTarget_kept htarget
  have h₃ := h.of_eq hv₃
  refine Ends.require h₃ fun hname => Ends.require h₃ fun hlen => Ends.ite (fun _ => h₃) fun _ => ?_
  refine loadDir_step hp hrest hv₃ hd'.1 fun s₄ hv₄ => Ends.get <|
    Ends.ite (fun _ => h.of_eq hv₄) fun _ => Ends.require (h.of_eq hv₄) fun habsent => ?_
  rw [hv₄] at habsent
  have hfits : 1 ≤ name.length ∧ name.length < 30 := by
    refine ⟨?_, hlen⟩
    have : name.length ≠ 0 := fun h0 => hname (CStr.length_eq_zero.mp h0)
    omega
  have htype : type ≠ 0 := by
    rcases hentry.2 with rfl | ⟨rfl, -⟩ <;> decide
  have hkt : s.toVolume.typesOr (fun _ => 0) k = type :=
    (htyped k hentry.1.used).trans hentry.1.type
  have habsent := findDirEntry_none htype habsent
  rw [← hkt] at habsent
  refine Ends.ite (fun hdd => ?_) fun hdd => ?_
  · subst hdd
    exact EndsGuarded.lasts (Guards.writeDir (hguards.of_eq hv₄)
      (takes_rename htyped hd hentry.1.entry hk hfits habsent))
  · refine Ends.demand (h.of_eq hv₄) fun j' hj' => ?_
    have henter : s.toVolume.CanEnter stray d' j' name (s.toVolume.typesOr (fun _ => 0) k) :=
      ⟨hd', firstFreeSlot_some hj', hfits, habsent⟩
    refine EndsGuarded.lasts (Ends.bind ?_ fun _ _ h₅ =>
      Guards.writeDir h₅ (takes_enter htyped henter))
    exact (hguards.of_eq hv₄).writeDir (takes_leave htyped hd hentry.1.entry hk)

/-! ## The password -/

omit hp hrest in
/-- What is written to the `sys` directory, in a volume that has one. -/
theorem writeSysEntry_guarded {type : InodeNo → UInt8} {w : Volume} {s₁ : Fs} {d : InodeNo}
    {filename : CStr} {data : List UInt8} (hdata : data.length ≤ 512) (hw : Inv stray w)
    (h : way.Guards type s₁.toVolume) (hv : s₁.toVolume = w) (hb : s₁.blockScratch2 = w.blockOf d)
    (hnew : ∀ k, ¬ Live w.inodes k → type k = inodeFile)
    (hfile : ∀ j k, Hit (w.dirAt d) w.inodes filename inodeFile j k → ¬ way.Holds k)
    (hsame : way.Takes type d (w.blockOf d))
    (hentry : ∀ j k, ¬ Live w.inodes k → w.dirAt d j = none →
      (∀ i x, ¬ Hit (w.dirAt d) w.inodes filename inodeFile i x) →
      way.Takes type d (fillEntry (w.blockOf d) j k filename)) :
    way.EndsGuarded type (writeSysEntry (dev.cut fails) d filename data) s₁ := by
  have hsize : (UInt32.ofNat data.length).toNat ≤ 512 := by
    rw [UInt32.toNat_ofNat']
    omega
  have hkey : wp (ensureSysEntry filename (UInt32.ofNat data.length))
      (fun k s₂ => way.Guards type s₂.toVolume ∧ ¬ way.Holds k ∧ way.Takes type d s₂.blockScratch2)
      (fun s => way.Guards type s.toVolume) (fun s => way.Guards type s.toVolume) s₁ := by
    subst hv
    simp only [ensureSysEntry, wp_bind, wp_get, hb]
    cases hfind : findDirEntry filename (s₁.blockOf d) s₁.inodes inodeFile with
    | some j =>
        obtain ⟨k, hit⟩ := findDirEntry_some (by decide) hfind
        have hk := hfile j k hit
        simp only [wp_bind, wp_demand, hit.inodeIndex, wp_modifyInode, wp_pure]
        refine ⟨fun k' hk' => ?_, fun hnone => by cases hnone⟩
        cases hk'
        exact ⟨h.resize hk _, hk, hb ▸ hsame⟩
    | none =>
        have hmiss := findDirEntry_none (by decide) hfind
        simp only [wp_bind, wp_demand]
        refine ⟨fun k hk => ⟨fun b hblock => ?_, fun _ => h⟩, fun _ => h⟩
        obtain ⟨hc, -⟩ := hw.canTake hk hblock (.inl rfl) hsize
        have htaken := h.take hw hc (hnew k hc.unused).symm
        simp only [wp_markBlockUsed, wp_modifyInode]
        refine ⟨fun j hj => ?_, fun _ => htaken⟩
        rw [wp_setScratch2, wp_pure]
        refine ⟨htaken, h.not_holds hc.unused, ?_⟩
        rw [Fs.scratch2_setScratch2, Fs.scratch2_setVolume, Fs.scratch2_setVolume, hb]
        refine hentry j k hc.unused (firstFreeSlot_some ?_) hmiss
        simpa [hb] using hj
  refine Ends.bind hkey ?_
  rintro k s₂ ⟨h₂, hk, hb₂⟩
  refine Ends.get ?_
  rw [Ends, wp_bind]
  refine h₂.write hb₂ fun s₃ h₃ _ _ _ => ?_
  rw [wp_bind, wp_setScratch]
  exact Ends.get (Guards.store (d := k) h₃ (takes_off hk _))

/-- The types when `sys` is inode `d` and what else is made is a file. -/
def sysTypes (v : Volume) (d : InodeNo) : InodeNo → UInt8 :=
  v.typesOr fun i => if i = d then inodeDir else inodeFile

omit hp in
theorem ensureSysDir_guarded {s₁ : Fs} (hv : s₁.toVolume = s.toVolume)
    (hb : s₁.blockScratch = s.blockOf 0) :
    wp (ensureSysDir (dev.cut fails))
      (fun d s₂ => way.Guards (sysTypes s.toVolume d) s₂.toVolume ∧
        way.Takes (sysTypes s.toVolume d) 0 s₂.blockScratch ∧
        SysDir stray s.toVolume (s₂.toVolume.setSector (s₂.sectorOf 0) s₂.blockScratch) d)
      (fun s => way.Lasts s.toVolume) (fun s => way.Lasts s.toVolume) s₁ := by
  have hinv := hrest.inv
  have hlasts := (way.lasts_self hrest).of_eq hv
  have htyped := fun d => s.toVolume.typed_typesOr fun i => if i = d then inodeDir else inodeFile
  have hguards := fun d => way.guards_self hrest (htyped d)
  simp only [ensureSysDir, wp_bind, wp_get, hb, hv]
  cases hfind : findDirEntry sysName (s.blockOf 0) s.inodes inodeDir with
  | some i =>
      obtain ⟨d, hit⟩ := findDirEntry_some (by decide) hfind
      simp only [wp_bind, wp_demand, hit.inodeIndex, wp_require, wp_pure]
      refine ⟨fun d' hd' => ⟨fun _ => ?_, fun _ => hlasts⟩, fun hnone => by cases hnone⟩
      cases hd'
      refine ⟨(hguards d).of_eq hv, ?_, .inl ⟨⟨i, hit⟩, ?_⟩⟩
      · rw [hb]
        exact takes_same (htyped d) hinv.linked.root.1
      · rw [hv, hb]
        exact Volume.setSector_eq_self rfl
  | none =>
      have hmiss := findDirEntry_none (by decide) hfind
      simp only [wp_bind, wp_demand]
      refine ⟨fun k hk => ⟨fun b hblock => ?_, fun _ => hlasts⟩, fun _ => hlasts⟩
      obtain ⟨hc, hk0⟩ := hinv.canTake hk hblock (.inr rfl) (show (0 : UInt32).toNat ≤ 512 by decide)
      have htype : sysTypes s.toVolume k k = inodeDir := by
        rw [sysTypes, Volume.typesOr_free _ hc.unused, if_pos rfl]
      have htaken := (hguards k).take hinv hc htype.symm
      have hfree := (hguards k).not_holds hc.unused
      simp only [wp_markBlockUsed, wp_modifyInode, hv]
      refine ⟨fun j hj => ?_, fun _ => ⟨_, htaken⟩⟩
      have henter : s.toVolume.CanEnter stray 0 j sysName inodeDir :=
        ⟨hinv.linked.root, firstFreeSlot_some (by simpa [hb] using hj), by decide, hmiss⟩
      simp only [wp_setScratch, wp_setScratch2, wp_get, wp_pure]
      refine wp_mono (Guards.write (i := k) ?_ (takes_off hfree _) fun s₂ h₂ hv₂ hb₂ _ => ⟨h₂, ?_⟩)
        (fun _ _ h => h) (fun _ h => ⟨_, h⟩) fun _ h => h
      · exact htaken
      · have hentered : s₂.blockScratch = fillEntry (s.blockOf 0) j k sysName := by
          rw [hb₂]
          simp [hb]
        refine ⟨?_, .inr ⟨j, b, allocInodeRaw_free hk, allocBlockRaw_free hblock, hc, henter, hk0,
          ?_⟩⟩
        · rw [hentered]
          exact takes_enter (htyped k) (htype.symm ▸ henter)
        · rw [hv₂, hentered]
          simp [Volume.create, Volume.take, Volume.setData, Volume.sectorOf_eq, hk0.symm,
            Inode.fresh]

theorem fsWritePasswd_lasts (hash : UInt32) (hne : p ≠ sysPasswd) :
    way.EndsLasting (fsWritePasswd (dev.cut fails) hash) s := by
  have h := way.lasts_self hrest
  have hinv := hrest.inv
  rw [fsWritePasswd, writeSysFile, EndsLasting, Ends, wp_bind, hinv.wp_ensureRootDirBlock]
  simp only [readRootDirBlock, wp_bind, wp_get, wp_require,
    (hp.cut_readable fails).wp_loadScratch]
  refine ⟨fun _ => ?_, fun _ => h⟩
  refine wp_mono (ensureSysDir_guarded hrest (by rfl) (by rfl)) ?_ (fun _ h => h) fun _ h => h
  rintro d s₂ ⟨h₂, htakes, hdir⟩
  have htyped := s.toVolume.typed_typesOr fun i => if i = d then inodeDir else inodeFile
  have hnew : ∀ k, ¬ Live s.inodes k → k ≠ d → sysTypes s.toVolume d k = inodeFile := fun k hk hkd => by
    rw [sysTypes, Volume.typesOr_free _ hk, if_neg hkd]
  refine wp_mono (h₂.write htakes fun s₃ h₃ hv₃ _ _ => ?_) (fun _ _ h => h) (fun _ h => ⟨_, h⟩)
    fun _ h => h
  rw [← hv₃] at hdir
  have hsector : s₂.sectorOf d = s₃.sectorOf d := by
    rw [hv₃]
    rfl
  rw [hsector, (hp.cut_readable fails).wp_loadScratch2]
  obtain ⟨hw, hkept⟩ := hdir.inv hinv
  have hdata : (hashBytes hash).length ≤ 512 := by
    change 4 ≤ 512
    decide
  rcases hdir with ⟨⟨i, hit⟩, hv⟩ | ⟨j, b, -, -, hc, henter, hk0, hv⟩
  · -- the directory was there
    have hparent : s.toVolume.Parent sysPasswd d passwdName := .ofDir splitPath_sysPasswd hit
    rw [hv] at hkept
    refine EndsGuarded.lasts (writeSysEntry_guarded hdata hinv h₃ hv
      (congrArg (fun v => Volume.blockOf v d) hv) ?_ ?_ (takes_same htyped hkept.1) ?_)
    · intro k hk
      exact hnew k hk fun heq => hk (heq ▸ hit.used)
    · intro j k hfile
      exact way.not_holds hparent hfile (fun hplace => hne hplace.sysPasswd)
        fun ht => absurd ht (by decide)
    · intro j k hk hfree hmiss
      have htype := hnew k hk fun heq => hk (heq ▸ hit.used)
      exact takes_enter htyped ⟨hkept, hfree, by decide, by rwa [← htype] at hmiss⟩
  · -- it was made, and is empty
    have hd : ¬ way.Holds d := fun hheld => hc.unused hheld.live.1
    refine EndsGuarded.lasts (writeSysEntry_guarded hdata hw h₃ rfl rfl ?_ ?_ (takes_off hd _)
      fun _ _ _ _ _ => takes_off hd _)
    · intro k hk
      rw [hv, Live] at hk
      have hkd : k ≠ d := by
        rintro rfl
        exact hk (by rw [Inv.inodes_create_new]; exact hc.used)
      refine hnew k (fun hlive => hk ?_) hkd
      rw [hinv.inodes_create hc hlive]
      exact hlive
    · intro i k hfile
      have hentry := hfile.entry
      rw [hv, dirAt_create_self hinv hinv.rootLive hc, listing_zero] at hentry
      cases hentry

end Calls

end Way

end SevenOS
