import SevenOS.FileSystem.Renaming

/-! # Renaming on a disk that fails once

A move between two directories first clears the old entry and then writes the
new one. If the second write fails the entry is nowhere: of all transfers of a
rename this is the only one whose failure loses anything.
-/

namespace SevenOS

open Prog

variable {dev : Device} {stray : InodeNo → Prop} {v v' : Volume} {s : Fs} {n : Nat}

/-- The same disk, but the transfer after the first `n` fails and leaves its sector as
it was. -/
def Device.failingAt (dev : Device) (n : Nat) : Device :=
  { dev with
    readFails := fun s _ => s.log.length == n + 1
    writeFault := fun s lba => if s.log.length = n + 1 then some (s.disk lba) else none }

/-- The rename gets as far as moving an entry from one directory to another. -/
def Volume.Moves (v : Volume) (src dst : CStr) : Prop :=
  ∃ d srcName j k type d' name isDir, v.Parent src d srcName ∧
    v.RenameEntry d srcName j k type ∧ v.RenameTarget srcName dst d' name isDir ∧ d' ≠ d ∧
    ¬ (isDir = true ∧ type = inodeDir ∧ d' = k) ∧ (1 ≤ name.length ∧ name.length < 30) ∧
    (∀ i k', ¬ Hit (v.dirAt d') v.inodes name type i k') ∧ ∃ j', v.dirAt d' j' = none

/-- The transfers of a move before it writes the new entry. -/
def moveTransfers (src : CStr) : Nat := if splitPath src = none then 4 else 5

/-- The inode that `src` names. -/
def Volume.RenameInode (v : Volume) (src : CStr) (k : InodeNo) : Prop :=
  ∃ d name j type, v.Parent src d name ∧ v.RenameEntry d name j k type

/-- Source or destination directory of the rename. -/
def Volume.RenameDir (v : Volume) (src dst : CStr) (d : InodeNo) : Prop :=
  ∃ d₀ srcName, v.Parent src d₀ srcName ∧
    (d = d₀ ∨ ∃ name isDir, v.RenameTarget srcName dst d name isDir)

/-- A used entry of the source or of the destination directory names inode `k`. -/
def Volume.StillNamed (v : Volume) (src dst : CStr) (v' : Volume) (k : InodeNo) : Prop :=
  ∃ d i name, v.RenameDir src dst d ∧ v'.dirAt d i = some (name, inodeByte k)

/-- The volume when the old entry is cleared and the new one not yet written. -/
def Volume.halfMoved (v : Volume) (d : InodeNo) (j : Slot) : Volume :=
  v.setData (v.inodes d).direct0 (clearEntry (v.blockOf d) j)

/-! ## What a rename looks up is determined -/

theorem Volume.RenameInode.named {src dst : CStr} {k : InodeNo} (h : v.RenameInode src k) :
    v.StillNamed src dst v k := by
  obtain ⟨d, name, j, type, hparent, hentry⟩ := h
  exact ⟨d, j, name, ⟨d, name, hparent, .inl rfl⟩, hentry.1.entry⟩

theorem renameEntryOf_none {d : InodeNo} {name : CStr}
    (h : renameEntryOf name (v.blockOf d) v.inodes = none) {j : Slot} {k : InodeNo}
    {type : UInt8} : ¬ v.RenameEntry d name j k type := by
  unfold renameEntryOf at h
  split at h
  · cases h
  · next hfile =>
      have hdir := Option.map_eq_none_iff.mp h
      rintro ⟨hit, rfl | ⟨rfl, -⟩⟩
      · exact findDirEntry_none (by decide) hfile _ _ hit
      · exact findDirEntry_none (by decide) hdir _ _ hit

namespace Inv

variable {src dst srcName srcName' name name' : CStr} {d d' k k' : InodeNo} {j j' : Slot}
  {type type' : UInt8} {isDir isDir' : Bool}

theorem renameEntry_det (h : Inv stray v) (hd : Kept stray v.inodes d)
    (he : v.RenameEntry d name j k type) (he' : v.RenameEntry d name j' k' type') :
    j = j' ∧ k = k' ∧ type = type' := by
  have htype : type = type' := by
    obtain ⟨hit, rfl | ⟨rfl, hno⟩⟩ := he <;> obtain ⟨hit', rfl | ⟨rfl, hno'⟩⟩ := he'
    · rfl
    · exact (hno' _ _ hit).elim
    · exact (hno _ _ hit').elim
    · rfl
  subst htype
  obtain ⟨hj, hk⟩ := h.hit_unique hd he.1 he'.1
  exact ⟨hj, hk, rfl⟩

theorem rootDir_det (h : Inv stray v) {o o' : Option InodeNo} (ho : v.RootDir name o)
    (ho' : v.RootDir name o') : o = o' := by
  cases o with
  | none =>
      cases o' with
      | none => rfl
      | some d => exact (ho _ _ ho'.choose_spec).elim
  | some d =>
      cases o' with
      | none => exact (ho' _ _ ho.choose_spec).elim
      | some d' => rw [(h.hit_unique h.linked.root ho.choose_spec ho'.choose_spec).2]

theorem renameTarget_det (h : Inv stray v) (ht : v.RenameTarget srcName dst d name isDir)
    (ht' : v.RenameTarget srcName dst d' name' isDir') : d = d' ∧ name = name' ∧ isDir = isDir' := by
  unfold Volume.RenameTarget at ht ht'
  split at ht
  · next dirname rest hsplit =>
      rw [hsplit] at ht'
      obtain ⟨hroot, hrest⟩ := ht
      obtain ⟨hroot', hrest'⟩ := ht'
      refine ⟨Option.some.inj (h.rootDir_det hroot hroot'), ?_⟩
      rcases hrest with ⟨he, rfl, rfl⟩ | ⟨he, rfl, rfl⟩ <;>
        rcases hrest' with ⟨he', rfl, rfl⟩ | ⟨he', rfl, rfl⟩
      · exact ⟨rfl, rfl⟩
      · exact (he' he).elim
      · exact (he he').elim
      · exact ⟨rfl, rfl⟩
  · next hsplit =>
      rw [hsplit] at ht'
      rcases ht with ⟨hroot, rfl, rfl⟩ | ⟨hroot, rfl, rfl, rfl⟩ <;>
        rcases ht' with ⟨hroot', rfl, rfl⟩ | ⟨hroot', rfl, rfl, rfl⟩
      · exact ⟨Option.some.inj (h.rootDir_det hroot hroot'), rfl, rfl⟩
      · cases h.rootDir_det hroot hroot'
      · cases h.rootDir_det hroot hroot'
      · exact ⟨rfl, rfl, rfl⟩

theorem renameInode_det (h : Inv stray v) (hk : v.RenameInode src k) (hk' : v.RenameInode src k') :
    k = k' := by
  obtain ⟨d, name, j, type, hparent, hentry⟩ := hk
  obtain ⟨d', name', j', type', hparent', hentry'⟩ := hk'
  obtain ⟨rfl, rfl⟩ := h.parent_det hparent hparent'
  exact (h.renameEntry_det (h.parent_kept hparent) hentry hentry').2.1

/-- What the rename looks up decides whether it moves something. -/
theorem moves_at (h : Inv stray v) (hparent : v.Parent src d srcName)
    (hentry : v.RenameEntry d srcName j k type) (htarget : v.RenameTarget srcName dst d' name isDir)
    (hm : v.Moves src dst) : d' ≠ d ∧ ¬ (isDir = true ∧ type = inodeDir ∧ d' = k) ∧
      (1 ≤ name.length ∧ name.length < 30) ∧
      (∀ i k', ¬ Hit (v.dirAt d') v.inodes name type i k') ∧ ∃ j', v.dirAt d' j' = none := by
  obtain ⟨e, n, i, x, t, e', n', b, hparent', hentry', htarget', hrest⟩ := hm
  obtain ⟨rfl, rfl⟩ := h.parent_det hparent hparent'
  obtain ⟨rfl, rfl, rfl⟩ := h.renameEntry_det (h.parent_kept hparent) hentry hentry'
  obtain ⟨rfl, rfl, rfl⟩ := h.renameTarget_det htarget htarget'
  exact hrest

theorem renameDir_kept (h : Inv stray v) (hd : v.RenameDir src dst d) : Kept stray v.inodes d := by
  obtain ⟨d₀, srcName, hparent, rfl | ⟨name, isDir, htarget⟩⟩ := hd
  · exact h.parent_kept hparent
  · exact h.renameTarget_kept htarget

/-- Cleared from its directory, the inode has no entry at all. -/
theorem not_stillNamed_halfMoved (h : Inv stray v) (hparent : v.Parent src d srcName)
    (hentry : v.RenameEntry d srcName j k type) : ¬ v.StillNamed src dst (v.halfMoved d j) k := by
  rintro ⟨e, i, name, he, hname⟩
  have hd := h.parent_kept hparent
  have hkept := h.renameDir_kept he
  refine h.linked.unnamed_leave hd hentry.1.entry e i name hkept ?_
  rw [← hname, Volume.halfMoved, h.dirAt_setData hd.1.1 hkept.1.1,
    listing_clearEntry (h.linked.fits d hd)]
  rfl

end Inv

/-! ## Stepping through the transfers -/

section Steps

variable {Q : Unit → Fs → Prop} {R D : Fs → Prop}

theorem wp_read_failingAt {object : Nat} {lba : UInt32} {Q : Block → Fs → Prop}
    (hfail : s.log.length = n → ∀ s', s'.toVolume = s.toVolume → R s')
    (hread : s.log.length ≠ n → ∀ s', s'.toVolume = s.toVolume →
      s'.log.length = s.log.length + 1 → Q (s.disk lba) s') :
    wp (diskReadLba (dev.failingAt n) object lba) Q R D s := by
  have hlog : (s.noted ⟨false, lba, 1, object⟩).log.length = s.log.length + 1 := by
    simp [Fs.noted]
  rw [diskReadLba, wp_bind, wp_note, wp_bind, wp_get, wp_bind]
  refine (wp_require _).mpr ⟨fun hne => ?_, fun heq => ?_⟩
  · refine hread (fun heq => ?_) _ rfl hlog
    simp [Device.failingAt, hlog, heq] at hne
  · refine hfail ?_ _ rfl
    simpa [Device.failingAt, hlog] using heq

theorem wp_write_failingAt {object : Nat} {lba : UInt32} {b : Block}
    (hfail : s.log.length = n → ∀ s', s'.toVolume = s.toVolume → R s')
    (hwrite : s.log.length ≠ n → ∀ s', s'.toVolume = s.toVolume.setSector lba b →
      s'.log.length = s.log.length + 1 → Q () s') :
    wp (diskWriteLba (dev.failingAt n) object lba b) Q R D s := by
  have hlog : (s.noted ⟨true, lba, 1, object⟩).log.length = s.log.length + 1 := by
    simp [Fs.noted]
  simp only [diskWriteLba, writeSector, wp_bind, wp_note, wp_get, Device.failingAt, hlog]
  by_cases heq : s.log.length = n
  · rw [if_pos (by rw [heq])]
    exact hfail heq _ (Volume.setSector_eq_self rfl)
  · rw [if_neg (by omega)]
    exact hwrite heq _ rfl hlog

theorem wp_loadDirBlock_failingAt {d : InodeNo} (hdir : isDirInode s.toVolume d)
    {Q : Block → Fs → Prop} (hfail : s.log.length = n → ∀ s', s'.toVolume = s.toVolume → R s')
    (hread : s.log.length ≠ n → ∀ s', s'.toVolume = s.toVolume →
      s'.log.length = s.log.length + 1 → Q (s.blockOf d) s') :
    wp (loadDirBlock (dev.failingAt n) d) Q R D s := by
  simp only [loadDirBlock, wp_bind, wp_get, wp_require]
  exact ⟨fun _ => wp_read_failingAt hfail hread, fun hno => (hno hdir).elim⟩

theorem wp_writeDirBlock_failingAt {d : InodeNo} {b : Block} (hdir : isDirInode s.toVolume d)
    (hfail : s.log.length = n → ∀ s', s'.toVolume = s.toVolume → R s')
    (hwrite : s.log.length ≠ n → ∀ s', s'.toVolume =
      s.toVolume.setData (s.inodes d).direct0 b → s'.log.length = s.log.length + 1 → Q () s') :
    wp (writeDirBlock (dev.failingAt n) d b) Q R D s := by
  simp only [writeDirBlock, wp_bind, wp_get, wp_require]
  exact ⟨fun _ => wp_write_failingAt hfail hwrite, fun hno => (hno hdir).elim⟩

end Steps

/-! ## The rename -/

/-- What a refused rename leaves when the transfer after the first `n` fails. -/
def RenameLeft (v : Volume) (src dst : CStr) (atMove : Prop) (v' : Volume) : Prop :=
  v' = v ∧ ¬ (atMove ∧ v.Moves src dst) ∨
    atMove ∧ v.Moves src dst ∧ ∃ d srcName j k type, v.Parent src d srcName ∧
      v.RenameEntry d srcName j k type ∧ v' = v.halfMoved d j

section Rename

variable {src dst srcName : CStr}

theorem renameDir_failingAt (h : Inv stray s.toVolume) (dirname : CStr) :
    wp (renameDir (dev.failingAt n) dirname)
      (fun o s' => s'.toVolume = s.toVolume ∧ s.log.length ≠ n ∧
        s'.log.length = s.log.length + 1 ∧ s.toVolume.RootDir dirname o)
      (fun s' => s'.toVolume = s.toVolume ∧ s.log.length = n) (fun _ => False) s := by
  rw [renameDir, wp_bind]
  refine wp_loadDirBlock_failingAt (h.isDirInode h.linked.root.1) (fun hn s' hv => ⟨hv, hn⟩) ?_
  intro hn s₁ hv hlog
  simp only [wp_bind, wp_get, hv]
  cases hfind : findDirEntry dirname (s.blockOf 0) s.inodes inodeDir with
  | none => exact ⟨hv, hn, hlog, findDirEntry_none (by decide) hfind⟩
  | some i =>
      obtain ⟨d, hit⟩ := findDirEntry_some (by decide) hfind
      simp only [wp_bind, wp_demand, wp_pure, hit.inodeIndex]
      refine ⟨fun d' hd' => ?_, by simp⟩
      cases hd'
      exact ⟨hv, hn, hlog, i, hit⟩

theorem renameSource_failingAt (h : Inv stray s.toVolume) (src : CStr) :
    wp (renameSource (dev.failingAt n) src)
      (fun r s' => s'.toVolume = s.toVolume ∧ s'.log.length + 4 = s.log.length + moveTransfers src ∧
        s.toVolume.Parent src r.1 r.2)
      (fun s' => s'.toVolume = s.toVolume ∧
        (s.log.length = n ∨ ∀ k, ¬ s.toVolume.RenameInode src k)) (fun _ => False) s := by
  unfold renameSource moveTransfers
  cases hsplit : splitPath src with
  | none => exact ⟨rfl, rfl, .ofRoot hsplit⟩
  | some parts =>
      obtain ⟨dirname, name⟩ := parts
      simp only [wp_bind, wp_require, wp_demand, wp_pure]
      -- an empty component names nothing
      have hempty : dirname = CStr.empty ∨ name = CStr.empty →
          ∀ k, ¬ s.toVolume.RenameInode src k := by
        rintro hempty k ⟨d, n, j, type, hparent, hentry⟩
        have hd := h.parent_kept hparent
        rw [Volume.Parent, hsplit] at hparent
        obtain ⟨⟨i, hit⟩, rfl⟩ := hparent
        rcases hempty with rfl | rfl
        · exact absurd (h.linked.fits _ h.linked.root _ _ _ hit.entry).1 (by decide)
        · exact absurd (h.linked.fits _ hd _ _ _ hentry.1.entry).1 (by decide)
      refine ⟨fun hd => ⟨fun hn => ?_, fun hn => ⟨trivial, .inr (hempty (.inr (by simpa using hn)))⟩⟩,
        fun hd => ⟨trivial, .inr (hempty (.inl (by simpa using hd)))⟩⟩
      refine wp_mono (renameDir_failingAt h dirname) ?_ (fun s' hs' => ⟨hs'.1, .inl hs'.2⟩)
        (fun _ h => h)
      rintro o s₁ ⟨hv, -, hlog, hroot⟩
      refine ⟨fun d hd => ⟨hv, by rw [if_neg (by simp)]; omega, ?_⟩, fun ho => ⟨hv, .inr ?_⟩⟩
      · subst hd
        obtain ⟨i, hit⟩ := hroot
        exact .ofDir hsplit hit
      · subst ho
        rintro k ⟨d, n, j, type, hparent, -⟩
        rw [Volume.Parent, hsplit] at hparent
        exact hroot _ _ hparent.1.choose_spec

theorem renameTarget_failingAt (h : Inv stray s.toVolume) (srcName dst : CStr) :
    wp (renameTarget (dev.failingAt n) srcName dst)
      (fun r s' => s'.toVolume = s.toVolume ∧ s'.log.length = s.log.length + 1 ∧
        s.toVolume.RenameTarget srcName dst r.1 r.2.1 r.2.2)
      (fun s' => s'.toVolume = s.toVolume ∧ (s.log.length = n ∨
        ∀ d name isDir, ¬ s.toVolume.RenameTarget srcName dst d name isDir)) (fun _ => False) s := by
  unfold renameTarget Volume.RenameTarget
  cases splitPath dst with
  | some parts =>
      obtain ⟨dirname, rest⟩ := parts
      simp only [wp_bind, wp_require, wp_demand]
      refine ⟨fun _ => ?_, fun hd => ⟨trivial, .inr ?_⟩⟩
      · refine wp_mono (renameDir_failingAt h dirname) ?_ (fun s' hs' => ⟨hs'.1, .inl hs'.2⟩)
          (fun _ h => h)
        rintro o s₁ ⟨hv, -, hlog, hroot⟩
        refine ⟨fun d hd => ?_, fun ho => ⟨hv, .inr ?_⟩⟩
        · subst hd
          by_cases hrest : rest = CStr.empty
          · simp only [hrest, if_true, wp_pure]
            exact ⟨hv, hlog, hroot, .inl ⟨trivial, trivial, trivial⟩⟩
          · simp only [hrest, if_false, wp_pure]
            exact ⟨hv, hlog, hroot, .inr ⟨hrest, trivial, trivial⟩⟩
        · subst ho
          rintro d name isDir ⟨hroot', -⟩
          exact hroot _ _ hroot'.choose_spec
      · rintro d name isDir ⟨⟨i, hit⟩, -⟩
        obtain rfl : dirname = CStr.empty := by simpa using hd
        exact absurd (h.linked.fits _ h.linked.root _ _ _ hit.entry).1 (by decide)
  | none =>
      simp only [wp_bind]
      refine wp_mono (renameDir_failingAt h dst) ?_ (fun s' hs' => ⟨hs'.1, .inl hs'.2⟩)
        (fun _ h => h)
      rintro o s₁ ⟨hv, -, hlog, hroot⟩
      cases o with
      | none => exact ⟨hv, hlog, .inr ⟨hroot, rfl, rfl, rfl⟩⟩
      | some d => exact ⟨hv, hlog, .inl ⟨hroot, rfl, rfl⟩⟩

theorem fsRename_failingAt (h : Ready stray s.toVolume) (src dst : CStr) :
    wp (fsRename (dev.failingAt n) src dst) (fun _ _ => True)
      (fun s' => RenameLeft s.toVolume src dst (n = s.log.length + moveTransfers src) s'.toVolume)
      (fun _ => False) s := by
  have hinv := h.inv
  -- before the new entry is written nothing has been lost
  have early : ∀ s' : Fs, s'.toVolume = s.toVolume → n ≠ s.log.length + moveTransfers src →
      RenameLeft s.toVolume src dst (n = s.log.length + moveTransfers src) s'.toVolume :=
    fun s' hv hn => .inl ⟨hv, fun hm => hn hm.1⟩
  have still : ∀ s' : Fs, s'.toVolume = s.toVolume → ¬ s.toVolume.Moves src dst →
      RenameLeft s.toVolume src dst (n = s.log.length + moveTransfers src) s'.toVolume :=
    fun s' hv hn => .inl ⟨hv, fun hm => hn hm.2⟩
  have hcount : 4 ≤ moveTransfers src := by
    unfold moveTransfers
    split <;> omega
  simp only [fsRename, wp_bind, wp_get, wp_require]
  refine ⟨fun _ => ⟨fun _ => ?_, fun hempty => still s rfl ?_⟩, fun hm => (hm h.mounted).elim⟩
  rotate_left
  · rintro ⟨d, srcName, j, k, type, d', name, isDir, hparent, hentry, htarget, -, -, hfits, -⟩
    refine hempty ⟨?_, ?_⟩
    · rintro rfl
      obtain ⟨rfl, rfl⟩ := hparent
      exact absurd (hinv.linked.fits _ hinv.linked.root _ _ _ hentry.1.entry).1 (by decide)
    · rintro rfl
      rcases htarget with ⟨⟨i, hit⟩, -⟩ | ⟨-, -, rfl, -⟩
      · exact absurd (hinv.linked.fits _ hinv.linked.root _ _ _ hit.entry).1 (by decide)
      · exact absurd hfits.1 (by decide)
  refine wp_mono (renameSource_failingAt hinv src) ?_ ?_ (fun _ h => h)
  rotate_left
  · rintro s₁ ⟨hv₁, hn | hno⟩
    · exact early s₁ hv₁ (by omega)
    · refine still s₁ hv₁ ?_
      rintro ⟨d, srcName, j, k, type, d', name, isDir, hparent, hentry, -⟩
      exact hno k ⟨d, srcName, j, type, hparent, hentry⟩
  rintro ⟨d, srcName⟩ s₁ ⟨hv₁, hlog₁, hparent⟩
  have hd := hinv.parent_kept hparent
  refine ⟨fun _ => ?_, fun hlong => still s₁ hv₁ ?_⟩
  rotate_left
  · rintro ⟨e, n', j, k, type, d', name, isDir, hparent', hentry, -⟩
    obtain ⟨rfl, rfl⟩ := hinv.parent_det hparent hparent'
    exact hlong (hinv.linked.fits _ hd _ _ _ hentry.1.entry).2
  refine wp_loadDirBlock_failingAt (hv₁ ▸ hinv.isDirInode hd.1)
    (fun hn s₂ hv₂ => early s₂ (hv₂.trans hv₁) (by omega)) fun hn₁ s₂ hv₂ hlog₂ => ?_
  rw [hv₁] at hv₂ ⊢
  simp only [wp_demand, hv₂]
  refine ⟨?_, fun hnone => still s rfl ?_⟩
  rotate_left
  · rintro ⟨e, n', j, k, type, d', name, isDir, hparent', hentry, -⟩
    obtain ⟨rfl, rfl⟩ := hinv.parent_det hparent hparent'
    exact renameEntryOf_none hnone hentry
  rintro ⟨j, type⟩ hentry
  obtain ⟨k, hentry⟩ := renameEntryOf_some hentry
  rw [hentry.1.inodeIndex]
  refine ⟨fun k' hk' => ?_, by simp⟩
  cases hk'
  have hinv₂ : Inv stray s₂.toVolume := hv₂ ▸ hinv
  refine wp_mono (renameTarget_failingAt hinv₂ srcName dst) ?_ ?_ (fun _ h => h)
  rotate_left
  · rintro s₃ ⟨hv₃, hn | hno⟩
    · exact early s₃ (hv₃.trans hv₂) (by omega)
    · refine still s₃ (hv₃.trans hv₂) ?_
      rintro ⟨e, n', j, k, type, d', name, isDir, hparent', -, htarget, -⟩
      obtain ⟨rfl, rfl⟩ := hinv.parent_det hparent hparent'
      exact hno _ _ _ (hv₂ ▸ htarget)
  rintro ⟨d', name, isDir⟩ s₃ ⟨hv₃, hlog₃, htarget⟩
  rw [hv₂] at hv₃ htarget
  have hd' := hinv.renameTarget_kept htarget
  have hat := hinv.moves_at hparent hentry htarget
  refine ⟨fun hname => ⟨fun hlen => ?_, fun hlong => still s₃ hv₃ fun hm =>
    hlong (hat hm).2.2.1.2⟩, fun hname => still s₃ hv₃ fun hm => ?_⟩
  rotate_left
  · obtain rfl : name = CStr.empty := by simpa using hname
    exact absurd (hat hm).2.2.1.1 (show ¬ 1 ≤ CStr.empty.length by decide)
  rw [wp_ite]
  refine ⟨fun _ => trivial, fun hself => ?_⟩
  rw [wp_bind]
  refine wp_loadDirBlock_failingAt (hv₃ ▸ hinv.isDirInode hd'.1)
    (fun hn s₄ hv₄ => early s₄ (hv₄.trans hv₃) (by omega)) fun hn₃ s₄ hv₄ hlog₄ => ?_
  rw [hv₃] at hv₄ ⊢
  simp only [wp_bind, wp_get]
  rw [wp_ite]
  refine ⟨fun _ => trivial, fun _ => ?_⟩
  rw [wp_bind, wp_require]
  simp only [hv₄]
  have htype : type ≠ 0 := by
    rcases hentry.2 with rfl | ⟨rfl, -⟩ <;> decide
  refine ⟨fun habsent => ?_, fun hpresent => still s rfl fun hm => ?_⟩
  rotate_left
  · cases hfind : findDirEntry name (s.blockOf d') s.inodes type with
    | none => exact hpresent hfind
    | some i =>
        obtain ⟨x, hit⟩ := findDirEntry_some htype hfind
        exact (hat hm).2.2.2.1 _ _ hit
  have habsent' := findDirEntry_none htype habsent
  rw [wp_ite]
  refine ⟨fun hdd => ?_, fun hdd => ?_⟩
  · exact wp_writeDirBlock_failingAt (hv₄ ▸ hinv.isDirInode hd.1)
      (fun _ s₅ hv₅ => still s₅ (hv₅.trans hv₄) fun hm => (hat hm).1 hdd) fun _ _ _ _ => trivial
  · rw [wp_bind, wp_demand]
    refine ⟨fun j' hj' => ?_, fun hfull => still s₄ hv₄ fun hm => ?_⟩
    rotate_left
    · obtain ⟨j', hj'⟩ := (hat hm).2.2.2.2
      exact firstFreeSlot_none hfull j' hj'
    have hname' : 1 ≤ name.length := by
      have : name.length ≠ 0 := fun h0 => hname (CStr.length_eq_zero.mp h0)
      omega
    have hmoves : s.toVolume.Moves src dst :=
      ⟨d, srcName, j, k, type, d', name, isDir, hparent, hentry, htarget, hdd, hself,
        ⟨hname', hlen⟩, habsent', j', firstFreeSlot_some hj'⟩
    rw [wp_bind]
    refine wp_writeDirBlock_failingAt (hv₄ ▸ hinv.isDirInode hd.1)
      (fun hn s₅ hv₅ => early s₅ (hv₅.trans hv₄) (by omega)) fun hn₄ s₅ hv₅ hlog₅ => ?_
    rw [hv₄] at hv₅
    refine wp_writeDirBlock_failingAt (by rw [hv₅]; exact hinv.isDirInode hd'.1)
      (fun hn s₆ hv₆ => ?_) fun _ _ _ _ => trivial
    exact .inr ⟨by omega, hmoves, d, srcName, j, k, type, hparent, hentry, hv₆.trans hv₅⟩

end Rename

/-- Refused, the rename has lost the inode exactly if it came to the second write. -/
theorem RenameLeft.named_iff (h : Inv stray v) {src dst : CStr} {atMove : Prop} {k : InodeNo}
    (hk : v.RenameInode src k) (hl : RenameLeft v src dst atMove v') :
    v.StillNamed src dst v' k ↔ ¬ (atMove ∧ v.Moves src dst) := by
  rcases hl with ⟨rfl, hno⟩ | ⟨hn, hm, d, srcName, j, k', type, hparent, hentry, rfl⟩
  · exact ⟨fun _ => hno, fun _ => hk.named⟩
  · obtain rfl := h.renameInode_det hk ⟨d, srcName, j, type, hparent, hentry⟩
    exact ⟨fun hs => (h.not_stillNamed_halfMoved hparent hentry hs).elim,
      fun hno => (hno ⟨hn, hm⟩).elim⟩

/-- What a rename of an ordinary session left when it was refused. -/
theorem Session.renameFails (hp : dev.Perfect)
    (h : Session dev (fun _ call _ => call.Ordinary) s) {src dst : CStr} {s' : Fs}
    (hrun : fsRename (dev.failingAt (s.log.length + n)) src dst s = (.refused, s')) :
    ∃ stray, Inv stray s.toVolume ∧
      RenameLeft s.toVolume src dst (n = moveTransfers src) s'.toVolume := by
  obtain ⟨stray, hready⟩ := h.ready hp fun s call _ hallow => hallow.fits s.toVolume
  refine ⟨stray, hready.inv, ?_⟩
  rcases wp_run (fsRename_failingAt hready src dst) hrun with ⟨_, ho, -⟩ | ⟨-, hl⟩ | ⟨-, hno⟩
  · cases ho
  · rwa [Nat.add_left_cancel_iff] at hl
  · exact hno.elim

/-- When one transfer of a rename fails, the inode keeps an entry unless it was the
second write of a move. -/
theorem session_renameFails (hp : dev.Perfect)
    (h : Session dev (fun _ call _ => call.Ordinary) s) {src dst : CStr} {k : InodeNo}
    (hk : s.toVolume.RenameInode src k) {n : Nat} {s' : Fs}
    (hrun : fsRename (dev.failingAt (s.log.length + n)) src dst s = (.refused, s')) :
    s.toVolume.StillNamed src dst s'.toVolume k ↔
      ¬ (n = moveTransfers src ∧ s.toVolume.Moves src dst) := by
  obtain ⟨stray, hinv, hleft⟩ := h.renameFails hp hrun
  exact hleft.named_iff hinv hk

theorem Inv.renameInode_file (h : Inv stray v) {src : CStr} {k : InodeNo}
    (hsplit : splitPath src = none) (hk : v.findIn 0 src inodeFile = some k) :
    v.RenameInode src k := by
  obtain ⟨i, hit⟩ := (h.findIn_some h.linked.root (by decide)).mp hk
  exact ⟨0, src, i, inodeFile, .ofRoot hsplit, hit, .inl rfl⟩

/-- A directory `a` and a file `b`. -/
def dirAndFile : List Call := [.mkdirPath nameA, .create nameB]

theorem session_dirAndFile : Session .working (fun _ call _ => call.Ordinary)
    (.started .working (fun _ => Bytes.zero) 0 dirAndFile) :=
  .started (by decide +kernel) fun call hcall _ _ => by revert call; decide

theorem dirAndFile_named : (Fs.started .working (fun _ => Bytes.zero) 0 dirAndFile).RenameInode
    nameB 5 := by
  obtain ⟨stray, hready⟩ := session_dirAndFile.ready Device.working_perfect
    fun s call _ hallow => hallow.fits s.toVolume
  exact hready.inv.renameInode_file (by decide) (by decide +kernel)

/-- The first write of the move fails. -/
theorem session_renameFails_early :
    (Fs.started .working (fun _ => Bytes.zero) 0 dirAndFile).StillNamed nameB nameA
        (fsRename (Device.working.failingAt
          ((Fs.started .working (fun _ => Bytes.zero) 0 dirAndFile).log.length + 3)) nameB nameA
          (.started .working (fun _ => Bytes.zero) 0 dirAndFile)).2.toVolume 5 ↔
      ¬ (3 = moveTransfers nameB ∧
        (Fs.started .working (fun _ => Bytes.zero) 0 dirAndFile).Moves nameB nameA) := by
  have hrun : fsRename (Device.working.failingAt
      ((Fs.started .working (fun _ => Bytes.zero) 0 dirAndFile).log.length + 3)) nameB nameA
      (.started .working (fun _ => Bytes.zero) 0 dirAndFile) = (.refused, _) :=
    run_eq (by decide +kernel)
  exact session_renameFails Device.working_perfect session_dirAndFile dirAndFile_named hrun

/-- The second write fails, and the file is in no directory any more. -/
theorem not_session_renameFails :
    ¬ ∀ dev s, dev.Perfect → Session dev (fun _ call _ => call.Ordinary) s →
      ∀ src dst k n s', Ordinary src → Ordinary dst → s.toVolume.RenameInode src k →
        fsRename (dev.failingAt (s.log.length + n)) src dst s = (.refused, s') →
        s.toVolume.StillNamed src dst s'.toVolume k := by
  intro h
  have hrun : fsRename (Device.working.failingAt
      ((Fs.started .working (fun _ => Bytes.zero) 0 dirAndFile).log.length + 4)) nameB nameA
      (.started .working (fun _ => Bytes.zero) 0 dirAndFile) = (.refused, _) :=
    run_eq (by decide +kernel)
  have hnamed := h .working (.started .working (fun _ => Bytes.zero) 0 dirAndFile)
    Device.working_perfect session_dirAndFile nameB nameA 5 4 _ (by decide) (by decide)
    dirAndFile_named hrun
  obtain ⟨stray, hinv, hleft⟩ := session_dirAndFile.renameFails Device.working_perfect hrun
  have hlost : (fsRename (Device.working.failingAt
      ((Fs.started .working (fun _ => Bytes.zero) 0 dirAndFile).log.length + 4)) nameB nameA
      (.started .working (fun _ => Bytes.zero) 0 dirAndFile)).2.toVolume.findIn 0 nameB inodeFile =
        none := by decide +kernel
  refine (hleft.named_iff hinv dirAndFile_named).mp hnamed ?_
  rcases hleft with ⟨hv, -⟩ | ⟨hn, hm, -⟩
  · have hfile : (Fs.started .working (fun _ => Bytes.zero) 0 dirAndFile).toVolume.findIn 0 nameB
        inodeFile = some 5 := by decide +kernel
    rw [hv, hfile] at hlost
    cases hlost
  · exact ⟨hn, hm⟩

end SevenOS
