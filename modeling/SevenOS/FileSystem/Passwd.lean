import SevenOS.FileSystem.Remount

/-! # The password file

`fs_write_passwd` and `fs_read_passwd` meet in the file `sys/passwd`: what the one
encodes the other decodes, whatever became of the `sys` directory before, and the
flush at the end brings it over a mount.
-/

namespace SevenOS

open Prog

variable {dev : Device} {stray : InodeNo → Prop} {v v' : Volume} {s : Fs} {hash : UInt32}

/-- "sys/passwd" -/
def sysPasswd : CStr := joinPath sysName passwdName

theorem splitPath_sysPasswd : splitPath sysPasswd = some (sysName, passwdName) := by decide

theorem Volume.sysFile_eq (v : Volume) : v.sysFile passwdName = v.resolve sysPasswd inodeFile := by
  rw [Volume.resolve, splitPath_sysPasswd]
  rfl

theorem passwdOutcome_eq (hkey : v.files sysPasswd = some (hashBytes hash)) :
    passwdOutcome v = .ok hash := by
  obtain ⟨k, hk, hcontents⟩ := Option.map_eq_some_iff.mp hkey
  have hread : v.readFile k 4 = hashBytes hash := by
    rw [v.readFile_eq, hcontents]
    rfl
  rw [passwdOutcome, v.sysFile_eq, hk]
  simp only [hread]
  have hlength : (hashBytes hash).length = 4 := rfl
  rw [if_pos hlength.ge, hashOfBytes_hashBytes]

/-! ## Writing the file -/

theorem SysDir.hit (h : Inv stray v) {d : InodeNo} (hs : SysDir stray v v' d) :
    ∃ i, Hit (v'.dirAt 0) v'.inodes sysName inodeDir i d := by
  rcases hs with ⟨hit, rfl⟩ | ⟨j, b, -, -, htake, henter, -, rfl⟩
  · exact hit
  · exact ⟨j, (h.hit_create htake henter h.linked.root).mpr (.inr ⟨rfl, rfl, rfl, rfl, rfl⟩)⟩

theorem SysDir.files (h : Inv stray v) {d : InodeNo} (hs : SysDir stray v v' d) (path : CStr) :
    v'.files path = v.files path := by
  rcases hs with ⟨-, rfl⟩ | ⟨j, b, -, -, htake, henter, hk0, rfl⟩
  · rfl
  · exact (files_create h htake henter hk0 (fun _ => listing_zero) path).2 fun ht =>
      absurd ht.1 (show inodeDir ≠ inodeFile by decide)

/-- The file of the `sys` directory is the only one that changes. -/
theorem SysStored.files (h : Inv stray v) {filename : CStr} {size : UInt32} {content : Block}
    (hsize : size.toNat ≤ 512) (hst : SysStored stray v filename size content v') (path : CStr) :
    v'.files path = if path = joinPath sysName filename then
      some (content.firstBytes size.toNat) else v.files path := by
  obtain ⟨-, v₁, d, hs, hst⟩ := hst
  obtain ⟨hinv, hd⟩ := hs.inv h
  obtain ⟨i, hit⟩ := hs.hit h
  obtain ⟨hnew, hold⟩ := files_stored hinv hd hsize hst path
  have hsplit : splitPath (joinPath sysName filename) = some (sysName, filename) :=
    splitPath_join (by decide) (joinPath_chars sysName filename)
  split
  · next heq => exact hnew (heq ▸ .ofDir hsplit hit)
  · next hne =>
      rw [← hs.files h path]
      refine hold fun hparent => hne (CStr.ext ?_)
      have hsame := (hinv.parent_split hparent (.ofDir hsplit hit)).1
      rw [joinPath_chars]
      exact splitPath_chars (hsame.trans hsplit) (by decide)

/-- The path leads to the file that `write_sys_file` wrote. -/
theorem SysStored.key (h : Inv stray v)
    (hst : SysStored stray v passwdName 4 (passwdBlock hash) v') :
    v'.files sysPasswd = some (hashBytes hash) := by
  rw [hst.files h (by decide), if_pos (show sysPasswd = joinPath sysName passwdName from rfl)]
  exact congrArg some (Bytes.firstBytes_paste _ (hashBytes hash) (by change 4 ≤ 512; decide))

theorem SysStored.files_other (h : Inv stray v)
    (hst : SysStored stray v passwdName 4 (passwdBlock hash) v') {q : CStr}
    (hne : q ≠ sysPasswd) : v'.files q = v.files q := by
  rw [hst.files h (by decide)]
  exact if_neg hne

/-! ## In a session -/

theorem session_passwdKept (hp : dev.Perfect)
    (h : Session dev (fun _ call _ => call.Ordinary) s) {s' : Fs}
    (hrun : fsWritePasswd dev hash s = (.ok (), s')) :
    ∃ s'', fsInit dev s' = (.ok (), s'') ∧
      ∀ after, after = s' ∨ after = s'' → (fsReadPasswd dev after).1 = .ok hash ∧
        ∀ q, q ≠ sysPasswd → ∀ maxlen,
          (fsReadPath dev q maxlen after).1 = (fsReadPath dev q maxlen s).1 := by
  obtain ⟨stray, hready⟩ := h.ready hp fun s call _ hallow => hallow.fits s.toVolume
  have hcall : (Call.writePasswd hash).Ordinary := by simp [Call.Ordinary, Call.paths]
  rcases hready.run_cases hp hcall hrun with ⟨-, hdone, hready'⟩ | ⟨ho, -⟩
  swap
  · cases ho
  -- the write ends with a flush, so nothing is lost by a mount
  have hflushed := hready.done_flushed hdone fun _ _ heq => by cases heq
  have hrest : Resting stray (fun _ => False) s'.toVolume :=
    ⟨hready', hflushed.synced, fun _ hi => hi.elim⟩
  obtain ⟨s'', hinit, hsame⟩ := hrest.remount hp
  have hpasswd : (fsReadPasswd dev s').1 = .ok hash := by
    rw [wp_outcome (fsReadPasswd_returns hp hready')]
    exact passwdOutcome_eq (SysStored.key hready.inv hdone)
  have hother : ∀ q, q ≠ sysPasswd → ∀ maxlen,
      (fsReadPath dev q maxlen s').1 = (fsReadPath dev q maxlen s).1 := by
    intro q hne maxlen
    rw [fsReadPath_files hp hready', fsReadPath_files hp hready,
      SysStored.files_other hready.inv hdone hne]
  refine ⟨s'', hinit, ?_⟩
  rintro after (rfl | rfl)
  · exact ⟨hpasswd, hother⟩
  · refine ⟨hsame.readPasswd.trans hpasswd, ?_⟩
    intro q hne maxlen
    exact (hsame.readPath q maxlen).trans (hother q hne maxlen)

/-- The `sys` directory was removed; it is made again. -/
theorem session_passwdKept_again :
    ∃ s'', fsInit .working (fsWritePasswd .working 7 (.started .working (fun _ => Bytes.zero) 0
        [.removePathRecursive sysName])).2 = (.ok (), s'') ∧
      ∀ after, after = (fsWritePasswd .working 7 (.started .working (fun _ => Bytes.zero) 0
          [.removePathRecursive sysName])).2 ∨ after = s'' →
        (fsReadPasswd .working after).1 = .ok 7 ∧
          ∀ q, q ≠ sysPasswd → ∀ maxlen, (fsReadPath .working q maxlen after).1 =
            (fsReadPath .working q maxlen (.started .working (fun _ => Bytes.zero) 0
              [.removePathRecursive sysName])).1 := by
  have hsession : Session .working (fun _ call _ => call.Ordinary)
      (.started .working (fun _ => Bytes.zero) 0 [.removePathRecursive sysName]) :=
    .started (by decide +kernel) fun call hcall _ _ => by revert call; decide
  have hrun : fsWritePasswd .working 7 (.started .working (fun _ => Bytes.zero) 0
      [.removePathRecursive sysName]) = (.ok (), _) := run_eq (by decide +kernel)
  exact session_passwdKept Device.working_perfect hsession hrun

end SevenOS
