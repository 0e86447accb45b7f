import SevenOS.FileSystem.Proof.Regions

/-! # Calls that keep to the regions

Reading, creating, writing, copying and renaming, on directory blocks with any
contents. Every sector comes from a block pointer the code has just compared with
zero, or from an inode it has just found live.
-/

namespace SevenOS

open Prog

variable {dev : Device} {n : Nat} {start : List Transfer} {s : Fs} {α β : Type}

namespace KeepsConfined

theorem bind {m : FsM β} {f : β → FsM α} (hm : KeepsConfined dev n start m)
    (hf : ∀ b, KeepsConfined dev n start (f b)) : KeepsConfined dev n start (m >>= f) :=
  Keeps.bind hm hf

theorem scratch (f : Fs → Block) :
    KeepsConfined dev n start (modify fun s => { s with blockScratch := f s }) :=
  Keeps.modify fun _ h => h.setScratch _

theorem scratch2 (f : Fs → Block) :
    KeepsConfined dev n start (modify fun s => { s with blockScratch2 := f s }) :=
  Keeps.modify fun _ h => h.setScratch2 _

theorem lookupDir (dirname : CStr) : KeepsConfined dev n start (lookupDir dirname) :=
  Keeps.get.bind fun _ => (Keeps.demand _).bind fun _ => Keeps.demand _

theorem ensureRootDirBlock : KeepsConfined dev n start (ensureRootDirBlock dev) := fun _ h =>
  (KeepsSane.wp_ensureRootDirBlock h.mapped.sane).mpr h

end KeepsConfined

/-- What `lookup_dir` finds is a live directory. -/
theorem wp_lookupDir_live {dirname : CStr} {Q : InodeNo → Fs → Prop} {R D : Fs → Prop} (hR : R s)
    (hQ : ∀ d, LiveDir s.inodes d → Q d s) : wp (lookupDir dirname) Q R D s := by
  simp only [lookupDir, wp_bind, wp_get, wp_demand]
  refine ⟨fun j hj => ⟨fun d hd => hQ d ?_, fun _ => hR⟩, fun _ => hR⟩
  obtain ⟨k, hit⟩ := findDirEntry_some (by decide) hj
  rw [hit.inodeIndex] at hd
  cases hd
  exact ⟨hit.used, hit.type⟩

namespace KeepsConfined

section Reading

variable (hd : dev.Roomy n)

include hd

theorem fsListRoot (maxEntries : UInt32) :
    KeepsConfined dev n start (fsListRoot dev maxEntries) := fun _ h =>
  Ends.get <| Ends.require h fun _ => Ends.ite (fun _ => h) fun _ => Ends.ite (fun _ => h)
    fun hdir => Ends.bind (h.read hd (not_not.mp hdir).2.2 fun _ h' _ => h') fun _ _ h' => h'

theorem fsListDir (dirname : CStr) (maxEntries : UInt32) :
    KeepsConfined dev n start (fsListDir dev dirname maxEntries) := fun _ h =>
  Ends.get <| Ends.require h fun _ => Ends.ite (fun _ => h) fun _ =>
  Ends.require h fun hroot => Ends.bind (h.load hd hroot.2 fun _ h' _ => h') fun _ s h =>
  Ends.bind (lookupDir dirname s h) fun _ _ h => Ends.get <| Ends.require h fun hdir =>
  Ends.bind (h.load2 hd hdir fun _ h' _ => h') fun _ _ h => h

theorem fsIsDir (path : CStr) : KeepsConfined dev n start (fsIsDir dev path) := fun _ h =>
  Ends.get <| Ends.require h fun _ => Ends.require h fun _ => Ends.require h fun hroot =>
  Ends.bind (h.load hd hroot.2 fun _ h' _ => h') fun _ s h => by
    cases splitPath path with
    | none => exact Ends.get (Keeps.require _ s h)
    | some parts =>
        exact Ends.require h fun _ => Ends.bind (lookupDir parts.1 s h) fun _ s h =>
          Ends.get <| Ends.require h fun hdir =>
          Ends.bind (h.load2 hd hdir fun _ h' _ => h') fun _ s h => Ends.get (Keeps.require _ s h)

theorem fsRead (name : CStr) (maxlen : UInt32) :
    KeepsConfined dev n start (fsRead dev name maxlen) := fun _ h =>
  Ends.get <| Ends.require h fun _ => Ends.require h fun _ => Ends.require h fun hroot =>
  Ends.bind (h.load hd hroot.2 fun _ h' _ => h') fun _ _ h => Ends.get <|
  Ends.demand h fun _ _ => Ends.demand h fun _ _ => Ends.require h fun hfile =>
  Ends.bind (h.load2 hd hfile fun _ h' _ => h') fun _ _ h => h

theorem fsReadPath (path : CStr) (maxlen : UInt32) :
    KeepsConfined dev n start (fsReadPath dev path maxlen) := fun s h =>
  Ends.get <| Ends.require h fun _ => Ends.require h fun _ => by
    cases splitPath path with
    | none => exact fsRead hd path maxlen s h
    | some parts =>
        exact Ends.require h fun _ => Ends.require h fun hroot =>
          Ends.bind (h.load hd hroot.2 fun _ h' _ => h') fun _ s h =>
          Ends.bind (lookupDir parts.1 s h) fun _ _ h => Ends.get <| Ends.require h fun hdir =>
          Ends.bind (h.load2 hd hdir fun _ h' _ => h') fun _ _ h => Ends.get <|
          Ends.demand h fun _ _ => Ends.demand h fun _ _ => Ends.require h fun hfile =>
          Ends.bind (h.load hd hfile fun _ h' _ => h') fun _ _ h => h

theorem readSysFile (filename : CStr) (maxlen : UInt32) :
    KeepsConfined dev n start (readSysFile dev filename maxlen) := fun _ h =>
  Ends.get <| Ends.require h fun _ => Ends.require h fun hroot =>
  Ends.bind (h.load hd hroot.2 fun _ h' _ => h') fun _ _ h => Ends.get <|
  Ends.demand h fun _ _ => Ends.demand h fun _ _ => Ends.require h fun hdir =>
  Ends.bind (h.load2 hd hdir.2 fun _ h' _ => h') fun _ _ h => Ends.get <|
  Ends.demand h fun _ _ => Ends.demand h fun _ _ => Ends.require h fun hfile =>
  Ends.bind (h.load hd hfile fun _ h' _ => h') fun _ _ h => h

theorem fsReadPasswd : KeepsConfined dev n start (fsReadPasswd dev) :=
  (readSysFile hd _ _).bind fun _ => (Keeps.require _).bind fun _ => Keeps.pure _

theorem loadDirBlock (d : InodeNo) : KeepsConfined dev n start (loadDirBlock dev d) := fun _ h =>
  Ends.get <| Ends.require h fun hdir => h.read hd hdir.2.2 fun _ h' _ => h'

theorem readRootDirBlock : KeepsConfined dev n start (readRootDirBlock dev) := fun _ h =>
  Ends.get <| Ends.require h fun hdir => h.load hd hdir.2.2 fun _ h' _ => h'

theorem removeParent (dirname filename : CStr) {s : Fs} (h : Confined dev n start s) :
    wp (removeParent dev dirname filename)
      (fun d s' => Confined dev n start s' ∧ LiveDir s'.inodes d)
      (Confined dev n start) (Confined dev n start) s := by
  simp only [SevenOS.removeParent, wp_bind, wp_get, wp_require]
  refine ⟨fun _ => ⟨fun hroot => h.load hd hroot.2 fun s' h' _ => ?_, fun _ => h⟩, fun _ => h⟩
  exact wp_lookupDir_live h' fun d hdir => ⟨h', hdir⟩

end Reading

/-! ## Creating and writing -/

theorem claimFile_step {s : Fs} (h : Confined dev n start s) {free : Option Slot}
    {Q : Slot × InodeNo → Fs → Prop} (hQ : ∀ j k s', Confined dev n start s' → Live s'.inodes k →
      (∀ i, (s.inodes i).direct0 ≠ 0 → (s'.inodes i).direct0 ≠ 0) → Q (j, k) s') :
    wp (claimFile free) Q (Confined dev n start) (Confined dev n start) s := by
  refine wp_claimFile (fun j k b _ hk hb => ?_) h
  obtain ⟨h', hpointed⟩ := h.taken hk hb (.inl rfl) (h.mapped.sane.size_le k) rfl
  exact hQ j k _ h' (h'.mapped.live_of_direct0 (hpointed k (.inl rfl))) fun i hi =>
    hpointed i (.inr hi)

theorem ensureSysEntry {filename : CStr} {len : UInt32} (hlen : len.toNat ≤ 512) {s : Fs}
    (h : Confined dev n start s) :
    wp (ensureSysEntry filename len)
      (fun k s' => Confined dev n start s' ∧
        ∀ i, i = k ∨ (s.inodes i).direct0 ≠ 0 → (s'.inodes i).direct0 ≠ 0)
      (Confined dev n start) (Confined dev n start) s := by
  simp only [SevenOS.ensureSysEntry, wp_bind, wp_get]
  cases hfind : findDirEntry filename s.blockScratch2 s.inodes inodeFile with
  | none =>
      simp only [wp_bind, wp_demand, wp_markBlockUsed, wp_modifyInode]
      refine ⟨fun k hk => ⟨fun b hb => ?_, fun _ => h⟩, fun _ => h⟩
      obtain ⟨h', hpointed⟩ := h.taken hk hb (.inl rfl) hlen rfl
      refine ⟨fun j _ => ?_, fun _ => h'⟩
      rw [wp_setScratch2, wp_pure]
      exact ⟨h'.setScratch2 _, hpointed⟩
  | some i =>
      obtain ⟨k, hit⟩ := findDirEntry_some (by decide) hfind
      simp only [wp_bind, wp_demand, wp_modifyInode, wp_pure]
      refine ⟨fun k' hk' => ?_, fun _ => h⟩
      rw [hit.inodeIndex] at hk'
      cases hk'
      refine ⟨h.setVolume (h.mapped.of_sane (h.mapped.sane.resize hit.used hlen) rfl rfl), ?_⟩
      intro i hi
      have hblock : (assign s.inodes k { s.inodes k with size := len } i).direct0 =
          (s.inodes i).direct0 := by
        by_cases hik : i = k
        · subst hik
          simp
        · simp [hik]
      refine hblock.symm ▸ ?_
      rcases hi with rfl | hi
      · exact h.mapped.sane.direct0_ne hit.used
      · exact hi

section Writing

variable (hd : dev.Roomy n)

include hd

theorem prepareEntry_step {name : CStr} {type : UInt8}
    {f : InodeNo × UInt32 × Block × Slot → FsM α}
    (hf : ∀ r s, Confined dev n start s → allocInodeRaw s.toVolume = some r.1 →
      allocBlockRaw s.toVolume = some r.2.1 → EndsConfined dev n start (f r) s) :
    KeepsConfined dev n start (prepareEntry dev name type >>= f) := by
  intro s h
  simp only [prepareEntry, wp_bind, wp_get, wp_require,
    KeepsSane.wp_ensureRootDirBlock h.mapped.sane, wp_demand]
  refine ⟨fun _ => ⟨fun _ => ⟨fun _ => ⟨fun k hk => ⟨fun b hb => ?_, fun _ => h⟩, fun _ => h⟩,
    fun _ => h⟩, fun _ => h⟩, fun _ => h⟩
  refine h.read hd (h.mapped.sane.direct0_ne h.mapped.sane.root) fun s₁ h₁ hv => ?_
  cases scanEntries outOfTable name type (s.blockOf 0) s.inodes with
  | bad => exact h₁
  | found j k' => exact h₁
  | absent free =>
      simp only [wp_bind, wp_demand, wp_pure]
      refine ⟨fun j _ => hf _ s₁ h₁ ?_ ?_, fun _ => h₁⟩
      · rw [hv]
        exact findFreeInode_some hk
      · rw [hv]
        exact findFreeBlock_some hb

theorem fsMkdir (name : CStr) : KeepsConfined dev n start (fsMkdir dev name) :=
  prepareEntry_step hd fun r s h hk hb => by
    have hroot : (s.inodes 0).direct0 ≠ 0 := h.mapped.sane.direct0_ne h.mapped.sane.root
    refine h.take_step hk hb (.inr rfl) (by decide) fun s' h' hpointed hblock => Ends.get ?_
    have hsector : s'.dataSector r.2.1 = s'.sectorOf r.1 := by rw [Volume.sectorOf, hblock]
    rw [hsector]
    exact h'.storeTwo hd (hpointed r.1 (.inl rfl)) (hpointed 0 (.inr hroot)) _ _

theorem fsCreate (name : CStr) : KeepsConfined dev n start (fsCreate dev name) :=
  prepareEntry_step hd fun r s h hk hb => by
    have hroot : (s.inodes 0).direct0 ≠ 0 := h.mapped.sane.direct0_ne h.mapped.sane.root
    exact h.take_step hk hb (.inl rfl) (by decide) fun s' h' hpointed _ => Ends.get <|
      h'.store hd (hpointed 0 (.inr hroot)) _

theorem fsMkdirPath (path : CStr) : KeepsConfined dev n start (fsMkdirPath dev path) := fun s h =>
  Ends.get <| Ends.require h fun _ => Ends.require h fun _ => by
    cases splitPath path with
    | none => exact fsMkdir hd path s h
    | some parts =>
        have hroot : (s.inodes 0).direct0 ≠ 0 := h.mapped.sane.direct0_ne h.mapped.sane.root
        refine Ends.require h fun _ => Ends.require h fun _ => Ends.require h fun _ => ?_
        rw [Ends, wp_bind, KeepsSane.wp_ensureRootDirBlock h.mapped.sane]
        refine Ends.get <| Ends.bind (h.load hd hroot fun _ h' _ => h') fun _ s h =>
          Ends.bind (lookupDir parts.1 s h) fun d s h => Ends.get <| Ends.require h fun hdir => ?_
        rw [Ends, wp_bind]
        refine h.load2 hd hdir fun s h hv => Ends.get ?_
        rw [← hv] at hdir
        cases scanEntries neverBad parts.2 inodeDir s.blockScratch2 s.inodes with
        | bad => exact h
        | found j k => exact h
        | absent free =>
            refine Ends.demand h fun j _ => Ends.demand h fun k hk => Ends.demand h fun b hb => ?_
            refine h.take_step hk hb (.inr rfl) (by decide) fun s' h' hpointed hblock =>
              Ends.get ?_
            have hsector : s'.dataSector b = s'.sectorOf k := by rw [Volume.sectorOf, hblock]
            rw [hsector]
            rw [Ends, wp_bind]
            refine h'.write hd (hpointed k (.inl rfl)) _ fun s'' h'' hv => ?_
            rw [wp_bind, wp_setScratch2]
            refine Ends.get ((h''.setScratch2 _).store hd ?_ _)
            rw [Fs.toVolume_setScratch2, hv]
            exact hpointed d (.inr hdir)

theorem fsWrite (name data : CStr) : KeepsConfined dev n start (fsWrite dev name data) :=
  fun s h => by
    have hroot : (s.inodes 0).direct0 ≠ 0 := h.mapped.sane.direct0_ne h.mapped.sane.root
    have finish : ∀ (b : Block) (k : InodeNo) (s : Fs), Confined dev n start s →
        Live s.inodes k → (s.inodes 0).direct0 ≠ 0 → EndsConfined dev n start (do
          modifyInode k fun ino => { ino with size := dataLength data }
          let s ← Prog.get
          SevenOS.diskWriteLba dev 512 (s.sectorOf 0) b
          SevenOS.diskWriteLba dev 512 (s.sectorOf k) (fileBlock data)
          SevenOS.flushTables dev) s := fun b k s h hk hroot =>
      h.resize_step (dataLength_le data) hk fun s' h' hsame => Ends.get <|
        h'.storeTwo hd (by rwa [hsame]) (by rw [hsame]; exact h.mapped.sane.direct0_ne hk) _ _
    refine Ends.get <| Ends.require h fun _ => Ends.require h fun _ => Ends.require h fun _ => ?_
    rw [Ends, wp_bind, KeepsSane.wp_ensureRootDirBlock h.mapped.sane]
    refine Ends.get ?_
    rw [Ends, wp_bind]
    refine h.read hd hroot fun s₁ h₁ hv => ?_
    have hroot₁ : (s₁.inodes 0).direct0 ≠ 0 := by rwa [hv]
    cases hscan : scanEntries outOfTable name inodeFile (s.blockOf 0) s.inodes with
    | bad => exact h₁
    | found j k =>
        refine finish _ k s₁ h₁ ?_ hroot₁
        rw [hv]
        exact (scan_found hscan).1.used
    | absent free =>
        rw [wp_bind]
        exact claimFile_step h₁ fun j k s' h' hk hpointed => finish _ k s' h' hk (hpointed 0 hroot₁)

theorem fsWritePath (path data : CStr) :
    KeepsConfined dev n start (fsWritePath dev path data) := fun s h =>
  Ends.get <| Ends.require h fun _ => Ends.require h fun _ => by
    cases splitPath path with
    | none => exact fsWrite hd path data s h
    | some parts =>
        obtain ⟨dirname, filename⟩ := parts
        refine Ends.require h fun _ => Ends.require h fun hroot =>
          Ends.bind (h.load hd hroot.2 fun _ h' _ => h') fun _ s h =>
          Ends.bind (lookupDir dirname s h) fun d s h => Ends.get <| Ends.require h fun hdir => ?_
        rw [Ends, wp_bind]
        refine h.load2 hd hdir fun s h hv => Ends.get ?_
        rw [← hv] at hdir
        have finish : ∀ (k : InodeNo) (s : Fs), Confined dev n start s → Live s.inodes k →
            (s.inodes d).direct0 ≠ 0 → EndsConfined dev n start (do
              modifyInode k fun ino => { ino with size := dataLength data }
              let s ← Prog.get
              SevenOS.diskWriteLba dev 512 (s.sectorOf d) s.blockScratch2
              SevenOS.diskWriteLba dev 512 (s.sectorOf k) (fileBlock data)
              SevenOS.flushTables dev) s := fun k s h hk hdir =>
          h.resize_step (dataLength_le data) hk fun s' h' hsame => Ends.get <|
            h'.storeTwo hd (by rwa [hsame]) (by rw [hsame]; exact h.mapped.sane.direct0_ne hk) _ _
        cases hscan : scanEntries outOfTable filename inodeFile s.blockScratch2 s.inodes with
        | bad => exact h
        | found j k => exact finish k s h (scan_found hscan).1.used hdir
        | absent free =>
            rw [Ends, wp_bind]
            exact claimFile_step h fun j k s' h' hk hpointed =>
              finish k (s'.setScratch2 _) (h'.setScratch2 _) hk (hpointed d hdir)

theorem copySource (srcPath : CStr) : KeepsConfined dev n start (copySource dev srcPath) :=
  fun _ h => Ends.get <| Ends.require h fun hroot =>
    Ends.bind (h.load hd hroot.2 fun _ h' _ => h') fun _ s h => by
      cases splitPath srcPath with
      | none => exact Ends.get <| Ends.demand h fun _ _ => Keeps.demand _ s h
      | some parts =>
          refine Ends.require h fun _ => Ends.bind (lookupDir parts.1 s h) fun d s h => Ends.get <|
            Ends.require h fun hdir => ?_
          rw [Ends, wp_bind]
          exact h.load2 hd hdir fun s h _ => Ends.get <| Ends.demand h fun _ _ => Keeps.demand _ s h

theorem copyTarget (srcPath dstPath : CStr) :
    KeepsConfined dev n start (copyTarget dev srcPath dstPath) := fun s h => by
  have hroot : (s.inodes 0).direct0 ≠ 0 := h.mapped.sane.direct0_ne h.mapped.sane.root
  unfold SevenOS.copyTarget
  cases splitPath dstPath with
  | some parts =>
      refine Ends.require h fun _ => Ends.get ?_
      rw [Ends, wp_bind]
      exact h.load hd hroot fun s h _ => Ends.bind (lookupDir parts.1 s h) fun _ _ h => h
  | none =>
      refine Ends.get ?_
      rw [Ends, wp_bind]
      refine h.load hd hroot fun s h _ => Ends.get ?_
      cases findDirEntry dstPath s.blockScratch s.inodes inodeDir with
      | none => exact h
      | some i => exact Ends.demand h fun _ _ => h

theorem fsCopyPath (srcPath dstPath : CStr) :
    KeepsConfined dev n start (fsCopyPath dev srcPath dstPath) := fun s h => by
  refine Ends.get <| Ends.require h fun _ => Ends.require h fun _ =>
    Ends.bind (copySource hd srcPath s h) fun src s h => Ends.get <|
    Ends.require h fun hsrc => ?_
  have hsize : (s.inodes src).size.toNat ≤ 512 := h.mapped.sane.size_le src
  generalize (s.inodes src).size = fileSize at hsize
  rw [Ends, wp_bind]
  refine h.read hd hsrc fun s₁ h₁ _ => ?_
  generalize s.blockOf src = fileData
  refine Ends.bind (ensureRootDirBlock s₁ h₁) fun _ s h =>
    Ends.bind (copyTarget hd srcPath dstPath s h) fun target s h => ?_
  obtain ⟨d, name⟩ := target
  refine Ends.require h fun _ => Ends.get <| Ends.require h fun hdir => ?_
  rw [Ends, wp_bind]
  refine h.load2 hd hdir.2 fun s h hv => Ends.get ?_
  have hdir : (s.inodes d).direct0 ≠ 0 := by
    rw [hv]
    exact hdir.2
  have finish : ∀ (k : InodeNo) (s : Fs), Confined dev n start s → (s.inodes d).direct0 ≠ 0 →
      (s.inodes k).direct0 ≠ 0 → EndsConfined dev n start (do
        let s ← Prog.get
        SevenOS.diskWriteLba dev 512 (s.sectorOf d) s.blockScratch2
        SevenOS.diskWriteLba dev 512 (s.sectorOf k) fileData
        SevenOS.flushTables dev) s := fun k s h hdir hk => Ends.get (h.storeTwo hd hdir hk _ _)
  cases hscan : scanEntries neverBad name inodeFile s.blockScratch2 s.inodes with
  | bad => exact h
  | found j k =>
      have hk := (scan_found hscan).1.used
      exact h.resize_step hsize hk fun s' h' hsame =>
        finish k s' h' (by rwa [hsame]) (by rw [hsame]; exact h.mapped.sane.direct0_ne hk)
  | absent free =>
      refine Ends.demand h fun j _ => Ends.demand h fun k hk => Ends.demand h fun b hb => ?_
      refine h.take_step hk hb (.inl rfl) hsize fun s' h' hpointed _ => ?_
      rw [EndsConfined, Ends, wp_bind, wp_setScratch2]
      exact finish k _ (h'.setScratch2 _) (hpointed d (.inr hdir)) (hpointed k (.inl rfl))

/-! ## Renaming -/

theorem renameDir (dirname : CStr) : KeepsConfined dev n start (renameDir dev dirname) :=
  fun s h => Ends.bind (loadDirBlock hd 0 s h) fun b s h => Ends.get <| by
    cases findDirEntry dirname b s.inodes inodeDir with
    | none => exact h
    | some i => exact Ends.demand h fun _ _ => h

theorem renameSource (srcPath : CStr) : KeepsConfined dev n start (renameSource dev srcPath) := by
  unfold SevenOS.renameSource
  cases splitPath srcPath with
  | none => exact Keeps.pure _
  | some parts =>
      exact (Keeps.require _).bind fun _ => (Keeps.require _).bind fun _ =>
        (renameDir hd _).bind fun _ => (Keeps.demand _).bind fun _ => Keeps.pure _

theorem renameTarget (srcName dstPath : CStr) :
    KeepsConfined dev n start (renameTarget dev srcName dstPath) := by
  unfold SevenOS.renameTarget
  cases splitPath dstPath with
  | some parts =>
      exact (Keeps.require _).bind fun _ => (renameDir hd _).bind fun _ =>
        (Keeps.demand _).bind fun _ => Keeps.ite (fun _ => Keeps.pure _) fun _ => Keeps.pure _
  | none =>
      refine (renameDir hd _).bind fun o => ?_
      cases o with
      | none => exact Keeps.pure _
      | some d => exact Keeps.pure _

theorem writeDirBlock (d : InodeNo) (b : Block) :
    KeepsConfined dev n start (writeDirBlock dev d b) := fun _ h =>
  Ends.get <| Ends.require h fun hdir => h.write hd hdir.2.2 b fun _ h' _ => h'

theorem fsRename (srcPath dstPath : CStr) :
    KeepsConfined dev n start (fsRename dev srcPath dstPath) :=
  Keeps.get.bind fun _ => (Keeps.require _).bind fun _ => (Keeps.require _).bind fun _ =>
    (renameSource hd _).bind fun _ => (Keeps.require _).bind fun _ =>
    (loadDirBlock hd _).bind fun _ => Keeps.get.bind fun _ => (Keeps.demand _).bind fun _ =>
    (Keeps.demand _).bind fun _ => (renameTarget hd _ _).bind fun _ => (Keeps.require _).bind
    fun _ => (Keeps.require _).bind fun _ => Keeps.ite (fun _ => Keeps.pure _) fun _ =>
    (loadDirBlock hd _).bind fun _ => Keeps.get.bind fun _ =>
    Keeps.ite (fun _ => Keeps.pure _) fun _ => (Keeps.require _).bind fun _ =>
    Keeps.ite (fun _ => writeDirBlock hd _ _) fun _ => (Keeps.demand _).bind fun _ =>
    (writeDirBlock hd _ _).bind fun _ => writeDirBlock hd _ _

/-! ## System files -/

theorem ensureSysDir {s : Fs} (h : Confined dev n start s) :
    wp (ensureSysDir dev)
      (fun d s' => Confined dev n start s' ∧ (s'.inodes d).direct0 ≠ 0)
      (Confined dev n start) (Confined dev n start) s := by
  simp only [SevenOS.ensureSysDir, wp_bind, wp_get]
  cases findDirEntry sysName s.blockScratch s.inodes inodeDir with
  | none =>
      simp only [wp_bind, wp_demand, wp_markBlockUsed, wp_modifyInode]
      refine ⟨fun k hk => ⟨fun b hb => ?_, fun _ => h⟩, fun _ => h⟩
      obtain ⟨h', hpointed⟩ := h.taken hk hb (.inr rfl) (show (0 : UInt32).toNat ≤ 512 by decide) rfl
      refine ⟨fun j _ => ?_, fun _ => h'⟩
      rw [wp_setScratch, wp_setScratch2, wp_get]
      have hentered := (h'.setScratch (fillEntry s.blockScratch j k sysName)).setScratch2 Bytes.zero
      refine hentered.write hd (hpointed k (.inl rfl)) Bytes.zero fun s'' h'' hv => ⟨h'', ?_⟩
      rw [hv]
      exact hpointed k (.inl rfl)
  | some i =>
      simp only [wp_bind, wp_demand, wp_require, wp_pure]
      exact ⟨fun k _ => ⟨fun hdir => ⟨h, hdir.2⟩, fun _ => h⟩, fun _ => h⟩

theorem writeSysEntry {d : InodeNo} {filename : CStr} {data : List UInt8}
    (hdata : data.length ≤ 512) {s : Fs} (h : Confined dev n start s)
    (hdir : (s.inodes d).direct0 ≠ 0) :
    EndsConfined dev n start (writeSysEntry dev d filename data) s := by
  have hlen : (UInt32.ofNat data.length).toNat ≤ 512 := by
    rw [UInt32.toNat_ofNat']
    omega
  refine Ends.bind (ensureSysEntry hlen h) fun k s₁ ⟨h₁, hpointed⟩ => Ends.get ?_
  rw [Ends, wp_bind]
  refine h₁.write hd (hpointed d (.inr hdir)) _ fun s₂ h₂ hv => ?_
  rw [wp_bind, wp_setScratch]
  refine Ends.get ((h₂.setScratch _).store hd ?_ _)
  rw [Fs.toVolume_setScratch, hv]
  exact hpointed k (.inl rfl)

theorem writeSysFile {filename : CStr} {data : List UInt8} (hdata : data.length ≤ 512) :
    KeepsConfined dev n start (writeSysFile dev filename data) := fun s h => by
  refine Ends.bind (ensureRootDirBlock s h) fun _ s h => Ends.bind (readRootDirBlock hd s h)
    fun _ s h => Ends.bind (ensureSysDir hd h) fun d s ⟨h, hdir⟩ => Ends.get ?_
  have hroot : (s.inodes 0).direct0 ≠ 0 := h.mapped.sane.direct0_ne h.mapped.sane.root
  rw [Ends, wp_bind]
  refine h.write hd hroot _ fun s₁ h₁ hv => ?_
  have hdir₁ : (s₁.inodes d).direct0 ≠ 0 := by
    rw [hv]
    exact hdir
  have hsector : s.sectorOf d = s₁.sectorOf d := by
    rw [hv]
    rfl
  rw [hsector, wp_bind]
  refine h₁.load2 hd hdir₁ fun s₂ h₂ hv₂ => writeSysEntry hd hdata h₂ ?_
  rw [hv₂]
  exact hdir₁

theorem fsWritePasswd (hash : UInt32) : KeepsConfined dev n start (fsWritePasswd dev hash) :=
  writeSysFile hd (by change 4 ≤ 512; decide)

end Writing

end KeepsConfined

end SevenOS
