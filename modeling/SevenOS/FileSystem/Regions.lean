import SevenOS.FileSystem.Proof.RegionCalls

/-! # Every transfer in its region

From a successful `fs_format(0, _)` on, whatever calls follow, tables are transferred
in sectors 128 to 144 and blocks in the sectors behind them, up to the end of the disk.

Calls that were refused half-way and mounts after them can leave two entries for one
inode, so directories may form a circle. `remove_dir_contents` cannot come back from
one: whatever stands on the way it has gone so far is still there when it returns.
-/

namespace SevenOS

open Prog

variable {dev : Device} {n : Nat} {start : List Transfer} {v : Volume} {s : Fs}
  {G : InodeNo → Prop}

/-! ## Removing -/

/-- A used entry of the block names an inode of `G`. -/
def NamesIn (G : InodeNo → Prop) (b : Block) : Prop :=
  ∃ j k, entryUsed b j = true ∧ inodeIndex (entryInode b j) = some k ∧ G k

/-- Live directories, or the root, each of which but `last` has an entry for one of them. -/
structure OnTheWay (G : InodeNo → Prop) (last : InodeNo) (v : Volume) : Prop where
  live : ∀ d, G d → Live v.inodes d
  dirs : ∀ d, G d → d ≠ 0 → (v.inodes d).type = inodeDir
  next : ∀ d, G d → d ≠ last → NamesIn G (v.blockOf d)

/-- The inodes of `G` are what they were, and so are the blocks of `H`. -/
structure Spared (G H : InodeNo → Prop) (v v' : Volume) : Prop where
  inodes : ∀ d, G d → v'.inodes d = v.inodes d
  blocks : ∀ d, H d → v'.blockOf d = v.blockOf d

namespace Spared

variable {G' H H' : InodeNo → Prop} {v' v'' : Volume}

theorem refl (G H : InodeNo → Prop) (v : Volume) : Spared G H v v :=
  ⟨fun _ _ => rfl, fun _ _ => rfl⟩

theorem trans (h : Spared G H v v') (h' : Spared G H v' v'') : Spared G H v v'' :=
  ⟨fun d hd => (h'.inodes d hd).trans (h.inodes d hd),
    fun d hd => (h'.blocks d hd).trans (h.blocks d hd)⟩

theorem mono (h : Spared G H v v') (hG : ∀ d, G' d → G d) (hH : ∀ d, H' d → H d) :
    Spared G' H' v v' :=
  ⟨fun d hd => h.inodes d (hG d hd), fun d hd => h.blocks d (hH d hd)⟩

theorem onTheWay {last : InodeNo} (h : Spared G G v v') (hw : OnTheWay G last v) :
    OnTheWay G last v' := by
  refine ⟨fun d hd => ?_, fun d hd => ?_, fun d hd hne => ?_⟩
  · rw [Live, h.inodes d hd]
    exact hw.live d hd
  · rw [h.inodes d hd]
    exact hw.dirs d hd
  · rw [h.blocks d hd]
    exact hw.next d hd hne

end Spared

/-- One directory further: the last one so far has an entry for the new one. -/
theorem OnTheWay.step {last k : InodeNo} (h : OnTheWay G last v) (hk : Live v.inodes k)
    (htype : (v.inodes k).type = inodeDir) {j : Slot} (hused : entryUsed (v.blockOf last) j = true)
    (hentry : inodeIndex (entryInode (v.blockOf last) j) = some k) :
    OnTheWay (fun i => G i ∨ i = k) k v := by
  refine ⟨?_, ?_, ?_⟩
  · rintro d (hd | rfl)
    · exact h.live d hd
    · exact hk
  · rintro d (hd | rfl) h0
    · exact h.dirs d hd h0
    · exact htype
  · rintro d (hd | rfl) hne
    · by_cases hlast : d = last
      · subst hlast
        exact ⟨j, k, hused, hentry, .inr rfl⟩
      · obtain ⟨i, c, hi, hc, hG⟩ := h.next d hd hlast
        exact ⟨i, c, hi, hc, .inl hG⟩
    · exact (hne rfl).elim

section Removing

variable (hd : dev.Roomy n)

include hd

/-- A live inode is erased: its block is given back and overwritten, its record zeroed. -/
theorem Confined.erase {α : Type} {f : Unit → FsM α} {Q : α → Fs → Prop} {R D : Fs → Prop}
    (h : Confined dev n start s) {k : InodeNo} (hk0 : k ≠ 0) (hk : Live s.inodes k)
    (hf : ∀ s', Confined dev n start s' →
      Spared (· ≠ k) (fun i => i ≠ k ∧ Live s.inodes i) s.toVolume s'.toVolume →
      wp (f ()) Q R D s') :
    wp (do releaseBlock dev k; modifyInode k (fun _ => Inode.zero); f ()) Q R D s := by
  have hsane := h.mapped.sane
  have hfree : blockFreeable s.toVolume (s.inodes k).direct0 :=
    ⟨hsane.direct0_ne hk, hsane.alloc.blockLt k hk⟩
  simp only [releaseBlock, wp_bind, wp_get, if_pos hfree, wp_markBlockFree]
  rw [hd.wp_write, wp_modifyInode]
  refine hf _ ((h.note (h.mapped.sectorOf_within hd (hsane.direct0_ne hk) true)).setVolume
    (h.mapped.erased hk0 hk)) ⟨fun i hi => ?_, fun i hi => ?_⟩
  · simp [hi]
  · have hblock : (s.inodes i).direct0 ≠ (s.inodes k).direct0 := fun heq =>
      hi.1 (hsane.alloc.blockInj i k hi.2 hk heq)
    change Volume.blockOf (((s.toVolume.freeBlock _).setData _ _).putInode k _) i = _
    rw [Volume.blockOf, Volume.data_putInode, Volume.inodes_putInode, assign_of_ne _ _ hi.1]
    change ((s.toVolume.freeBlock _).setData _ _).data (s.inodes i).direct0 = _
    rw [Volume.data_setData, if_neg hblock]
    rfl

end Removing

theorem clearEntry_other (b : Block) {i j : Slot} (h : i ≠ j) :
    entryUsed (clearEntry b i) j = entryUsed b j ∧
      entryInode (clearEntry b i) j = entryInode b j := by
  have hi := i.isLt
  have hj := j.isLt
  have hne : i.val ≠ j.val := fun heq => h (Fin.ext heq)
  have hat : ∀ o, o < 32 → (clearEntry b i).at_ (32 * j.val + o) = b.at_ (32 * j.val + o) := by
    intro o ho
    rw [clearEntry_at b i (by omega), if_neg (by omega)]
  exact ⟨congrArg (· != 0) (hat 0 (by decide)), hat 1 (by decide)⟩

theorem ne_root_of_inRange {e : UInt8} {k : InodeNo} (h : rootOrOutOfTable e = false)
    (hk : inodeIndex e = some k) : k ≠ 0 := by
  rintro rfl
  rw [inodeIndex_eq_some.mp hk] at h
  simp [rootOrOutOfTable, inodeByte] at h

/-- In the loop of `remove_dir_contents`, behind the slots `done` of the block `b₀`: the way
is what it was, and no entry looked at leads back to it. -/
structure Passed (dev : Device) (n : Nat) (start : List Transfer) (G : InodeNo → Prop) (s : Fs)
    (b₀ : Block) (done : List Slot) (b : Block) (s' : Fs) : Prop where
  confined : Confined dev n start s'
  spared : Spared G G s.toVolume s'.toVolume
  later : ∀ j, j ∉ done → entryUsed b j = entryUsed b₀ j ∧ entryInode b j = entryInode b₀ j
  clean : ∀ j ∈ done, entryUsed b₀ j = true → ∀ k, inodeIndex (entryInode b₀ j) = some k → ¬ G k

namespace Passed

variable {b₀ b : Block} {done : List Slot} {s' s'' : Fs} {j : Slot}

theorem skip (h : Passed dev n start G s b₀ done b s') (hunused : entryUsed b₀ j = false) :
    Passed dev n start G s b₀ (done ++ [j]) b s' := by
  refine ⟨h.confined, h.spared, fun i hi => h.later i (by simp_all), fun i hi hused => ?_⟩
  rcases List.mem_append.mp hi with hi | hi
  · exact h.clean i hi hused
  · rw [List.mem_singleton.mp hi, hunused] at hused
    cases hused

theorem erased (h : Passed dev n start G s b₀ done b s') {k : InodeNo}
    (hk : inodeIndex (entryInode b₀ j) = some k) (hG : ¬ G k) (h' : Confined dev n start s'')
    (hspared : Spared G G s'.toVolume s''.toVolume) :
    Passed dev n start G s b₀ (done ++ [j]) (clearEntry b j) s'' := by
  refine ⟨h', h.spared.trans hspared, fun i hi => ?_, fun i hi hused k' hk' => ?_⟩
  · simp only [List.mem_append, List.mem_singleton, not_or] at hi
    obtain ⟨hused, hentry⟩ := clearEntry_other b (Ne.symm hi.2)
    rw [hused, hentry]
    exact h.later i hi.1
  · rcases List.mem_append.mp hi with hi | hi
    · exact h.clean i hi hused k' hk'
    · rw [List.mem_singleton.mp hi, hk] at hk'
      cases hk'
      exact hG

end Passed

/-- What is on the way is still there when `remove_dir_contents` returns, and the directory
it emptied had no entry leading back. -/
theorem removeDirContents_confined (hd : dev.Roomy n) (frames : Nat) {d : InodeNo}
    (h : Confined dev n start s) (hG : G d) (hway : OnTheWay G d s.toVolume) :
    wp (removeDirContents dev frames d)
      (fun _ s' => Confined dev n start s' ∧
        Spared G (fun i => G i ∧ i ≠ d) s.toVolume s'.toVolume ∧ ¬ NamesIn G (s.blockOf d))
      (Confined dev n start) (Confined dev n start) s := by
  induction frames generalizing d G s with
  | zero => exact h
  | succ frames ih =>
      simp only [removeDirContents, wp_bind, wp_get, wp_require]
      refine ⟨fun hd0 => ⟨fun hdir => h.read hd hdir.2.2 fun s₁ h₁ hv => ?_, fun _ => h⟩, fun _ => h⟩
      refine wp_mono (wp_foldlM _ (Passed dev n start G s (s.blockOf d)) slots ?_ _ ?_) ?_
        (fun _ h => h) (fun _ h => h)
      · -- one entry
        intro done j rest b s' hslots hpass
        have hj : j ∉ done := by
          have hnodup : slots.Nodup := List.nodup_finRange 16
          rw [hslots] at hnodup
          intro hmem
          exact (List.nodup_append.mp hnodup).2.2 j hmem j (by simp) rfl
        obtain ⟨hused, hentry⟩ := hpass.later j hj
        rw [wp_ite, hused, hentry]
        refine ⟨fun hunused => hpass.skip hunused, fun hisused => ?_⟩
        have hisused : entryUsed (s.blockOf d) j = true := by simpa using hisused
        have h' := hpass.confined
        have hway' := hpass.spared.onTheWay hway
        have hblock := hpass.spared.blocks d hG
        rw [wp_bind, wp_require]
        refine ⟨fun hrange => ?_, fun _ => h'⟩
        rw [wp_bind, wp_demand]
        refine ⟨fun k hk => ?_, fun _ => h'⟩
        have hk0 : k ≠ 0 := ne_root_of_inRange hrange hk
        have finish : ∀ s'', Confined dev n start s'' → Spared G G s'.toVolume s''.toVolume →
            Live s''.inodes k → ¬ G k →
            wp (do releaseBlock dev k; modifyInode k fun _ => Inode.zero; return clearEntry b j)
              (fun b' s₂ => Passed dev n start G s (s.blockOf d) (done ++ [j]) b' s₂)
              (Confined dev n start) (Confined dev n start) s'' := by
          intro s'' h'' hspared hlive hGk
          refine h''.erase hd (f := fun _ => pure (clearEntry b j)) hk0 hlive fun s₂ h₂ hspared₂ => ?_
          refine hpass.erased hk hGk h₂ ?_
          have hne : ∀ i, G i → i ≠ k := fun i hi heq => hGk (heq ▸ hi)
          exact hspared.trans (hspared₂.mono hne fun i hi =>
            ⟨hne i hi, (hspared.onTheWay hway').live i hi⟩)
        rw [wp_bind, wp_get, wp_ite]
        refine ⟨fun htype => ?_, fun _ => ?_⟩
        · have hlive := h'.mapped.live_of_type (by rw [htype]; decide)
          refine wp_call (ih (G := fun i => G i ∨ i = k) h' (.inr rfl)
            (hway'.step hlive htype (hblock.symm ▸ hisused) (hblock.symm ▸ hk)))
            (fun _ s'' ⟨h'', hspared, hnames⟩ => ?_) (fun _ h => h) fun _ h => h
          have hGk : ¬ G k := by
            intro hGk
            refine hnames ?_
            by_cases hkd : k = d
            · subst hkd
              exact ⟨j, k, hblock.symm ▸ hisused, hblock.symm ▸ hk, .inr rfl⟩
            · obtain ⟨i, c, hi, hc, hGc⟩ := hway'.next k hGk hkd
              exact ⟨i, c, hi, hc, .inl hGc⟩
          refine finish s'' h'' (hspared.mono (fun i hi => .inl hi) fun i hi =>
            ⟨.inl hi, fun heq => hGk (heq ▸ hi)⟩) ?_ hGk
          rw [Live, hspared.inodes k (.inr rfl)]
          exact hlive
        · rw [wp_bind, wp_require]
          refine ⟨fun hfile => ?_, fun _ => h'⟩
          refine finish s' h' (.refl _ _ _) (h'.mapped.live_of_type (by rw [hfile]; decide)) ?_
          intro hGk
          have hdir := hway'.dirs k hGk hk0
          rw [hfile] at hdir
          exact absurd hdir (by decide)
      · exact ⟨h₁, hv ▸ .refl _ _ _, fun _ _ => ⟨rfl, rfl⟩, fun _ hj => by cases hj⟩
      · -- the emptied block is written back
        intro b s' hpass
        have h' := hpass.confined
        have hsame := hpass.spared.inodes d hG
        refine h'.write hd (by rw [hsame]; exact hdir.2.2) b fun s'' h'' hv => ?_
        refine ⟨h'', ⟨fun i hi => ?_, fun i hi => ?_⟩, ?_⟩
        · rw [hv]
          exact hpass.spared.inodes i hi
        · have hlive := (hpass.spared.onTheWay hway).live
          have hne : (s'.inodes i).direct0 ≠ (s'.inodes d).direct0 := fun heq =>
            hi.2 (h'.mapped.sane.alloc.blockInj i d (hlive i hi.1) (hlive d hG) heq)
          rw [hv, ← hpass.spared.blocks i hi.1, Volume.blockOf, Volume.data_setData]
          exact if_neg hne
        · rintro ⟨j, k, hused, hk, hGk⟩
          exact hpass.clean j (mem_slots j) hused k hk hGk

theorem Hit.usedSlot {b : Block} {tab : Table} {name : CStr} {type : UInt8} {j : Slot}
    {k : InodeNo} (h : Hit (listing b) tab name type j k) : entryUsed b j = true :=
  (listing_eq_some.mp h.entry).1

theorem findRemovable_hit {name : CStr} {b : Block} {tab : Table} {j : Slot} {k : InodeNo}
    (h : findRemovable name b tab = .found j k) : ∃ type, Hit (listing b) tab name type j k := by
  unfold findRemovable at h
  split at h
  · exact ⟨_, (scan_found h).1⟩
  · exact ⟨_, (scan_found h).1⟩

/-- A directory that an entry is looked for in: the root or one that was looked up. -/
def Searched (tab : Table) (d : InodeNo) : Prop := d ≠ 0 → LiveDir tab d

namespace KeepsConfined

section Removing

variable (hd : dev.Roomy n)

include hd

theorem removeEntryFromDir {d : InodeNo} (filename : CStr) (h : Confined dev n start s)
    (hdir : Searched s.inodes d) :
    EndsConfined dev n start (removeEntryFromDir dev d filename) s := by
  refine Ends.get <| Ends.require h fun hblock => ?_
  rw [Ends, wp_bind]
  refine h.load hd hblock fun s h hv => Ends.get ?_
  rw [← hv] at hblock hdir
  cases hscan : scanEntries rootOrOutOfTable filename inodeFile s.blockScratch s.inodes with
  | bad => exact h
  | absent free => exact h
  | found j k =>
      obtain ⟨hit, hk0⟩ := scan_found_ne_root hscan
      have hsane := h.mapped.sane
      have hne : d ≠ k := by
        rintro rfl
        have htype := (hdir hk0).2
        rw [hit.type] at htype
        exact absurd htype (by decide)
      refine Ends.require h fun _ => ?_
      rw [if_pos ⟨hsane.direct0_ne hit.used, hsane.alloc.blockLt k hit.used⟩]
      simp only [wp_bind, wp_markBlockFree, wp_setScratch2, wp_get]
      rw [hd.wp_write, wp_setScratch, wp_modifyInode]
      have hwithin := h.mapped.sectorOf_within hd (hsane.direct0_ne hit.used) true
      have h' := (((h.setScratch2 Bytes.zero).note hwithin).setVolume
        (h.mapped.erased hk0 hit.used)).setScratch (clearEntry s.blockScratch j)
      refine (wp_bind _ _).mp (h'.store hd (d := d) ?_ (clearEntry s.blockScratch j))
      change (assign s.inodes k Inode.zero d).direct0 ≠ 0
      rwa [assign_of_ne _ _ hne]

/-- The directory of the entry is on the way of the recursion. -/
theorem removeEntryFromDirRecursive {s₀ : Fs} {d : InodeNo} (filename : CStr)
    (h : Confined dev n start s₀) (hdir : Searched s₀.inodes d) :
    EndsConfined dev n start (removeEntryFromDirRecursive dev d filename) s₀ := by
  refine Ends.get <| Ends.require h fun hblock => ?_
  rw [Ends, wp_bind]
  refine h.read hd hblock fun s₁ h₁ hv => ?_
  cases hscan : findRemovable filename (s₀.blockOf d) s₀.inodes with
  | bad => exact h₁
  | absent free => exact h₁
  | found j k =>
      obtain ⟨type, hit⟩ := findRemovable_hit hscan
      have hk0 := findRemovable_ne_root hscan
      have finish : ∀ s', Confined dev n start s' → Live s'.inodes k → d ≠ k →
          (s'.inodes d).direct0 ≠ 0 → EndsConfined dev n start (do
            releaseBlock dev k
            modifyInode k fun _ => Inode.zero
            let s ← get
            SevenOS.diskWriteLba dev 512 (s.sectorOf d) (clearEntry (s₀.blockOf d) j)
            SevenOS.flushTables dev) s' := by
        intro s' h' hlive hne hblock'
        refine h'.erase hd (f := fun _ => do
          let s ← get
          SevenOS.diskWriteLba dev 512 (s.sectorOf d) (clearEntry (s₀.blockOf d) j)
          SevenOS.flushTables dev) hk0 hlive fun s'' h'' hspared => Ends.get (h''.store hd ?_ _)
        rw [hspared.inodes d hne]
        exact hblock'
      refine Ends.ite (fun htype => ?_) fun _ => Ends.require h₁ fun hfile => ?_
      · have hlive : Live s₀.inodes k := h.mapped.live_of_type (by rw [htype]; decide)
        have hway : OnTheWay (· = d) d s₀.toVolume := by
          refine ⟨?_, ?_, ?_⟩
          · rintro i rfl
            exact h.mapped.live_of_direct0 hblock
          · rintro i rfl h0
            exact (hdir h0).2
          · rintro i rfl hne
            exact (hne rfl).elim
        have hway' := hway.step hlive htype hit.usedSlot hit.inodeIndex
        rw [← hv] at hway'
        refine Ends.bind (removeDirContents_confined hd dirNesting h₁ (.inr rfl) hway') ?_
        rintro _ s' ⟨h', hspared, hnames⟩
        have hne : d ≠ k := by
          rintro rfl
          exact hnames ⟨j, d, hv ▸ hit.usedSlot, hv ▸ hit.inodeIndex, .inl rfl⟩
        refine finish s' h' ?_ hne ?_
        · rw [Live, hspared.inodes k (.inr rfl), hv]
          exact hlive
        · rw [hspared.inodes d (.inl rfl), hv]
          exact hblock
      · have hlive : Live s₀.inodes k := h.mapped.live_of_type (by rw [hfile]; decide)
        refine finish s₁ h₁ (hv ▸ hlive) ?_ (hv ▸ hblock)
        rintro rfl
        have htype := (hdir hk0).2
        rw [hfile] at htype
        exact absurd htype (by decide)

theorem fsRemove (name : CStr) : KeepsConfined dev n start (fsRemove dev name) := fun _ h =>
  Ends.get <| Ends.require h fun _ => Ends.require h fun _ => Ends.require h fun _ =>
  Ends.require h fun _ => removeEntryFromDir hd name h fun h0 => (h0 rfl).elim

theorem fsRemovePath (path : CStr) : KeepsConfined dev n start (fsRemovePath dev path) :=
  fun s h => Ends.get <| Ends.require h fun _ => Ends.require h fun _ => by
    cases splitPath path with
    | none => exact fsRemove hd path s h
    | some parts =>
        exact Ends.bind (removeParent hd parts.1 parts.2 h) fun d s ⟨h, hdir⟩ =>
          removeEntryFromDir hd parts.2 h fun _ => hdir

theorem fsRemovePathRecursive (path : CStr) :
    KeepsConfined dev n start (fsRemovePathRecursive dev path) :=
  fun s h => Ends.get <| Ends.require h fun _ => Ends.require h fun _ => by
    cases splitPath path with
    | none =>
        exact Ends.require h fun _ =>
          removeEntryFromDirRecursive hd path h fun h0 => (h0 rfl).elim
    | some parts =>
        exact Ends.bind (removeParent hd parts.1 parts.2 h) fun d s ⟨h, hdir⟩ =>
          removeEntryFromDirRecursive hd parts.2 h fun _ => hdir

end Removing

/-! ## Mounting and formatting -/

section Mounting

variable (hd : dev.Roomy n)

include hd

theorem fsInit : KeepsConfined dev n start (fsInit dev) := fun s h => by
  have hsuper : Transfer.Within n ⟨false, fsSuperLba, 1, 32⟩ :=
    hd.tables_within (by decide) (by decide) (by decide) false
  have hbitmap : Transfer.Within n ⟨false, s.sb.bitmapLba, fsBitmapSectors, 4096⟩ := by
    rw [h.mapped.layout.bitmapLba]
    exact hd.tables_within (by decide) (by decide) (by decide) false
  have hinodes : Transfer.Within n ⟨false, s.sb.inodeTableLba, fsInodeTableSectors, 4096⟩ := by
    rw [h.mapped.layout.inodeTableLba]
    exact hd.tables_within (by decide) (by decide) (by decide) false
  simp only [SevenOS.fsInit, wp_bind, wp_orElse, hd.wp_loadSuperblock, hd.wp_loadBitmap,
    hd.wp_loadInodes, wp_get, wp_modify, wp_ite, h.mapped.headed.superblock]
  refine ⟨fun hbad => ?_, fun _ => ?_⟩
  · rcases hbad with hbad | hbad
    · exact (hbad h.mapped.headed.magic).elim
    · exact (hbad h.mapped.headed.blockSize).elim
  · exact ⟨h.mapped.reload, (((h.note hsuper).note hbitmap).note hinodes).noted⟩

/-- It only looks, by a superblock and an inode table of its own. -/
theorem fsIsFormatted : KeepsConfined dev n start (fsIsFormatted dev) := fun s h => by
  have hsuper : Transfer.Within n ⟨false, fsSuperLba, 1, 32⟩ :=
    hd.tables_within (by decide) (by decide) (by decide) false
  have hinodes : Transfer.Within n ⟨false, s.sb.inodeTableLba, fsInodeTableSectors, 4096⟩ := by
    rw [h.mapped.layout.inodeTableLba]
    exact hd.tables_within (by decide) (by decide) (by decide) false
  let Same : Fs → Prop := fun s' => Confined dev n start s' ∧ s'.toVolume = s.toVolume
  have block : ∀ {ino : Inode}, formattedInode s.sb ino →
      Transfer.Within n ⟨false, s.sb.dataLba + ino.direct0, 1, 512⟩ := by
    intro ino hino
    have hpos : 1 ≤ ino.direct0.toNat := by
      have : ino.direct0.toNat ≠ 0 := fun h0 => hino.2.1 (UInt32.toNat.inj h0)
      omega
    exact h.mapped.dataSector_within hd hpos hino.2.2 false
  have load : ∀ {ino : Inode} {s' : Fs}, Same s' → formattedInode s.sb ino →
      wp (loadScratch dev (s.sb.dataLba + ino.direct0)) (fun _ => Same) Same Same s' := by
    intro ino s' hs' hino
    rw [hd.wp_loadScratch]
    exact ⟨(hs'.1.note (block hino)).setScratch _, hs'.2⟩
  have load2 : ∀ {ino : Inode} {s' : Fs}, Same s' → formattedInode s.sb ino →
      wp (loadScratch2 dev (s.sb.dataLba + ino.direct0)) (fun _ => Same) Same Same s' := by
    intro ino s' hs' hino
    rw [hd.wp_loadScratch2]
    exact ⟨(hs'.1.note (block hino)).setScratch2 _, hs'.2⟩
  suffices hends : Ends Same (SevenOS.fsIsFormatted dev) s from
    wp_mono hends (fun _ _ h => h.1) (fun _ h => h.1) fun _ h => h.1
  have htable : Keeps Same (diskReadSectors dev 4096 s.sb.inodeTableLba fsInodeTableSectors
      fun k b s => { s with inodeScratch := storeInodeSector s.inodeScratch k b }) :=
    (Keeps.modify fun s' hs' => (⟨hs'.1.note hinodes, hs'.2⟩ : Same (s'.noted _))).bind fun _ =>
      Keeps.foldlM _ (fun _ _ _ => Keeps.get.bind fun _ => (Keeps.require _).bind fun _ =>
        Keeps.modify fun s' hs' => ⟨⟨hs'.1.mapped, hs'.1.noted⟩, hs'.2⟩) _
  rw [Ends, SevenOS.fsIsFormatted, wp_bind, hd.wp_read, h.mapped.headed.superblock]
  refine dev.frame.ends_returning _ <| Ends.require ⟨h.note hsuper, rfl⟩ fun _ =>
    Ends.bind (htable _ ⟨h.note hsuper, rfl⟩) fun _ s₁ h₁ => Ends.get <|
    Ends.require h₁ fun hroot => Ends.bind (load h₁ hroot.2) fun _ s₂ h₂ => Ends.get <|
    Ends.demand h₂ fun _ _ => Ends.demand h₂ fun _ _ => Ends.require h₂ fun hsys =>
    Ends.bind (load2 h₂ hsys.2) fun _ s₃ h₃ => Ends.get <|
    Ends.demand h₃ fun _ _ => Ends.demand h₃ fun _ _ => Ends.require h₃ fun hstatus =>
    Ends.bind (load h₃ hstatus) fun _ s₄ h₄ => Ends.get (Keeps.require _ s₄ h₄)

end Mounting

end KeepsConfined

/-- The root block on cleared tables, when there are two blocks. -/
theorem formatRoot_confined (hd : dev.Roomy n) {root : Inode} (hlog : Logged n start s)
    (hlayout : s.toVolume.Layout) (hcount : s.sb.blockCount = formatBlocks dev 0)
    (hbitmap : s.bitmap = Bytes.zero) (htab : s.inodes = assign (fun _ => Inode.zero) 0 root)
    (hused : root.used ≠ 0) (htype : root.type = inodeDir) (hsize : root.size = 0)
    (hblock : root.direct0 = 0) :
    wp (ensureRootDirBlock dev)
      (fun _ s' => Logged n start s' ∧ s'.sb = s.sb ∧ Sane s'.toVolume)
      (fun _ => ¬ 2 ≤ (formatBlocks dev 0).toNat) (fun _ => False) s := by
  have hbounds := formatBlocks_bounds dev 0
  rw [← hcount] at hbounds ⊢
  have hroot : s.inodes 0 = root := by rw [htab, assign_same]
  simp only [ensureRootDirBlock, wp_bind, wp_get]
  rw [if_neg (by rw [hroot, hblock]; simp)]
  simp only [wp_bind, wp_demand, wp_markBlockUsed, wp_modifyInode, wp_get, hd.wp_write,
    hd.wp_flushTables]
  refine ⟨fun b hb => ?_, fun hnone htwo => ?_⟩
  · obtain ⟨hpos, hlt, -⟩ := allocBlockRaw_free hb
    rw [(allocated_empty hbounds.1 hbounds.2).blockLimit_eq] at hlt
    refine ⟨?_, rfl, ?_⟩
    · have hblocks := hlayout.dataSector_within hd hcount hpos hlt true
      obtain ⟨hfirst, hsecond⟩ := hlayout.flush_within hd
      exact ((hlog.note hblocks).note hfirst).note hsecond
    · refine ⟨?_, by simpa [Live, hroot] using hused⟩
      have := @allocated_root _ { root with direct0 := b } hbounds hused htype
        (by simp [hsize]) hpos hlt
      simpa [hbitmap, htab, assign_assign] using this
  · have hone := List.find?_eq_none.mp (Option.map_eq_none_iff.mp hnone) 1 (by
      rw [(allocated_empty hbounds.1 hbounds.2).blockLimit_eq, List.mem_range'_1]
      omega)
    simp [hbitmap, Bytes.testBit] at hone

/-- Whatever the tables were, `fs_format(0, _)` keeps to the regions. -/
theorem fsFormat_confined (hd : dev.Roomy n) (inodeCount : UInt32) (hlog : Logged n start s) :
    wp (fsFormat dev 0 inodeCount) (fun _ s' => Confined dev n start s')
      (fun s' => 2 ≤ (formatBlocks dev 0).toNat → Confined dev n start s')
      (fun s' => Confined dev n start s') s := by
  have hsuper : Transfer.Within n ⟨true, fsSuperLba, 1, 32⟩ :=
    hd.tables_within (by decide) (by decide) (by decide) true
  have rest : KeepsConfined dev n start (do
      writeStatusFlag dev 0xFF
      writeSysFile dev passwdName (hashBytes (fnv1a32 defaultPassword))
      modify fun s => { s with lastError := .none, mounted := true }) :=
    (KeepsConfined.writeSysFile hd (by decide)).bind fun _ =>
      (KeepsConfined.writeSysFile hd (by change 4 ≤ 512; decide)).bind fun _ =>
      Keeps.modify fun s h => ⟨h.mapped.of_sane (h.mapped.sane.of_tables rfl rfl rfl) rfl rfl, h.noted⟩
  rw [fsFormat, wp_bind, wp_modify, wp_bind, wp_modifyInode]
  refine wp_call (formatRoot_confined hd hlog ⟨rfl, rfl, rfl⟩ rfl rfl rfl (by simp) rfl rfl rfl)
    ?_ (fun _ hno htwo => (hno htwo).elim) fun _ h => h.elim
  rintro - s₁ ⟨hlog₁, hsb, hsane⟩
  refine wp_mono (Q := fun _ => Confined dev n start) (R := Confined dev n start)
    (D := Confined dev n start) ?_ (fun _ _ h => h) (fun _ h _ => h) fun _ h => h
  have hlayout : s₁.toVolume.Layout := by
    refine ⟨?_, ?_, ?_⟩ <;> rw [hsb] <;> rfl
  have hcount : s₁.sb.blockCount = formatBlocks dev 0 := by
    rw [hsb]
    rfl
  have hmapped : Mapped dev
      (s₁.toVolume.setSector fsSuperLba (s₁.sb.encode (dev.pastSb s₁))).flush := by
    refine .of_flush ⟨hlayout.1, hlayout.2, hlayout.3⟩ (hsane.of_tables rfl rfl rfl) hcount
      ⟨?_, ?_, ?_⟩
    · simp only [Volume.setSector, assign_same, Superblock.decode_encode]
    · rw [Volume.sb_setSector, hsb]
      rfl
    · rw [Volume.sb_setSector, hsb]
      rfl
  obtain ⟨hfirst, hsecond⟩ := hlayout.flush_within hd
  have hs₂ : Confined dev n start ((((s₁.noted _).noted _).noted _).setVolume _) :=
    ⟨hmapped, ((hlog₁.note hsuper).note hfirst).note hsecond⟩
  simp only [writeSuperblock, flushBitmap, flushInodes, wp_bind, wp_get, hd.wp_write,
    hd.wp_writeSectors]
  exact wp_mono ((wp_bind _ _).mp (rest _ hs₂)) (fun _ _ h => (wp_bind _ _).mp h)
    (fun _ h => h) fun _ h => h

/-! ## Any calls -/

/-- `fs_format(0, _)` leaves the blocks it counts on the disk. -/
theorem formatBlocks_fits {count : UInt64} (hcount : dev.sectorCount = some count)
    (h : 145 < count) : 145 + (formatBlocks dev 0).toNat ≤ count.toNat := by
  have hlba : fsDataLba.toUInt64 = 145 := rfl
  have hmax : maxBlocks.toUInt64.toNat = 32768 := rfl
  have hmax32 : maxBlocks.toNat = 32768 := rfl
  have hsub : (count - 145).toNat = count.toNat - 145 := by
    rw [UInt64.toNat_sub_of_le _ _ (UInt64.le_of_lt h)]
    rfl
  have h145 : (145 : UInt64).toNat = 145 := rfl
  rw [UInt64.lt_iff_toNat_lt, h145] at h
  simp only [formatBlocks, hcount, hlba, if_true]
  rw [if_pos (by rw [UInt64.lt_iff_toNat_lt, h145]; exact h)]
  split
  · next hlt =>
      rw [UInt64.lt_iff_toNat_lt, hmax, hsub] at hlt
      omega
  · next hle =>
      rw [UInt64.lt_iff_toNat_lt, hmax, hsub] at hle
      rw [UInt64.toNat_toUInt32, hsub]
      omega

/-- The parts of a path between its slashes are of 1 to 29 characters. -/
def ShortParts (path : CStr) : Prop :=
  ∀ part ∈ path.chars.splitOn slash, 1 ≤ part.length ∧ part.length ≤ 29

instance (path : CStr) : Decidable (ShortParts path) :=
  inferInstanceAs (Decidable (∀ part ∈ path.chars.splitOn slash, _))

/-- A call with short names; a longer one may run past the last entry of its block. Only
the block count 0 is ever formatted with. -/
structure Export.Usual (e : Export) : Prop where
  names : ∀ path ∈ e.paths, ShortParts path
  format : ∀ totalBlocks inodeCount, e = .format totalBlocks inodeCount → totalBlocks = 0

/-- The states after a successful `fs_format(0, _)` and any usual calls. -/
inductive Served (dev : Device) (start : Fs) : Fs → Prop
  | format {s : Fs} (inodeCount : UInt32) :
      fsFormat dev 0 inodeCount start = (.ok (), s) → Served dev start s
  | call {s s' : Fs} {e : Export} {o : Outcome Unit} : Served dev start s → e.Usual →
      e.run dev s = (o, s') → Served dev start s'

theorem Served.next {start : Fs} (h : Served dev start s) {e : Export} (he : e.Usual) :
    Served dev start (e.run dev s).2 := .call h he rfl

theorem KeepsConfined.forget {α : Type} {m : FsM α} (h : KeepsConfined dev n start m) :
    KeepsConfined dev n start (Export.forget m) := h.bind fun _ => Keeps.pure _

theorem KeepsConfined.fsGetDiskBytes : KeepsConfined dev n start (fsGetDiskBytes dev) := by
  rw [SevenOS.fsGetDiskBytes]
  cases dev.sectorCount with
  | none => exact Keeps.get.bind fun _ => Keeps.pure _
  | some sectors => exact Keeps.pure _

theorem KeepsConfined.fsFormat (hd : dev.Roomy n) (inodeCount : UInt32) :
    KeepsConfined dev n start (fsFormat dev 0 inodeCount) := fun s h => by
  have htwo : 2 ≤ (formatBlocks dev 0).toNat := by
    have hpos := h.mapped.sane.alloc.blockPos 0 h.mapped.sane.root
    have hlt := h.mapped.sane.alloc.blockLt 0 h.mapped.sane.root
    rw [h.mapped.count] at hlt
    omega
  exact wp_mono (fsFormat_confined hd inodeCount h.noted) (fun _ _ h => h) (fun _ h => h htwo)
    fun _ h => h

theorem Export.keepsConfined (hd : dev.Roomy n) {e : Export} (he : e.Usual) :
    KeepsConfined dev n start (e.run dev) := by
  cases e with
  | init => exact .fsInit hd
  | format totalBlocks inodeCount =>
      obtain rfl := he.format totalBlocks inodeCount rfl
      exact .fsFormat hd inodeCount
  | listRoot maxEntries => exact .forget (.fsListRoot hd maxEntries)
  | listDir dirname maxEntries => exact .forget (.fsListDir hd dirname maxEntries)
  | mkdir name => exact .fsMkdir hd name
  | isDir path => exact .fsIsDir hd path
  | write name data => exact .fsWrite hd name data
  | remove name => exact .fsRemove hd name
  | read name maxlen => exact .forget (.fsRead hd name maxlen)
  | readPath path maxlen => exact .forget (.fsReadPath hd path maxlen)
  | hashPassword s => exact .forget (Keeps.pure _)
  | readPasswd => exact .forget (.fsReadPasswd hd)
  | lastError => exact .forget (Keeps.get.bind fun _ => Keeps.pure _)
  | isFormatted => exact .fsIsFormatted hd
  | megabytes => exact .forget (KeepsConfined.fsGetDiskBytes.bind fun _ => Keeps.pure _)
  | diskBytes => exact .forget .fsGetDiskBytes
  | usage => exact .forget (Keeps.get.bind fun _ => (Keeps.require _).bind fun _ => Keeps.pure _)
  | change call =>
      cases call with
      | mkdirPath path => exact .fsMkdirPath hd path
      | create name => exact .fsCreate hd name
      | writePath path data => exact .fsWritePath hd path data
      | copyPath srcPath dstPath => exact .fsCopyPath hd srcPath dstPath
      | rename srcPath dstPath => exact .fsRename hd srcPath dstPath
      | removePath path => exact .fsRemovePath hd path
      | removePathRecursive path => exact .fsRemovePathRecursive hd path
      | writePasswd hash => exact .fsWritePasswd hd hash

theorem Served.confined (hd : dev.Roomy n) {start : Fs} (h : Served dev start s) :
    Confined dev n start.log s := by
  induction h with
  | format inodeCount hrun =>
      have hlog : Logged n start.log start := ⟨[], by simp, by simp⟩
      rcases wp_run (fsFormat_confined hd inodeCount hlog) hrun with ⟨_, -, h⟩ | ⟨ho, -⟩ | ⟨ho, -⟩
      · exact h
      · cases ho
      · cases ho
  | call _ he hrun ih => exact (Export.keepsConfined hd he).run ih hrun

/-- On a disk that does not fail, from a successful `fs_format(0, _)` on, every transfer of
any sequence of calls stays in its region. -/
theorem transfers_confined {count : UInt64} {start s : Fs} (hp : dev.Perfect)
    (hcount : dev.sectorCount = some count) (hlarge : 145 < count) (h : Served dev start s) :
    ∃ added, s.log = start.log ++ added ∧ ∀ t ∈ added, t.Within count.toNat :=
  (h.confined ⟨hp, formatBlocks_fits hcount hlarge⟩).noted

/-- A disk of 2048 sectors. -/
def Device.small : Device := { Device.working with sectorCount := some 2048 }

/-- A directory and a file in it are made, and the disk is mounted again. -/
def Fs.remounted : Fs :=
  (fsInit .small (runCalls .small [.mkdirPath nameA, .writePath pathAB nameB]
    (fsFormat .small 0 64 (.booted fun _ => Bytes.zero)).2)).2

theorem transfers_confined_remounted :
    (fsRemovePathRecursive .small nameA .remounted).1 = .ok () ∧
      ∃ added, (fsRemovePathRecursive .small nameA .remounted).2.log =
          (Fs.booted fun _ => Bytes.zero).log ++ added ∧
        ∀ t ∈ added, t.Within (2048 : UInt64).toNat := by
  have hformat : (fsFormat .small 0 64 (.booted fun _ => Bytes.zero)).1 = .ok () := by
    decide +kernel
  have usual : ∀ call : Call, (∀ path ∈ call.paths, ShortParts path) →
      (Export.change call).Usual := fun call h => ⟨h, fun _ _ he => Export.noConfusion he⟩
  have h₁ : Served .small (.booted fun _ => Bytes.zero) _ := .format 64 (run_eq hformat)
  have h₂ := h₁.next (usual (.mkdirPath nameA) (by decide))
  have h₃ := h₂.next (usual (.writePath pathAB nameB) (by decide))
  have h₄ : Served .small (.booted fun _ => Bytes.zero) .remounted :=
    h₃.next (e := .init) ⟨by decide, fun _ _ he => Export.noConfusion he⟩
  have h₅ := h₄.next (usual (.removePathRecursive nameA) (by decide))
  exact ⟨by decide +kernel,
    transfers_confined ⟨fun _ _ => rfl, fun _ _ => rfl⟩ rfl (by decide) h₅⟩

end SevenOS
