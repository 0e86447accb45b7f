import SevenOS.FileSystem.Tour

/-! # Removal on malformed disks

The calls of `remove_dir_contents` go their way step by step. They nest deeper
than there are inodes exactly when that way has so many calls open, and for this
it must come to a directory that it is still emptying.
-/

namespace SevenOS

open Prog

variable {dev : Device} {v v' : Volume} {s : Fs}

/-! ## Used entries -/

theorem entryUsed_zero (j : Slot) : entryUsed Bytes.zero j = false := by
  simp [entryUsed]

theorem namesIn_unused {b : Block} {js : List Slot} (h : ∀ j ∈ js, entryUsed b j = false) :
    namesIn b js = [] := by
  rw [namesIn, List.filter_eq_nil_iff.mpr fun j hj => by rw [h j hj]; exact Bool.false_ne_true]
  rfl

theorem namesIn_clearEntry {b : Block} {i : Slot} {js : List Slot} (h : i ∉ js) :
    namesIn (clearEntry b i) js = namesIn b js := by
  have hsame : ∀ j ∈ js, dirEntry (clearEntry b i) j = dirEntry b j := fun j hj =>
    dirEntry_clearEntry b fun hji => h (hji ▸ hj)
  have hused : js.filter (entryUsed (clearEntry b i)) = js.filter (entryUsed b) :=
    List.filter_congr fun j hj => congrArg (fun e : DirEntry => e.used != 0) (hsame j hj)
  rw [namesIn, namesIn, hused]
  exact List.map_congr_left fun j hj =>
    congrArg DirEntry.inode (hsame j (List.mem_of_mem_filter hj))

/-- Only the entries that are used are looked at. -/
structure SameEntries (v v' : Volume) : Prop where
  sb : v.sb = v'.sb
  inodes : v.inodes = v'.inodes
  names : ∀ l, namesIn (v.disk l) slots = namesIn (v'.disk l) slots

namespace SameEntries

theorem refl (v : Volume) : SameEntries v v := ⟨rfl, rfl, fun _ => rfl⟩

theorem sectorOf (h : SameEntries v v') (d : InodeNo) : v.sectorOf d = v'.sectorOf d := by
  rw [Volume.sectorOf, Volume.sectorOf, Volume.dataSector, Volume.dataSector, h.sb, h.inodes]

theorem isDir (h : SameEntries v v') (d : InodeNo) : isDirInode v d ↔ isDirInode v' d := by
  rw [isDirInode, isDirInode, h.inodes]

theorem setSector (h : SameEntries v v') (l : UInt32) {b b' : Block}
    (hb : namesIn b slots = namesIn b' slots) :
    SameEntries (v.setSector l b) (v'.setSector l b') := by
  refine ⟨h.sb, h.inodes, fun l' => ?_⟩
  change namesIn (assign v.disk l b l') slots = namesIn (assign v'.disk l b' l') slots
  rw [assign_apply, assign_apply]
  split
  · exact hb
  · exact h.names l'

theorem discard (h : SameEntries v v') (k : InodeNo) :
    SameEntries (v.discard k) (v'.discard k) := by
  have hfree : blockFreeable v (v.inodes k).direct0 ↔ blockFreeable v' (v'.inodes k).direct0 := by
    rw [blockFreeable, blockFreeable, h.sb, h.inodes]
  have hput : ∀ {w w' : Volume}, SameEntries w w' →
      SameEntries (w.putInode k Inode.zero) (w'.putInode k Inode.zero) := fun hw =>
    ⟨hw.sb, congrArg (assign · k Inode.zero) hw.inodes, hw.names⟩
  apply hput
  by_cases hblock : blockFreeable v (v.inodes k).direct0
  · rw [if_pos hblock, if_pos (hfree.mp hblock), ← h.sectorOf k]
    have hfreed : SameEntries (v.freeBlock (v.inodes k).direct0)
        (v'.freeBlock (v'.inodes k).direct0) := ⟨h.sb, h.inodes, h.names⟩
    exact hfreed.setSector _ rfl
  · rw [if_neg hblock, if_neg fun hblock' => hblock (hfree.mpr hblock')]
    exact h

end SameEntries

/-! ## Step by step -/

section Perfect

variable (hp : dev.Perfect)

include hp

theorem wp_discard {α : Type} {k : InodeNo} {b : α} {Q : α → Fs → Prop} {R D : Fs → Prop}
    (h : ∀ s' : Fs, s'.toVolume = s.toVolume.discard k → Q b s') :
    wp (do releaseBlock dev k; modifyInode k fun _ => Inode.zero; return b) Q R D s := by
  simp only [releaseBlock, wp_bind, wp_get]
  rw [wp_ite]
  refine ⟨fun hblock => ?_, fun hblock => ?_⟩
  · simp only [wp_bind, wp_markBlockFree, hp.wp_write, wp_modifyInode, wp_pure]
    refine h _ ?_
    rw [Volume.discard, if_pos hblock]
    rfl
  · simp only [wp_modifyInode, wp_pure]
    refine h _ ?_
    rw [Volume.discard, if_neg hblock]
    rfl

/-- In the loop of the call for directory `d`, behind the slots `done` of the block. -/
structure Emptying (t : Tour) (d : InodeNo) (calls : List (InodeNo × Option (List UInt8)))
    (done : List Slot) (b : Block) (s : Fs) : Prop where
  cleared : ∀ j ∈ done, entryUsed b j = false
  way : ∃ v, Relation.ReflTransGen Tour.Advances t
      ⟨(d, some (namesIn b (slots.drop done.length))) :: calls, v⟩ ∧ SameEntries s.toVolume v

namespace Emptying

variable {t : Tour} {d : InodeNo} {calls : List (InodeNo × Option (List UInt8))}
  {done rest : List Slot} {i : Slot} {b : Block}

omit hp in
theorem names (hslots : slots = done ++ i :: rest) (h : Emptying t d calls done b s) :
    ∃ v, Relation.ReflTransGen Tour.Advances t
      ⟨(d, some (namesIn b (i :: rest))) :: calls, v⟩ ∧ SameEntries s.toVolume v := by
  have hdrop : slots.drop done.length = i :: rest := by rw [hslots, List.drop_left]
  rw [← hdrop]
  exact h.way

omit hp in
/-- Slot `i` is done with. -/
theorem next (hslots : slots = done ++ i :: rest) (h : ∀ j ∈ done, entryUsed b j = false)
    (hi : entryUsed b i = false) (hway : Relation.ReflTransGen Tour.Advances t
      ⟨(d, some (namesIn b rest)) :: calls, v⟩) (hs : SameEntries s.toVolume v) :
    Emptying t d calls (done ++ [i]) b s := by
  have hslots' : slots = (done ++ [i]) ++ rest := by rw [hslots, List.append_assoc]; rfl
  have hdrop : slots.drop (done ++ [i]).length = rest := by rw [hslots', List.drop_left]
  refine ⟨fun j hj => ?_, v, ?_, hs⟩
  · rcases List.mem_append.mp hj with hj | hj
    · exact h j hj
    · rw [List.mem_singleton.mp hj]
      exact hi
  · rwa [hdrop]

omit hp in
theorem clear (hslots : slots = done ++ i :: rest) (h : Emptying t d calls done b s)
    {s' : Fs} (hway : Relation.ReflTransGen Tour.Advances t
      ⟨(d, some (namesIn b rest)) :: calls, v⟩) (hs : SameEntries s'.toVolume v) :
    Emptying t d calls (done ++ [i]) (clearEntry b i) s' := by
  have hnodup : slots.Nodup := List.nodup_finRange 16
  rw [hslots] at hnodup
  obtain ⟨-, hrest, hdisjoint⟩ := List.nodup_append.mp hnodup
  refine next hslots (fun j hj => ?_) (entryUsed_clearEntry b i) ?_ hs
  · have hji : j ≠ i := hdisjoint j hj i (List.mem_cons_self ..)
    exact (congrArg (fun e : DirEntry => e.used != 0) (dirEntry_clearEntry b hji)).trans
      (h.cleared j hj)
  · rwa [namesIn_clearEntry (List.nodup_cons.mp hrest).1]

end Emptying

/-- A call returns false when its way stops, and nests too deep when it sinks. -/
theorem removeDirContents_tour (frames : Nat) {d : InodeNo}
    {calls : List (InodeNo × Option (List UInt8))} (hlen : calls.length + frames = 64)
    (s : Fs) (hs : SameEntries s.toVolume v) :
    wp (removeDirContents dev frames d)
      (fun _ s' => calls.length < 64 ∧ ∃ v', Relation.ReflTransGen Tour.Advances
        ⟨(d, none) :: calls, v⟩ ⟨(d, some []) :: calls, v'⟩ ∧
          SameEntries s'.toVolume (v'.setSector (v'.sectorOf d) Bytes.zero))
      (fun _ => Tour.Stops ⟨(d, none) :: calls, v⟩)
      (fun _ => Tour.Sinks ⟨(d, none) :: calls, v⟩) s := by
  induction frames generalizing d calls v s with
  | zero => exact ⟨_, .refl, by simp; omega⟩
  | succ frames ih =>
      have hcalls : calls.length < 64 := by omega
      -- a call that refuses its directory
      have hbad : ¬(d ≠ 0 ∧ isDirInode v d) → Tour.Stops ⟨(d, none) :: calls, v⟩ := fun hno =>
        ⟨_, .refl, if_neg hno, hcalls⟩
      simp only [removeDirContents, wp_bind, wp_get, wp_require, hp.wp_read]
      refine ⟨fun hd0 => ⟨fun hdir => ?_, fun hno => hbad fun hd => hno ((hs.isDir d).mpr hd.2)⟩,
        fun hno => hbad fun hd => hno hd.1⟩
      rw [hs.isDir] at hdir
      have hread : Tour.Advances ⟨(d, none) :: calls, v⟩ ⟨(d, some (v.names d)) :: calls, v⟩ :=
        ⟨if_pos ⟨hd0, hdir⟩, hcalls⟩
      refine wp_mono (wp_foldlM _ (Emptying ⟨(d, none) :: calls, v⟩ d calls) slots ?_ _ ?_)
        ?_ (fun _ h => h) (fun _ h => h)
      · -- one entry
        intro done i rest b s₁ hslots hb
        obtain ⟨v₁, hway, hs₁⟩ := hb.names hslots
        rw [wp_ite]
        refine ⟨fun hunused => .next hslots hb.cleared hunused ?_ hs₁, fun hused => ?_⟩
        · rwa [namesIn, List.filter_cons_of_neg (by rw [hunused]; exact Bool.false_ne_true)] at hway
        · rw [Bool.not_eq_false] at hused
          rw [namesIn, List.filter_cons_of_pos hused, List.map_cons] at hway
          have hstop : (inodeIndex (entryInode b i)).bind
              (Tour.enter d (namesIn b rest) calls v₁) = none →
              Tour.Stops ⟨(d, none) :: calls, v⟩ := fun hnone =>
            .trans hway ⟨_, .refl, hnone, hcalls⟩
          have hgoes : ∀ t', (inodeIndex (entryInode b i)).bind
              (Tour.enter d (namesIn b rest) calls v₁) = some t' →
              Relation.ReflTransGen Tour.Advances ⟨(d, none) :: calls, v⟩ t' := fun _ hnext =>
            hway.tail ⟨hnext, hcalls⟩
          simp only [wp_bind, wp_require, wp_demand, wp_get]
          refine ⟨fun hrange => ⟨fun x hx => ?_, fun hnone => hstop (by rw [hnone]; rfl)⟩,
            fun hrange => hstop (Tour.bind_enter_none hrange ..)⟩
          rw [hx, Option.bind_some, Tour.enter,
            if_neg (Tour.ne_zero_of_inodeIndex hrange hx)] at hstop hgoes
          rw [wp_ite, hs₁.inodes]
          refine ⟨fun htype => ?_, fun htype => ?_⟩
          · -- a directory
            rw [if_pos htype] at hgoes
            have hdown := hgoes _ rfl
            rw [wp_bind]
            refine wp_mono (ih (by rw [List.length_cons]; omega) s₁ hs₁) ?_
              (fun _ h => .trans hdown h) fun _ h => (Tour.leads_of_advances hdown).sinks h
            rintro _ s₂ ⟨hlen₂, v₂, hway₂, hs₂⟩
            refine wp_discard hp fun s₃ hs₃ => ?_
            exact hb.clear hslots ((hdown.trans hway₂).tail ⟨rfl, hlen₂⟩) (hs₃ ▸ hs₂.discard x)
          · -- a file
            rw [if_neg htype] at hstop hgoes
            rw [wp_bind, wp_require]
            refine ⟨fun hfile => ?_, fun hfile => hstop (if_neg hfile)⟩
            rw [if_pos hfile] at hgoes
            exact wp_discard hp fun s₃ hs₃ => hb.clear hslots (hgoes _ rfl) (hs₃ ▸ hs₁.discard x)
      · -- the block as it was read
        refine ⟨fun j hj => absurd hj List.not_mem_nil, v, ?_, hs⟩
        rw [List.length_nil, List.drop_zero, hs.names, hs.sectorOf, Volume.disk_sectorOf]
        exact .single hread
      · rintro b s₁ ⟨hcleared, v₁, hway, hs₁⟩
        rw [List.drop_length] at hway
        rw [hp.wp_write]
        refine ⟨hcalls, v₁, hway, ?_⟩
        rw [hs₁.sectorOf]
        refine hs₁.setSector _ ?_
        rw [namesIn_unused hcleared, namesIn_unused fun j _ => entryUsed_zero j]

/-! ## The call -/

omit hp in
/-- What a recursive removal does once it has found its entry. -/
def removeFound (dev : Device) (dir : InodeNo) (dirBlock : Block) (target : Slot)
    (inode : InodeNo) : FsM Unit := do
  let s ← get
  if (s.inodes inode).type = inodeDir then removeDirContents dev dirNesting inode
  else require ((s.inodes inode).type = inodeFile)
  releaseBlock dev inode
  modifyInode inode fun _ => Inode.zero
  let s ← get
  diskWriteLba dev 512 (s.sectorOf dir) (clearEntry dirBlock target)
  flushTables dev

theorem removeEntryFromDirRecursive_found {d : InodeNo} {name : CStr} {Q : Unit → Fs → Prop}
    {R D : Fs → Prop} (hs : s.toVolume = v)
    (hmiss : v.removableIn d name = none → ∀ s', s'.toVolume = v → R s')
    (hfound : ∀ k, v.removableIn d name = some k → ∀ b j s', s'.toVolume = v →
      wp (removeFound dev d b j k) Q R D s') :
    wp (removeEntryFromDirRecursive dev d name) Q R D s := by
  subst hs
  simp only [removeEntryFromDirRecursive, wp_bind, wp_get, wp_require]
  refine ⟨fun hblock => hp.read_step fun s₁ hv => ?_, fun hblock => hmiss ?_ s rfl⟩
  · rw [Volume.disk_sectorOf]
    cases hscan : findRemovable name (s.blockOf d) s.inodes with
    | bad => exact hmiss (by simp only [Volume.removableIn, if_neg hblock, hscan]) s₁ hv
    | absent free => exact hmiss (by simp only [Volume.removableIn, if_neg hblock, hscan]) s₁ hv
    | found j k =>
        have hlook : s.toVolume.removableIn d name = some k := by
          simp only [Volume.removableIn, if_neg hblock, hscan]
        have := hfound k hlook (s.blockOf d) j s₁ hv
        rw [removeFound, wp_bind, wp_get, hv] at this
        exact this
  · rw [Volume.removableIn, if_pos (Decidable.not_not.mp hblock)]

theorem fsRemovePathRecursive_found {path : CStr} {Q : Unit → Fs → Prop} {R D : Fs → Prop}
    (hs : s.toVolume = v) (hmounted : v.mounted = true)
    (hmiss : v.removeTarget path = none → ∀ s', s'.toVolume = v → R s')
    (hfound : ∀ k, v.removeTarget path = some k → ∀ d b j s', s'.toVolume = v →
      wp (removeFound dev d b j k) Q R D s') : wp (fsRemovePathRecursive dev path) Q R D s := by
  subst hs
  simp only [fsRemovePathRecursive, wp_bind, wp_get, wp_require]
  refine ⟨fun _ => ⟨fun hpath => ?_, fun hpath => hmiss ?_ s rfl⟩, fun hno => (hno hmounted).elim⟩
  · by_cases hroot : rootReadable s.toVolume
    · have hguard : ¬(path = CStr.empty ∨ ¬rootReadable s.toVolume) := by simp [hpath, hroot]
      cases hsplit : splitPath path with
      | none =>
          have hlook : s.toVolume.removeTarget path = s.toVolume.removableIn 0 path := by
            simp only [Volume.removeTarget, if_neg hguard, hsplit]
          simp only [wp_bind, wp_require]
          refine ⟨fun _ => ?_, fun hno => (hno hroot).elim⟩
          exact removeEntryFromDirRecursive_found hp rfl (fun hnone => hmiss (hlook.trans hnone))
            fun k hk => hfound k (hlook.trans hk) 0
      | some parts =>
          obtain ⟨dirname, name⟩ := parts
          have hlook : s.toVolume.removeTarget path = if name = CStr.empty then none
              else (s.toVolume.findIn 0 dirname inodeDir).bind fun d =>
                s.toVolume.removableIn d name := by
            simp only [Volume.removeTarget, if_neg hguard, hsplit]
          simp only [removeParent, wp_bind, wp_require, wp_get, hp.wp_loadScratch]
          refine ⟨fun hname => ⟨fun _ => ?_, fun hno => (hno hroot).elim⟩,
            fun hname => hmiss ?_ s rfl⟩
          · rw [if_neg hname] at hlook
            refine wp_lookupDir_find (v := s.toVolume) (by rfl) (by rfl)
              (fun d hd => ?_) fun hnone => ?_
            · rw [hd] at hlook
              exact removeEntryFromDirRecursive_found hp rfl
                (fun hnone => hmiss (hlook.trans hnone)) fun k hk => hfound k (hlook.trans hk) d
            · rw [hnone] at hlook
              exact hmiss hlook _ rfl
          · rw [hlook, if_pos (Decidable.not_not.mp hname)]
    · have hnone : s.toVolume.removeTarget path = none := if_pos (.inr hroot)
      cases splitPath path with
      | none =>
          simp only [wp_bind, wp_require]
          exact ⟨fun h => (hroot h).elim, fun _ => hmiss hnone s rfl⟩
      | some parts =>
          simp only [removeParent, wp_bind, wp_require, wp_get]
          exact ⟨fun _ => ⟨fun h => (hroot h).elim, fun _ => hmiss hnone s rfl⟩,
            fun _ => hmiss hnone s rfl⟩
  · exact if_pos (.inl (Decidable.not_not.mp hpath))

theorem fsRemovePathRecursive_tour {path : CStr} (hmounted : s.mounted = true) :
    wp (fsRemovePathRecursive dev path) (fun _ _ => ¬s.toVolume.Sinks path)
      (fun _ => ¬s.toVolume.Sinks path) (fun _ => s.toVolume.Sinks path) s := by
  refine fsRemovePathRecursive_found hp rfl hmounted (fun hnone _ _ => ?_) ?_
  · rintro ⟨t, htour, -⟩
    rw [Volume.tour, hnone] at htour
    cases htour
  intro k hk d b j s₁ hv
  have finish : ∀ s₂ : Fs, ¬s.toVolume.Sinks path →
      wp (do releaseBlock dev k; modifyInode k fun _ => Inode.zero
             let s ← get
             diskWriteLba dev 512 (s.sectorOf d) (clearEntry b j)
             flushTables dev) (fun _ _ => ¬s.toVolume.Sinks path)
        (fun _ => ¬s.toVolume.Sinks path) (fun _ => s.toVolume.Sinks path) s₂ := by
    intro s₂ hno
    simp only [releaseBlock, wp_bind, wp_get]
    rw [wp_ite]
    refine ⟨fun _ => ?_, fun _ => ?_⟩
    · simpa only [wp_bind, wp_markBlockFree, hp.wp_write, wp_modifyInode, hp.wp_flushTables]
    · simpa only [wp_pure, wp_modifyInode, hp.wp_write, hp.wp_flushTables]
  have htour : s.toVolume.tour path = if (s.inodes k).type = inodeDir then
      some ⟨[(k, none)], s.toVolume⟩ else none := by rw [Volume.tour, hk]; rfl
  rw [removeFound, wp_bind, wp_get, wp_ite, hv]
  refine ⟨fun htype => ?_, fun htype => ?_⟩
  · rw [if_pos htype] at htour
    have hsinks : s.toVolume.Sinks path ↔ Tour.Sinks ⟨[(k, none)], s.toVolume⟩ := by
      rw [Volume.Sinks, htour]
      constructor
      · rintro ⟨t, ht, hs⟩
        obtain rfl := Option.some.inj ht
        exact hs
      · exact fun hs => ⟨_, rfl, hs⟩
    have hopen : ([] : List (InodeNo × Option (List UInt8))).length + dirNesting = 64 := rfl
    rw [wp_bind]
    refine wp_mono (removeDirContents_tour hp dirNesting hopen s₁ (hv ▸ .refl _)) ?_
      (fun _ h => ?_) (fun _ h => hsinks.mpr h)
    · rintro _ s₂ ⟨-, v', hway, -⟩
      refine finish s₂ fun hs => Tour.Stops.not_sinks ?_ (hsinks.mp hs)
      exact .trans (hway.tail ⟨rfl, Nat.le_of_ble_eq_true rfl⟩)
        ⟨_, .refl, rfl, Nat.le_of_ble_eq_true rfl⟩
    · exact fun hs => h.not_sinks (hsinks.mp hs)
  · rw [if_neg htype] at htour
    have hno : ¬s.toVolume.Sinks path := by
      rintro ⟨t, ht, -⟩
      rw [htour] at ht
      cases ht
    rw [wp_bind, wp_require]
    exact ⟨fun _ => finish s₁ hno, fun _ => hno⟩

end Perfect

/-- `fs_init` returned true, so the volume is mounted. -/
theorem fsInit_mounted {s' : Fs} (h : fsInit dev s = (.ok (), s')) : s'.mounted = true := by
  have hwp : wp (fsInit dev) (fun _ s => s.mounted = true) (fun _ => True) (fun _ => True) s := by
    have rest : ∀ s₁ : Fs, wp (do
        orElse (loadBitmap dev) (failMount .io)
        orElse (loadInodes dev) (failMount .io)
        modify fun s => { s with lastError := .none, mounted := true })
        (fun _ s => s.mounted = true) (fun _ => True) (fun _ => True) s₁ := by
      intro s₁
      rw [wp_bind]
      refine wp_of_forall (fun _ s₂ => ?_) (fun _ => trivial) fun _ => trivial
      rw [wp_bind]
      exact wp_of_forall (fun _ s₃ => rfl) (fun _ => trivial) fun _ => trivial
    rw [fsInit, wp_bind]
    refine wp_of_forall (fun _ s₁ => ?_) (fun _ => trivial) fun _ => trivial
    rw [wp_bind, wp_get]
    dsimp only
    rw [wp_ite]
    refine ⟨fun _ => ?_, fun _ => rest s₁⟩
    rw [wp_bind]
    exact wp_of_forall (fun _ s₂ => rest s₂) (fun _ => trivial) fun _ => trivial
  rcases wp_run hwp h with ⟨_, -, hm⟩ | ⟨ho, -⟩ | ⟨ho, -⟩
  · exact hm
  · cases ho
  · cases ho

/-- A disk whose root has a directory `a`, inode 1, with itself as its only entry. -/
def circleDisk : UInt32 → Block := fun lba =>
  if lba = fsSuperLba then (formatSuperblock 16 64).encode Bytes.zero
  else if lba = fsInodeTableLba then
    inodeSector (fun i => if i.val < 2 then
      { Inode.zero with used := 1, type := inodeDir, links := 1, direct0 := UInt32.ofNat (i.val + 1) }
      else Inode.zero) 0
  else if lba = fsDataLba + 1 then fillEntry Bytes.zero 0 1 nameA
  else if lba = fsDataLba + 2 then fillEntry Bytes.zero 0 1 nameB
  else Bytes.zero

end SevenOS
