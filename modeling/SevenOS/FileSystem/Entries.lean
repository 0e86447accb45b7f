import SevenOS.FileSystem.Tree

/-! # Directory entries

That entries and inodes refer to each other soundly, and that names stay inside
their entries.
-/

namespace SevenOS

open Prog

variable {dev : Device} {stray : InodeNo → Prop} {v v' : Volume} {s : Fs}

/-- Every used entry names a used inode but the root, no two name the same one, and no
directory lists a name twice with one type. -/
structure EntriesSound (v : Volume) : Prop where
  names : ∀ d j, LiveDir v.inodes d → entryUsed (v.blockOf d) j = true →
    ∃ k : InodeNo, entryInode (v.blockOf d) j = UInt8.ofNat k.val ∧ k ≠ 0 ∧ Live v.inodes k
  once : ∀ d d' j j', LiveDir v.inodes d → LiveDir v.inodes d' →
    entryUsed (v.blockOf d) j = true → entryUsed (v.blockOf d') j' = true →
    entryInode (v.blockOf d) j = entryInode (v.blockOf d') j' → d = d' ∧ j = j'
  distinct : ∀ d j j' (k k' : InodeNo), LiveDir v.inodes d →
    entryUsed (v.blockOf d) j = true → entryUsed (v.blockOf d) j' = true →
    entryName (v.blockOf d) j = entryName (v.blockOf d) j' →
    entryInode (v.blockOf d) j = UInt8.ofNat k.val →
    entryInode (v.blockOf d) j' = UInt8.ofNat k'.val →
    (v.inodes k).type = (v.inodes k').type → j = j'

theorem Inv.entriesSound (h : Inv (fun _ => False) v) : EntriesSound v := by
  have entry : ∀ {d j}, entryUsed (v.blockOf d) j = true →
      v.dirAt d j = some (entryName (v.blockOf d) j, entryInode (v.blockOf d) j) :=
    fun hused => listing_eq_some.mpr ⟨hused, rfl, rfl⟩
  refine ⟨?_, ?_, ?_⟩
  · intro d j hd hused
    obtain ⟨k, hn, hk0, hk, -⟩ := h.linked.names d j _ _ ⟨hd, id⟩ (entry hused)
    exact ⟨k, hn, hk0, hk⟩
  · intro d d' j j' hd hd' hused hused' heq
    exact h.linked.once d d' j j' _ _ _ ⟨hd, id⟩ ⟨hd', id⟩ (entry hused) (heq ▸ entry hused')
  · intro d j j' k k' hd hused hused' hname hk hk' ht
    have he := entry hused
    have he' := entry hused'
    rw [hk] at he
    rw [← hname, hk'] at he'
    exact h.linked.distinct d j j' _ k k' ⟨hd, id⟩ he he' ht

/-! ## Sessions without a stale directory -/

/-- `fs_write_passwd` makes a directory on a block with old entries: the root has no
`sys` directory and no free slot for one. -/
def Call.StaleDir (v : Volume) : Call → Prop
  | .writePasswd _ => v.findIn 0 sysName inodeDir = none ∧ firstFreeSlot (v.blockOf 0) = none ∧
      allocInodeRaw v ≠ none ∧
      ∃ b, allocBlockRaw v = some b ∧ ∃ j, entryUsed (v.data b) j = true
  | _ => False

theorem Inv.adopt {k : InodeNo} (h : Inv (fun i => stray i ∨ i = k) v)
    (hempty : LiveDir v.inodes k → v.dirAt k = fun _ => none) : Inv stray v :=
  ⟨h.layout, h.alloc, h.linked.adopt hempty⟩

theorem Sound.sysLeft_adopted (h : Sound stray v) {hash : UInt32}
    (hcall : ¬ (Call.writePasswd hash).StaleDir v) (hl : SysLeft stray v v') :
    Sound stray v' := by
  rcases hl with ⟨k, ino, hc, -, hk, hb, hdir, rfl⟩ | ⟨k, -, hs⟩
  · refine ⟨(h.inv.take hc).adopt fun hlive => ?_, h.headed.superblock, h.headed.magic,
      h.headed.blockSize⟩
    have htype : ino.type = inodeDir := by simpa [Volume.take] using hlive.2
    obtain ⟨hmiss, hfull⟩ := hdir htype
    have hblock : (v.take k ino).blockOf k = v.data ino.direct0 := by
      simp [Volume.blockOf, Volume.take]
    funext j
    rw [Volume.dirAt, hblock]
    refine listing_eq_none.mpr (Bool.eq_false_iff.mpr fun hused => hcall ?_)
    refine ⟨(Volume.findIn_none (by decide)).mpr hmiss, ?_, by rw [hk]; exact Option.some_ne_none k,
      _, hb, j, hused⟩
    cases hfree : firstFreeSlot (v.blockOf 0) with
    | none => rfl
    | some i => exact (hfull i (firstFreeSlot_some hfree)).elim
  · exact h.sysDir hs

/-- As long as no stale directory is made nothing is stray. -/
theorem Ready.left_adopted (h : Ready stray v) {call : Call} (hcall : ¬ call.StaleDir v)
    (hl : Left stray v call v') : Ready stray v' := by
  refine ⟨?_, hl.mounted.trans h.mounted⟩
  cases call with
  | writePasswd hash =>
      rcases hl with ⟨-, rfl⟩ | ⟨-, hleft⟩
      · exact h.toSound
      · exact h.sysLeft_adopted hcall hleft
  | _ =>
      cases hl
      exact h.toSound

theorem Session.ready_adopted (hp : dev.Perfect)
    (h : Session dev (fun s call _ => call.Ordinary ∧ ¬ call.StaleDir s.toVolume) s) :
    Ready (fun _ => False) s.toVolume := by
  induction h with
  | format _ _ hrun => exact (fsFormat_ready hp hrun).1
  | call _ hallow hrun ih =>
      rcases ih.run_cases hp hallow.1 hrun with ⟨-, -, hready⟩ | ⟨-, hleft⟩
      · exact hready
      · exact ih.left_adopted hallow.2 hleft

theorem session_entriesSound (hp : dev.Perfect)
    (h : Session dev (fun s call _ => call.Ordinary ∧ ¬ call.StaleDir s.toVolume) s) :
    EntriesSound s.toVolume :=
  (h.ready_adopted hp).inv.entriesSound

/-- A file is written and copied, and the password set. -/
theorem session_entriesSound_copied :
    EntriesSound (Fs.started .working (fun _ => Bytes.zero) 0
      [.mkdirPath nameA, .writePath pathAB nameB, .copyPath pathAB nameB,
        .writePasswd 7]).toVolume := by
  have h : Session .working (fun s call _ => call.Ordinary ∧ ¬ call.StaleDir s.toVolume)
      (Fs.started .working (fun _ => Bytes.zero) 0 [.mkdirPath nameA, .writePath pathAB nameB,
        .copyPath pathAB nameB, .writePasswd 7]) :=
    .begun (by decide +kernel) ⟨⟨by decide, id⟩, ⟨by decide, id⟩, ⟨by decide, id⟩,
      ⟨by decide, fun hstale => absurd hstale.1 (by decide +kernel)⟩, trivial⟩
  exact session_entriesSound Device.working_perfect h

/-- Sixteen entries fill the root and none of them is `sys`. -/
def fullRoot : List Call :=
  .rename sysName (letterName 0) ::
    (List.finRange 15).map fun i => .create (letterName (i.castLE (by decide)).succ)

/-- The directory that `fs_write_passwd` then takes block 20 for is neither entered nor
cleared, and what the sector held before the format becomes its entries. -/
theorem not_session_entriesSound :
    ¬ ∀ dev s, dev.Perfect → Session dev (fun _ call _ => call.Ordinary) s →
      EntriesSound s.toVolume := by
  intro h
  have hsound := h .working (Fs.started .working
      (fun lba => if lba = 165 then fun _ => 200 else Bytes.zero) 0 (fullRoot ++ [.writePasswd 7]))
    Device.working_perfect (.started (by decide +kernel) fun call hcall _ _ => by
      revert call; decide)
  have := hsound.once 19 19 0 1 (by decide +kernel) (by decide +kernel) (by decide +kernel)
    (by decide +kernel) (by decide +kernel)
  exact absurd this.2 (by decide)

end SevenOS
