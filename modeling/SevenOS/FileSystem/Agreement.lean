import SevenOS.FileSystem.Proof.Faults

/-! # Bitmap and inode table

That the tables agree after every call of a session: on a disk that never fails,
and on one that fails anywhere but in the zeros over a block just given back.
-/

namespace SevenOS

variable {dev : Device} {s : Fs}

/-- The set bits are the blocks of the used inodes, and no two of these share one. -/
structure TablesAgree (v : Volume) : Prop where
  inRange : ∀ i, (v.inodes i).used ≠ 0 →
    1 ≤ (v.inodes i).direct0.toNat ∧ (v.inodes i).direct0 < v.sb.blockCount
  distinct : ∀ i j, (v.inodes i).used ≠ 0 → (v.inodes j).used ≠ 0 →
    (v.inodes i).direct0 = (v.inodes j).direct0 → i = j
  bits : ∀ b, b < 32768 →
    (v.bitmap.testBit b = true ↔ ∃ i, (v.inodes i).used ≠ 0 ∧ (v.inodes i).direct0.toNat = b)

theorem Allocated.tablesAgree {v : Volume} (h : Allocated v.sb v.bitmap v.inodes) :
    TablesAgree v :=
  ⟨fun i hi => ⟨h.blockPos i hi, UInt32.lt_iff_toNat_lt.mpr (h.blockLt i hi)⟩,
    fun i j hi hj heq => h.blockInj i j hi hj heq, h.bits⟩

theorem session_tablesAgree (hp : dev.Perfect)
    (h : Session dev (fun _ call _ => call.Ordinary) s) : TablesAgree s.toVolume := by
  obtain ⟨stray, hready⟩ := h.ready hp fun s call _ hallow => hallow.fits s.toVolume
  exact hready.inv.alloc.tablesAgree

theorem Device.working_perfect : Device.working.Perfect := ⟨fun _ _ => rfl, fun _ _ => rfl⟩

/-- On a disk of zeros, where a directory `a` and its file `b` come and go. -/
theorem session_tablesAgree_zeros :
    TablesAgree (Fs.started .working (fun _ => Bytes.zero) 0
      [.mkdirPath nameA, .writePath pathAB nameB, .removePathRecursive nameA]).toVolume :=
  session_tablesAgree Device.working_perfect
    (.started (by decide +kernel) fun call hcall _ _ => by revert call; decide)

/-! ## A disk that fails -/

/-- No two used inodes share a block and no block of a used inode is marked free. -/
structure NoCrossLinks (v : Volume) : Prop where
  distinct : ∀ i j, (v.inodes i).used ≠ 0 → (v.inodes j).used ≠ 0 → (v.inodes i).direct0 ≠ 0 →
    (v.inodes i).direct0 = (v.inodes j).direct0 → i = j
  marked : ∀ i, (v.inodes i).used ≠ 0 → v.bitmap.testBit (v.inodes i).direct0.toNat = true

theorem Allocated.noCrossLinks {v : Volume} (h : Allocated v.sb v.bitmap v.inodes) :
    NoCrossLinks v :=
  ⟨fun i j hi hj _ heq => h.blockInj i j hi hj heq,
    fun i hi => (h.bits _ (h.blockBound hi)).mpr ⟨i, hi, rfl⟩⟩

theorem session_noCrossLinks (hw : FreeWritesWork dev)
    (h : Session dev (fun _ call _ => call.Ordinary) s) : NoCrossLinks s.toVolume :=
  (h.sane hw).alloc.noCrossLinks

/-- A disk on which the transfer after the first `n` fails if it writes to a sector of
`failing`, which then holds what it held before. -/
def Device.failing (n : Nat) (failing : Fs → UInt32 → Bool) : Device :=
  { Device.working with
    writeFault := fun s lba =>
      if s.log.length = n + 1 ∧ failing s lba then some (s.disk lba) else none }

/-- The zeros over the block of `a` are not written: its inode lives on, and `b`, made
next, gets the same block. -/
theorem not_session_noCrossLinks :
    ¬ ∀ dev s, Session dev (fun _ call _ => call.Ordinary) s → NoCrossLinks s.toVolume := by
  intro h
  have hlinks := h (.failing 26 fun _ _ => true) (.started _ (fun _ => Bytes.zero) 0
      [.create nameA, .removePath nameA, .create nameB])
    (.started (by decide +kernel) fun call hcall _ _ => by revert call; decide)
  have := hlinks.distinct 4 5 (by decide +kernel) (by decide +kernel) (by decide +kernel)
    (by decide +kernel)
  cases this

/-- Only a sector in use fails: the root block, when `a` is to be entered. -/
theorem session_noCrossLinks_failing :
    NoCrossLinks (Fs.started (.failing 22 fun s lba => s.bitmap.testBit (lba - s.sb.dataLba).toNat)
      (fun _ => Bytes.zero) 0 [.create nameA, .removePath nameA, .create nameB]).toVolume := by
  refine session_noCrossLinks ?_
    (.started (by decide +kernel) fun call hcall _ _ => by revert call; decide)
  rintro s lba left hfault b - - rfl
  have hb : s.dataSector b - s.sb.dataLba = b := by
    rw [Volume.dataSector, UInt32.add_comm, UInt32.add_sub_cancel]
  simp only [Device.failing, hb] at hfault
  split at hfault
  · next hcond => exact hcond.2
  · cases hfault

end SevenOS
