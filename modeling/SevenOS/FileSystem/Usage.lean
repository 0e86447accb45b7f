import SevenOS.FileSystem.Names
import SevenOS.FileSystem.Exports

/-! # Used and free space

`fs_get_usage` counts the bits that are set and takes them from the size of the
disk. The allocator never gives out block 0, which is part of that size and whose
bit is never set: one block more is reported free than there is.
-/

namespace SevenOS

open Prog

variable {dev : Device} {stray : InodeNo → Prop} {v : Volume} {s : Fs}

/-! ## Counting -/

/-- The blocks that `alloc_block_raw` and `fs_get_usage` look at. -/
def Volume.blockRange (v : Volume) : List Nat := List.range' 1 ((blockLimit v.sb).toNat - 1)

def Volume.usedBlocks (v : Volume) : Nat := v.blockRange.countP fun i => v.bitmap.testBit i

def Volume.freeBlocks (v : Volume) : Nat := v.blockRange.countP fun i => !v.bitmap.testBit i

def Volume.usedInodes (v : Volume) : Nat :=
  (List.finRange 64).countP fun i => decide ((v.inodes i).used ≠ 0)

theorem Volume.mem_blockRange {i : Nat} :
    i ∈ v.blockRange ↔ 1 ≤ i ∧ i < (blockLimit v.sb).toNat := by
  rw [blockRange, List.mem_range'_1]
  omega

theorem Volume.used_add_free (v : Volume) :
    v.usedBlocks + v.freeBlocks = (blockLimit v.sb).toNat - 1 := by
  have h := v.blockRange.length_eq_countP_add_countP fun i => v.bitmap.testBit i
  rw [blockRange, List.length_range', ← blockRange] at h
  rw [h, usedBlocks, freeBlocks]
  congr 2
  funext i
  cases v.bitmap.testBit i <;> rfl

/-- Each inode in use has a block of its own, and no other bit is set. -/
theorem Allocated.usedBlocks (h : Allocated v.sb v.bitmap v.inodes) :
    v.usedBlocks = v.usedInodes := by
  have hlimit : (blockLimit v.sb).toNat = v.sb.blockCount.toNat := by rw [h.blockLimit_eq]
  rw [Volume.usedBlocks, Volume.usedInodes, List.countP_eq_length_filter,
    List.countP_eq_length_filter]
  have hperm : (v.blockRange.filter fun i => v.bitmap.testBit i).Perm
      (((List.finRange 64).filter fun i => decide ((v.inodes i).used ≠ 0)).map fun i =>
        (v.inodes i).direct0.toNat) := by
    refine (List.perm_ext_iff_of_nodup ?_ ?_).mpr fun b => ?_
    · exact (List.nodup_range' 1).filter _
    · refine List.Nodup.map_on ?_ ((List.nodup_finRange 64).filter _)
      intro i hi j hj heq
      have hi' : Live v.inodes i := by simpa [Live] using hi
      have hj' : Live v.inodes j := by simpa [Live] using hj
      exact h.blockInj i j hi' hj' (UInt32.toNat.inj heq)
    · simp only [List.mem_filter, List.mem_map, Volume.mem_blockRange, List.mem_finRange, true_and,
        decide_eq_true_eq]
      constructor
      · rintro ⟨⟨-, hlt⟩, hbit⟩
        exact (h.bits b (by have := blockLimit_le v.sb; omega)).mp hbit
      · rintro ⟨i, hi, rfl⟩
        exact ⟨⟨h.blockPos i hi, hlimit ▸ h.blockLt i hi⟩,
          (h.bits _ (h.blockBound hi)).mpr ⟨i, hi, rfl⟩⟩
  rw [hperm.length_eq, List.length_map]

/-! ## Giving out what is free -/

/-- `find_free_block` and `mark_block_used` in turn, until there is none: the number of
blocks given out. -/
inductive Fs.HandsOut : Fs → Nat → Prop
  | none {s : Fs} : findFreeBlock s.toVolume = none → s.HandsOut 0
  | next {s : Fs} {b : UInt32} {n : Nat} : findFreeBlock s.toVolume = some b →
      (markBlockUsed b s).2.HandsOut n → s.HandsOut (n + 1)

theorem freeBlock_iff {b : Nat} :
    FreeBlock v b ↔ b ∈ v.blockRange ∧ v.bitmap.testBit b = false := by
  rw [Volume.mem_blockRange, FreeBlock, and_assoc]

theorem freeBlocks_eq_zero : v.freeBlocks = 0 ↔ allocBlockRaw v = none := by
  rw [Volume.freeBlocks, List.countP_eq_zero, allocBlockRaw_none]
  simp only [freeBlock_iff, Bool.not_eq_true', not_and]

/-- What is given out is free no longer, and nothing else changes. -/
theorem freeBlocks_useBlock {b : UInt32} (hb : FreeBlock v b.toNat) :
    (v.useBlock b).freeBlocks + 1 = v.freeBlocks := by
  obtain ⟨hmem, hfree⟩ := freeBlock_iff.mp hb
  have hnodup : (v.blockRange.filter fun i => !v.bitmap.testBit i).Nodup :=
    (List.nodup_range' 1).filter _
  have hin : b.toNat ∈ v.blockRange.filter fun i => !v.bitmap.testBit i := by
    rw [List.mem_filter, hfree]
    exact ⟨hmem, rfl⟩
  have herase : (v.useBlock b).blockRange.filter (fun i => !(v.useBlock b).bitmap.testBit i) =
      (v.blockRange.filter fun i => !v.bitmap.testBit i).erase b.toNat := by
    rw [hnodup.erase_eq_filter, List.filter_filter]
    refine List.filter_congr fun i hi => ?_
    have hlt := blockLimit_le v.sb
    have hi' := (Volume.mem_blockRange.mp hi).2
    rw [Volume.bitmap_useBlock, Bytes.testBit_setBit _ (by
      change i < (blockLimit v.sb).toNat at hi'
      omega)]
    by_cases hib : b.toNat = i
    · simp [hib]
    · simp [Ne.symm hib]
  rw [Volume.freeBlocks, Volume.freeBlocks, List.countP_eq_length_filter,
    List.countP_eq_length_filter, herase, List.length_erase_of_mem hin]
  exact Nat.sub_add_cancel (List.length_pos_of_mem hin)

theorem handsOut_iff (h : s.mounted = true) {n : Nat} :
    s.HandsOut n ↔ n = s.toVolume.freeBlocks := by
  have hfind : ∀ {s : Fs}, s.mounted = true →
      findFreeBlock s.toVolume = allocBlockRaw s.toVolume := fun hm => if_pos hm
  constructor
  · intro hrun
    induction hrun with
    | none hnone =>
        rw [hfind h] at hnone
        exact (freeBlocks_eq_zero.mpr hnone).symm
    | next hsome _ ih =>
        rw [hfind h] at hsome
        rw [ih h]
        exact freeBlocks_useBlock (allocBlockRaw_free hsome)
  · rintro rfl
    generalize hn : s.toVolume.freeBlocks = n
    induction n generalizing s with
    | zero => exact .none ((hfind h).trans (freeBlocks_eq_zero.mp hn))
    | succ n ih =>
        cases hsome : allocBlockRaw s.toVolume with
        | none =>
            rw [freeBlocks_eq_zero.mpr hsome] at hn
            cases hn
        | some b =>
            have hcount := freeBlocks_useBlock (allocBlockRaw_free hsome)
            refine .next ((hfind h).trans hsome) (ih h ?_)
            change (s.toVolume.useBlock b).freeBlocks = n
            omega

/-! ## What is reported -/

/-- The product of a block count and the block size does not overflow. -/
theorem blockBytes_toNat {n : UInt32} (hn : n.toNat ≤ 32768) :
    (n.toUInt64 * fsBlockSize.toUInt64).toNat = 512 * n.toNat := by
  have hsize : fsBlockSize.toUInt64.toNat = 512 := rfl
  rw [UInt64.toNat_mul, UInt32.toNat_toUInt64, hsize, Nat.mod_eq_of_lt (by omega), Nat.mul_comm]

theorem fsGetUsage_eq (h : s.mounted = true) (hpos : 1 ≤ (blockLimit s.sb).toNat) :
    ∃ usage, (fsGetUsage s).1 = .ok usage ∧
      usage.usedBytes.toNat = 512 * s.toVolume.usedBlocks ∧
      usage.freeBytes.toNat = 512 * (s.toVolume.freeBlocks + 1) := by
  have hle := blockLimit_le s.sb
  have hsum := s.toVolume.used_add_free
  have hcount : (UInt32.ofNat s.toVolume.usedBlocks).toNat = s.toVolume.usedBlocks := by
    rw [UInt32.toNat_ofNat']
    omega
  let total := (blockLimit s.sb).toUInt64 * fsBlockSize.toUInt64
  let used := (UInt32.ofNat s.toVolume.usedBlocks).toUInt64 * fsBlockSize.toUInt64
  have htotal : total.toNat = 512 * (blockLimit s.sb).toNat := blockBytes_toNat hle
  have hused : used.toNat = 512 * s.toVolume.usedBlocks := by
    rw [blockBytes_toNat (by omega), hcount]
  -- block 0 is not counted: less than everything is in use
  have hlt : used < total := by
    rw [UInt64.lt_iff_toNat_lt]
    omega
  have hrun : (fsGetUsage s).1 = .ok ⟨total, used, if used < total then total - used else 0⟩ := by
    refine wp_outcome ?_
    simp only [fsGetUsage, wp_bind, wp_get, wp_require, wp_pure]
    exact ⟨fun _ => rfl, fun hno => (hno h).elim⟩
  refine ⟨_, hrun, hused, ?_⟩
  rw [if_pos hlt, UInt64.toNat_sub_of_le _ _ (UInt64.le_of_lt hlt)]
  omega

/-- The free space that is reported is the space that can be given out. -/
def Fs.UsageExact (s : Fs) : Prop :=
  ∃ usage n, (fsGetUsage s).1 = .ok usage ∧ s.HandsOut n ∧
    usage.usedBytes.toNat = 512 * s.toVolume.usedInodes ∧ usage.freeBytes.toNat = 512 * n

/-- What is in use is reported as it is, what is free with the reserved block. -/
theorem session_usage (hp : dev.Perfect)
    (h : Session dev (fun _ call _ => call.Ordinary) s) :
    (∃ usage n, (fsGetUsage s).1 = .ok usage ∧ s.HandsOut n ∧
      usage.usedBytes.toNat = 512 * s.toVolume.usedInodes ∧
      usage.freeBytes.toNat = 512 * n + 512) ∧ ¬ s.UsageExact := by
  obtain ⟨stray, hready⟩ := h.ready hp fun s call _ hallow => hallow.fits s.toVolume
  have halloc := hready.inv.alloc
  have hpos : 1 ≤ (blockLimit s.sb).toNat := by
    rw [halloc.blockLimit_eq]
    exact halloc.countPos
  obtain ⟨usage, hrun, hused, hfree⟩ := fsGetUsage_eq hready.mounted hpos
  refine ⟨⟨usage, _, hrun, (handsOut_iff hready.mounted).mpr rfl, ?_, ?_⟩, ?_⟩
  · rw [hused, halloc.usedBlocks]
  · omega
  · rintro ⟨usage', n, hrun', hhands, -, hexact⟩
    obtain rfl : usage = usage' := Outcome.ok.inj (hrun.symm.trans hrun')
    rw [(handsOut_iff hready.mounted).mp hhands] at hexact
    omega

/-- All of a small disk is in use. -/
theorem session_usage_full :
    (∃ usage n, (fsGetUsage (.started .working (fun _ => Bytes.zero) 5 [])).1 = .ok usage ∧
      (Fs.started .working (fun _ => Bytes.zero) 5 []).HandsOut n ∧
      usage.usedBytes.toNat =
        512 * (Fs.started .working (fun _ => Bytes.zero) 5 []).toVolume.usedInodes ∧
      usage.freeBytes.toNat = 512 * n + 512) ∧
      ¬ (Fs.started .working (fun _ => Bytes.zero) 5 []).UsageExact :=
  session_usage Device.working_perfect (.started (by decide +kernel) fun _ hcall => by cases hcall)

/-- No block can be had, and 512 bytes are reported free. -/
theorem not_session_usageExact :
    ¬ ∀ dev s, dev.Perfect → Session dev (fun _ call _ => call.Ordinary) s → s.UsageExact := by
  intro h
  obtain ⟨usage, n, hrun, hhands, -, hfree⟩ := h .working
    (.started .working (fun _ => Bytes.zero) 5 []) Device.working_perfect
    (.started (by decide +kernel) fun _ hcall => by cases hcall)
  have hmounted : (Fs.started .working (fun _ => Bytes.zero) 5 []).mounted = true := by
    decide +kernel
  have hnone : allocBlockRaw (Fs.started .working (fun _ => Bytes.zero) 5 []).toVolume = none := by
    decide +kernel
  have husage : (fsGetUsage (.started .working (fun _ => Bytes.zero) 5 [])).1 =
      .ok ⟨2560, 2048, 512⟩ := by
    decide +kernel
  rw [(handsOut_iff hmounted).mp hhands, freeBlocks_eq_zero.mpr hnone] at hfree
  rw [husage] at hrun
  obtain rfl := Outcome.ok.inj hrun
  exact absurd hfree (by decide)

end SevenOS
