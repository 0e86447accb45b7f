import SevenOS.FileSystem.Proof.ReadOnly
import SevenOS.FileSystem.Proof.SysSpecs

/-! # The bitmap and its scans

The bitmap is a set of block numbers. `alloc_block_raw`, `find_free_block` and
`ensure_root_dir_block` each have a loop of their own over it, written alike; what
the loop finds is the least number from 1 on that is not in the set.
-/

namespace SevenOS

open Prog

variable {dev : Device} {v : Volume} {s : Fs}

/-- The loop of the three scans from index `i` on; the first argument bounds its rounds. -/
def scanBlocks (bitmap : Bitmap) (limit : UInt32) : Nat → UInt32 → Option UInt32
  | 0, _ => none
  | rounds + 1, i =>
      if i < limit then
        let byteIndex := i / 8
        let bitIndex := i % 8
        let mask := ((1 : UInt32) <<< bitIndex).toUInt8
        if bitmap.at_ byteIndex.toNat &&& mask = 0 then some i
        else scanBlocks bitmap limit rounds (i + 1)
      else none

theorem shifted_eq_mask (i : UInt32) :
    ((1 : UInt32) <<< (i % 8)).toUInt8 = Bytes.mask i.toNat := by
  apply UInt8.toNat.inj
  have hi : i.toNat % 8 < 8 := Nat.mod_lt _ (by decide)
  have hpow : 2 ^ (i.toNat % 8) < 2 ^ 8 := Nat.pow_lt_pow_right (by decide) hi
  have hmod : i.toNat % 8 % 32 = i.toNat % 8 := Nat.mod_eq_of_lt (by omega)
  have h8 : (8 : UInt32).toNat = 8 := rfl
  rw [Bytes.mask_toNat, UInt32.toNat_toUInt8, UInt32.toNat_shiftLeft, UInt32.toNat_mod, h8, hmod,
    Nat.shiftLeft_eq]
  have h1 : (1 : UInt32).toNat = 1 := rfl
  rw [h1, Nat.one_mul, Nat.mod_eq_of_lt (Nat.lt_trans hpow (by decide)), Nat.mod_eq_of_lt hpow]

/-- The test of the loop is the test of a bit. -/
theorem maskedByte_eq_zero (bitmap : Bitmap) (i : UInt32) :
    bitmap.at_ (i / 8).toNat &&& ((1 : UInt32) <<< (i % 8)).toUInt8 = 0 ↔
      bitmap.testBit i.toNat = false := by
  have hdiv : (i / 8).toNat = i.toNat / 8 := UInt32.toNat_div i 8
  rw [shifted_eq_mask, hdiv, Bytes.testBit, bne_eq_false_iff_eq]

theorem scanBlocks_eq (bitmap : Bitmap) (limit : UInt32) (rounds : Nat) (i : UInt32)
    (h : limit.toNat ≤ rounds + i.toNat) :
    scanBlocks bitmap limit rounds i =
      ((List.range' i.toNat (limit.toNat - i.toNat)).find? fun j => !bitmap.testBit j).map
        UInt32.ofNat := by
  induction rounds generalizing i with
  | zero =>
      have hnone : limit.toNat - i.toNat = 0 := by omega
      rw [scanBlocks, hnone]
      rfl
  | succ rounds ih =>
      rw [scanBlocks]
      by_cases hlt : i < limit
      · have hltNat := UInt32.lt_iff_toNat_lt.mp hlt
        have hnext : (i + 1).toNat = i.toNat + 1 := by
          have hlimit := limit.toNat_lt
          rw [UInt32.toNat_add]
          exact Nat.mod_eq_of_lt (by change i.toNat + 1 < 2 ^ 32; omega)
        obtain ⟨n, hn⟩ : ∃ n, limit.toNat - i.toNat = n + 1 := ⟨limit.toNat - i.toNat - 1, by omega⟩
        rw [if_pos hlt, hn, List.range'_succ, List.find?_cons]
        by_cases hclear : bitmap.testBit i.toNat = false
        · rw [if_pos ((maskedByte_eq_zero bitmap i).mpr hclear), hclear]
          simp
        · rw [if_neg fun h0 => hclear ((maskedByte_eq_zero bitmap i).mp h0), ih (i + 1) (by omega),
            hnext]
          have hset : bitmap.testBit i.toNat = true := by simpa using hclear
          have hrest : limit.toNat - (i.toNat + 1) = n := by omega
          rw [hset, hrest]
          rfl
      · have hnone : limit.toNat - i.toNat = 0 := by
          rw [UInt32.lt_iff_toNat_lt] at hlt
          omega
        rw [if_neg hlt, hnone]
        rfl

/-- The loop as it starts: `for (u32 i = 1; i < limit; i++)`. -/
def scanFromOne (bitmap : Bitmap) (limit : UInt32) : Option UInt32 :=
  scanBlocks bitmap limit limit.toNat 1

theorem allocBlockRaw_scan (v : Volume) :
    allocBlockRaw v = scanFromOne v.bitmap (blockLimit v.sb) := by
  rw [scanFromOne, scanBlocks_eq _ _ _ _ (Nat.le_add_right _ _)]
  rfl

/-! ## The least block that is not taken -/

/-- `limit` as the scans understand `block_count`. -/
def scanLimit (blockCount : UInt32) : Nat :=
  if blockCount.toNat = 0 ∨ 32768 < blockCount.toNat then 32768 else blockCount.toNat

theorem blockLimit_toNat (sb : Superblock) : (blockLimit sb).toNat = scanLimit sb.blockCount := by
  have hzero : sb.blockCount = 0 ↔ sb.blockCount.toNat = 0 := by
    rw [← UInt32.toNat_inj]
    rfl
  have hmax : maxBlocks < sb.blockCount ↔ 32768 < sb.blockCount.toNat := UInt32.lt_iff_toNat_lt
  simp only [blockLimit, scanLimit, hzero, hmax]
  split <;> rfl

/-- The least clear index from 1 up to `limit`, or none. -/
def LeastClear (bitmap : Bitmap) (limit : Nat) : Option UInt32 → Prop
  | some b => 1 ≤ b.toNat ∧ b.toNat < limit ∧ bitmap.testBit b.toNat = false ∧
      ∀ j, 1 ≤ j → j < b.toNat → bitmap.testBit j = true
  | none => ∀ j, 1 ≤ j → j < limit → bitmap.testBit j = true

theorem allocBlockRaw_leastClear (v : Volume) :
    LeastClear v.bitmap (scanLimit v.sb.blockCount) (allocBlockRaw v) := by
  rw [← blockLimit_toNat]
  cases h : allocBlockRaw v with
  | none =>
      intro j hpos hlt
      have hno := allocBlockRaw_none.mp h j
      by_contra hclear
      exact hno ⟨hpos, hlt, by simpa using hclear⟩
  | some b =>
      obtain ⟨hpos, hlt, hclear⟩ := allocBlockRaw_free h
      refine ⟨hpos, hlt, hclear, fun j hj hjb => ?_⟩
      obtain ⟨i, hfind, rfl⟩ := Option.map_eq_some_iff.mp h
      obtain ⟨-, hi, hbefore⟩ := List.find?_range'_eq_some.mp hfind
      have hlimit := (blockLimit v.sb).toNat_lt
      rw [List.mem_range'_1] at hi
      have hnat : (UInt32.ofNat i).toNat = i := by
        rw [UInt32.toNat_ofNat']
        omega
      simpa using hbefore j hj (by omega)

/-- The root block is the block that the scan finds, whatever the writes after it do. -/
theorem ensureRootDirBlock_scan (h0 : (s.inodes 0).direct0 = 0) :
    (allocBlockRaw s.toVolume = none → ensureRootDirBlock dev s = (.refused, s)) ∧
      ∀ b, allocBlockRaw s.toVolume = some b →
        ((ensureRootDirBlock dev s).2.inodes 0).direct0 = b ∧
          (ensureRootDirBlock dev s).2.bitmap = s.bitmap.setBit b.toNat := by
  have hno : ¬ (s.inodes 0).direct0 ≠ 0 := fun hne => hne h0
  constructor
  · intro hnone
    have hspec : wp (ensureRootDirBlock dev) (fun _ _ => False) (fun s' => s' = s)
        (fun _ => False) s := by
      simp only [ensureRootDirBlock, wp_bind, wp_get]
      rw [if_neg hno]
      simp only [wp_bind, wp_demand, hnone]
      simp
    rcases wp_run hspec rfl with ⟨_, -, hfalse⟩ | ⟨ho, hs⟩ | ⟨-, hfalse⟩
    · exact hfalse.elim
    · exact Prod.ext ho hs
    · exact hfalse.elim
  · intro b hb
    have writes : ∀ lba, Keeps (fun s' : Fs => (s'.inodes 0).direct0 = b ∧
        s'.bitmap = s.bitmap.setBit b.toNat) (do diskWriteLba dev 512 lba Bytes.zero
                                                 flushTables dev) := by
      intro lba
      let P : Superblock → Bitmap → (InodeNo → Inode) → Prop := fun _ bitmap tab =>
        (tab 0).direct0 = b ∧ bitmap = s.bitmap.setBit b.toNat
      exact (diskWriteLba_tables P 512 lba Bytes.zero).bind fun _ => flushTables_tables P
    have hends : Ends (fun s' : Fs => (s'.inodes 0).direct0 = b ∧
        s'.bitmap = s.bitmap.setBit b.toNat) (ensureRootDirBlock dev) s := by
      refine Ends.get ?_
      rw [if_neg hno]
      simp only [Ends, wp_bind, wp_demand, hb]
      refine ⟨?_, by simp⟩
      rintro _ ⟨⟩
      simp only [wp_markBlockUsed, wp_modifyInode, wp_get]
      exact (wp_bind _ _).mp (writes _ _ ⟨by simp, rfl⟩)
    rcases wp_run hends rfl with ⟨_, -, h⟩ | ⟨-, h⟩ | ⟨-, h⟩ <;> exact h

/-- The bitmap is a set that the marks add to and take from, and all three scans find
the least block outside it. -/
theorem bitmap_scans (dev : Device) (s : Fs) :
    (∀ i j : UInt32, i.toNat < 32768 → j.toNat < 32768 →
      ((markBlockUsed i s).2.bitmap.testBit j.toNat = true ↔
        j = i ∨ s.bitmap.testBit j.toNat = true) ∧
      ((markBlockFree i s).2.bitmap.testBit j.toNat = true ↔
        j ≠ i ∧ s.bitmap.testBit j.toNat = true)) ∧
    LeastClear s.bitmap (scanLimit s.sb.blockCount)
      (scanFromOne s.bitmap (blockLimit s.sb)) ∧
    allocBlockRaw s.toVolume = scanFromOne s.bitmap (blockLimit s.sb) ∧
    (s.mounted = true →
      findFreeBlock s.toVolume = scanFromOne s.bitmap (blockLimit s.sb)) ∧
    ((s.inodes 0).direct0 = 0 →
      (scanFromOne s.bitmap (blockLimit s.sb) = none → ensureRootDirBlock dev s = (.refused, s)) ∧
      ∀ b, scanFromOne s.bitmap (blockLimit s.sb) = some b →
        ((ensureRootDirBlock dev s).2.inodes 0).direct0 = b ∧
          (ensureRootDirBlock dev s).2.bitmap = s.bitmap.setBit b.toNat) := by
  refine ⟨fun i j _ hj => ⟨?_, ?_⟩, ?_⟩
  · change (s.bitmap.setBit i.toNat).testBit j.toNat = true ↔ _
    rw [Bytes.testBit_setBit _ hj]
    simp [UInt32.toNat_inj]
  · change (s.bitmap.clearBit i.toNat).testBit j.toNat = true ↔ _
    rw [Bytes.testBit_clearBit _ hj]
    simp [UInt32.toNat_inj]
  · have hscan : allocBlockRaw s.toVolume = scanFromOne s.bitmap (blockLimit s.sb) :=
      allocBlockRaw_scan s.toVolume
    rw [← hscan]
    refine ⟨allocBlockRaw_leastClear s.toVolume, rfl, fun hm => ?_, fun h0 => ?_⟩
    · rw [findFreeBlock, if_pos hm]
    · exact ensureRootDirBlock_scan h0

end SevenOS
