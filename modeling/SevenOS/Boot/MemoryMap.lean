import SevenOS.Lib.Memory

/-! # The memory map

The second stage asks the BIOS for the map of the memory, one entry a call, and
stores the entries from 0x5000 on with their number in front, at 0x4ff0. The kernel
reads them back from there, not more than 32. What the BIOS answers, call by call,
is a list; it ends when the BIOS is not asked any more.
-/

namespace SevenOS

/-- What int 0x15 leaves: the carry flag, two registers, and the bytes at `es:di`. -/
structure E820Answer where
  carry : Bool
  eax : UInt32
  ebx : UInt32
  entry : List UInt8
  /-- `ecx` says how much room there is. -/
  fits : entry.length ≤ 24

def e820Buf : UInt16 := 0x5000
def e820Count : Nat := 0x4FF0

/-- "SMAP" -/
def smap : UInt32 := 0x534D4150

/-! ## The loop of the second stage -/

/-- `.e820_loop`: the memory when it is left, if the BIOS has said enough for that. -/
def e820Loop (m : Memory) (di : UInt16) : List E820Answer → Option Memory
  | [] => none
  | answer :: rest =>
      let m := m.fill di.toNat answer.entry.length fun i => answer.entry.getD i 0
      if answer.carry then some m
      else if answer.eax ≠ smap then some m
      else
        let di := di + 24
        let m := m.store16 e820Count (m.load16 e820Count + 1)
        if answer.ebx = 0 then some m
        else e820Loop m di rest

/-- From the counter on. -/
def e820 (m : Memory) (answers : List E820Answer) : Option Memory :=
  e820Loop (m.store32 e820Count 0) e820Buf answers

/-! ## The kernel -/

def e820MaxEntries : UInt16 := 32

/-- Where `map[i]` starts. -/
def entryAddr (i : Nat) : Nat := e820Buf.toNat + 24 * i

def entryLength (m : Memory) (i : Nat) : UInt64 := m.load64 (entryAddr i + 8)
def entryType (m : Memory) (i : Nat) : UInt32 := m.load32 (entryAddr i + 16)

def getRamBytes (m : Memory) : UInt64 :=
  let entries := min (m.load16 e820Count) e820MaxEntries
  (List.range entries.toNat).foldl
    (fun total i => if entryType m i = 1 then total + entryLength m i else total) 0

/-! ## What the BIOS said -/

namespace E820Answer

def bytes (a : E820Answer) : Bytes 24 := fun i => a.entry.getD i 0

def length (a : E820Answer) : UInt64 :=
  (a.bytes.get32 8).toUInt64 ||| ((a.bytes.get32 12).toUInt64 <<< 32)

def type (a : E820Answer) : UInt32 := a.bytes.get32 16

/-- The answer has an entry. -/
def Accepted (a : E820Answer) : Prop := a.carry = false ∧ a.eax = smap

instance (a : E820Answer) : Decidable a.Accepted := inferInstanceAs (Decidable (_ ∧ _))

end E820Answer

/-- The entries of the map: up to the first answer without one, or up to the last one. -/
def accepted : List E820Answer → List E820Answer
  | [] => []
  | answer :: rest =>
      if answer.Accepted then
        answer :: if answer.ebx = 0 then [] else accepted rest
      else []

/-- The bytes of memory that is free to use. -/
def usable (entries : List E820Answer) : UInt64 :=
  entries.foldl (fun total a => if a.type = 1 then total + a.length else total) 0

/-! ## The table in memory -/

variable {m m' : Memory} {di : UInt16} {done entries answers : List E820Answer}

/-- So many entries are stored, with what the BIOS wrote of each. -/
structure Tabled (m : Memory) (entries : List E820Answer) : Prop where
  count : m.load16 e820Count = UInt16.ofNat entries.length
  bytes : ∀ i (hi : i < entries.length) j, j < entries[i].entry.length →
    m.byte (entryAddr i + j) = entries[i].entry.getD j 0

/-- Where the next entry goes, as long as the map does not reach the code. -/
theorem next_toNat (hdi : di.toNat = entryAddr done.length) (hfew : done.length < 512) :
    (di + 24).toNat = entryAddr (done.length + 1) := by
  have hbuf : e820Buf.toNat = 20480 := rfl
  have h24 : (24 : UInt16).toNat = 24 := rfl
  rw [UInt16.toNat_add, h24, hdi, entryAddr, entryAddr, hbuf]
  omega

theorem Tabled.add (h : Tabled m done) (hdi : di.toNat = entryAddr done.length)
    (hfew : done.length < 512) (answer : E820Answer) :
    Tabled ((m.fill di.toNat answer.entry.length fun i => answer.entry.getD i 0).store16 e820Count
      ((m.fill di.toNat answer.entry.length fun i => answer.entry.getD i 0).load16 e820Count + 1))
      (done ++ [answer]) := by
  have hbuf : e820Buf.toNat = 20480 := rfl
  have hcount : e820Count = 20464 := rfl
  have hfits := answer.fits
  rw [entryAddr, hbuf] at hdi
  constructor
  · rw [Memory.load16_store16, Memory.load16_fill_apart _ _ (by omega), h.count, List.length_append,
      List.length_singleton]
    apply UInt16.toNat.inj
    rw [UInt16.toNat_add, UInt16.toNat_ofNat', UInt16.toNat_ofNat']
    change (_ + 1) % _ = _
    omega
  · intro i hi j hj
    rw [List.length_append, List.length_singleton] at hi
    have hentry := ((done ++ [answer])[i]).fits
    rw [entryAddr, hbuf, Memory.byte_store16_apart _ _ (by omega)]
    by_cases hold : i < done.length
    · have hentry := done[i].fits
      rw [List.getElem_append_left hold] at hj ⊢
      rw [Memory.byte_fill_apart _ _ (by omega)]
      have hbytes := h.bytes i hold j hj
      rw [entryAddr, hbuf] at hbytes
      exact hbytes
    · have hlast : i = done.length := by omega
      subst hlast
      rw [List.getElem_append_right (Nat.le_refl _)] at hj ⊢
      simp only [Nat.sub_self, List.getElem_cons_zero] at hj ⊢
      rw [← hdi, Memory.byte_fill _ _ hj]

/-- What the BIOS writes behind the entries does not matter. -/
theorem Tabled.refused (h : Tabled m done) (hdi : di.toNat = entryAddr done.length) (n : Nat)
    (f : Nat → UInt8) : Tabled (m.fill di.toNat n f) done := by
  have hbuf : e820Buf.toNat = 20480 := rfl
  have hcount : e820Count = 20464 := rfl
  rw [entryAddr, hbuf] at hdi
  constructor
  · rw [Memory.load16_fill_apart _ _ (by omega)]
    exact h.count
  · intro i hi j hj
    have hentry := (done[i]).fits
    rw [Memory.byte_fill_apart _ _ (by rw [entryAddr, hbuf]; omega)]
    exact h.bytes i hi j hj

/-- Neither a byte of the counter nor one of the first `n` places of the table. -/
def OutsideMap (n i : Nat) : Prop :=
  i < e820Count ∨ e820Count + 4 ≤ i ∧ i < e820Buf.toNat ∨ entryAddr n ≤ i

/-- Induction on the answers: the table has the entries of all of them, and nothing else has
changed. -/
theorem e820Loop_tabled (h : Tabled m done) (hdi : di.toNat = entryAddr done.length)
    (hfew : done.length + (accepted answers).length ≤ 512) (hrun : e820Loop m di answers = some m') :
    Tabled m' (done ++ accepted answers) ∧
      ∀ i, OutsideMap (done.length + (accepted answers).length + 1) i → m'.byte i = m.byte i := by
  have hbuf : e820Buf.toNat = 20480 := rfl
  have hcount : e820Count = 20464 := rfl
  induction answers generalizing m di done with
  | nil => cases hrun
  | cons answer rest ih =>
      have hfits := answer.fits
      rw [e820Loop] at hrun
      by_cases haccepted : answer.Accepted
      · obtain ⟨hcarry, heax⟩ := haccepted
        rw [accepted, if_pos ⟨hcarry, heax⟩] at hfew ⊢
        rw [List.length_cons] at hfew ⊢
        have hadd := h.add hdi (by omega) answer
        have hnext := next_toNat hdi (by omega : done.length < 512)
        have hsame : ∀ i, OutsideMap (done.length + 1) i →
            ((m.fill di.toNat answer.entry.length fun i => answer.entry.getD i 0).store16 e820Count
              ((m.fill di.toNat answer.entry.length fun i => answer.entry.getD i 0).load16
                e820Count + 1)).byte i = m.byte i := by
          intro i hi
          rw [entryAddr, hbuf] at hdi
          rw [OutsideMap, entryAddr, hbuf] at hi
          rw [Memory.byte_store16_apart _ _ (by omega), Memory.byte_fill_apart _ _ (by omega)]
        simp only [hcarry, heax, Bool.false_eq_true, if_false, ne_eq, not_true_eq_false] at hrun
        by_cases hlast : answer.ebx = 0
        · rw [if_pos hlast] at hrun hfew ⊢
          cases hrun
          refine ⟨hadd, fun i hi => hsame i ?_⟩
          simp only [OutsideMap, entryAddr, List.length_nil] at hi ⊢
          omega
        · rw [if_neg hlast] at hrun hfew ⊢
          have hlen : (done ++ [answer]).length = done.length + 1 := by simp
          obtain ⟨htabled, hout⟩ := ih hadd (by rw [hlen]; exact hnext)
            (by rw [hlen]; omega) hrun
          rw [hlen] at hout
          refine ⟨?_, fun i hi => ?_⟩
          · rw [List.append_assoc] at htabled
            exact htabled
          · rw [hout i ?_, hsame i ?_]
            · simp only [OutsideMap, entryAddr] at hi ⊢
              omega
            · simp only [OutsideMap, entryAddr] at hi ⊢
              omega
      · rw [accepted, if_neg haccepted, List.append_nil, List.length_nil]
        have hend : m' = m.fill di.toNat answer.entry.length fun i => answer.entry.getD i 0 := by
          by_cases hcarry : answer.carry = true
          · rw [if_pos hcarry] at hrun
            exact (Option.some.inj hrun).symm
          · have heax : answer.eax ≠ smap := fun heq =>
              haccepted ⟨by simpa using hcarry, heq⟩
            rw [if_neg hcarry, if_pos heax] at hrun
            exact (Option.some.inj hrun).symm
        rw [hend]
        refine ⟨h.refused hdi _ _, fun i hi => ?_⟩
        rw [entryAddr, hbuf] at hdi
        rw [OutsideMap, entryAddr, hbuf] at hi
        exact Memory.byte_fill_apart _ _ (by omega)

/-! ## Reading it back -/

theorem Tabled.get32 (h : Tabled m entries) {i off : Nat} (hi : i < entries.length)
    (hoff : off + 4 ≤ entries[i].entry.length) :
    m.load32 (entryAddr i + off) = entries[i].bytes.get32 off := by
  have hfits := entries[i].fits
  have byte : ∀ k, k < 4 → m.byte (entryAddr i + off + k) = entries[i].bytes.at_ (off + k) := by
    intro k hk
    rw [Nat.add_assoc, h.bytes i hi (off + k) (by omega), Bytes.at_, dif_pos (by omega)]
    rfl
  simp only [Memory.load32, Bytes.get32]
  rw [← byte 1 (by decide), ← byte 2 (by decide), ← byte 3 (by decide)]
  have hfirst := byte 0 (by decide)
  rw [Nat.add_zero, Nat.add_zero] at hfirst
  rw [hfirst]

theorem Tabled.fields (h : Tabled m entries) {i : Nat} (hi : i < entries.length)
    (hwhole : 20 ≤ entries[i].entry.length) :
    entryLength m i = entries[i].length ∧ entryType m i = entries[i].type := by
  constructor
  · rw [entryLength, Memory.load64, Nat.add_assoc, h.get32 hi (by omega), h.get32 hi (by omega)]
    rfl
  · exact h.get32 hi (by omega)

/-- Induction on the number of entries that are read. -/
theorem Tabled.sum (h : Tabled m entries) (hwhole : ∀ a ∈ entries, 20 ≤ a.entry.length) {n : Nat}
    (hn : n ≤ entries.length) : (List.range n).foldl
      (fun total i => if entryType m i = 1 then total + entryLength m i else total) 0 =
        usable (entries.take n) := by
  induction n with
  | zero => rfl
  | succ n ih =>
      obtain ⟨hlength, htype⟩ := h.fields hn (hwhole _ (List.getElem_mem hn))
      rw [List.range_succ, List.foldl_append, ih (by omega), List.foldl_cons, List.foldl_nil,
        List.take_succ_eq_append_getElem hn, usable, usable, List.foldl_append, List.foldl_cons,
        List.foldl_nil, hlength, htype]

/-- The kernel counts the usable memory of the first 32 entries that the BIOS gave, and the map
has overwritten nothing but its own place. -/
theorem getRamBytes_counts (hrun : e820 m answers = some m')
    (hfew : (accepted answers).length ≤ 512)
    (hwhole : ∀ a ∈ accepted answers, 20 ≤ a.entry.length) :
    getRamBytes m' = usable ((accepted answers).take 32) ∧
      ∀ i, OutsideMap ((accepted answers).length + 1) i → m'.byte i = m.byte i := by
  have hstart : Tabled (m.store32 e820Count 0) [] := by
    refine ⟨?_, fun i hi => absurd hi (Nat.not_lt_zero i)⟩
    simp [Memory.load16, Memory.store32, Bytes.bytesOf32, e820Count]
    rfl
  have hbuf : e820Buf.toNat = 20480 := rfl
  have hcount : e820Count = 20464 := rfl
  obtain ⟨htabled, hout⟩ := e820Loop_tabled hstart rfl (by simpa using hfew) hrun
  rw [List.nil_append] at htabled
  rw [List.length_nil, Nat.zero_add] at hout
  constructor
  · have hentries : (min (m'.load16 e820Count) e820MaxEntries).toNat =
        min (accepted answers).length 32 := by
      rw [htabled.count]
      have hlen : (UInt16.ofNat (accepted answers).length).toNat = (accepted answers).length := by
        rw [UInt16.toNat_ofNat']
        omega
      have h32 : e820MaxEntries.toNat = 32 := rfl
      have hmin : min (UInt16.ofNat (accepted answers).length) e820MaxEntries =
          if UInt16.ofNat (accepted answers).length ≤ e820MaxEntries then
            UInt16.ofNat (accepted answers).length else e820MaxEntries := rfl
      rw [hmin]
      split
      · next hle =>
          rw [UInt16.le_iff_toNat_le, hlen, h32] at hle
          omega
      · next hle =>
          rw [UInt16.le_iff_toNat_le, hlen, h32] at hle
          omega
    rw [getRamBytes, hentries, htabled.sum hwhole (Nat.min_le_left _ _)]
    congr 1
    by_cases hshort : (accepted answers).length ≤ 32
    · rw [Nat.min_eq_left hshort, List.take_length, List.take_of_length_le hshort]
    · rw [Nat.min_eq_right (by omega)]
  · intro i hi
    rw [hout i hi]
    rw [OutsideMap, entryAddr, hbuf] at hi
    exact Memory.byte_store32_apart _ _ (by omega)

/-- 640 KB, and a reserved stretch. -/
def smallMap : List E820Answer :=
  [⟨false, smap, 1, [0, 0, 0, 0, 0, 0, 0, 0, 0, 0, 10, 0, 0, 0, 0, 0, 1, 0, 0, 0], by decide⟩,
    ⟨false, smap, 0, [0, 0, 15, 0, 0, 0, 0, 0, 0, 0, 1, 0, 0, 0, 0, 0, 2, 0, 0, 0], by decide⟩]

theorem getRamBytes_counts_small :
    ∃ m', e820 ⟨fun _ => 0⟩ smallMap = some m' ∧ getRamBytes m' = 655360 := by
  refine ⟨_, rfl, ?_⟩
  have h := @getRamBytes_counts ⟨fun _ => 0⟩ _ smallMap rfl (by decide) (by decide)
  exact h.1.trans (by decide)

end SevenOS
