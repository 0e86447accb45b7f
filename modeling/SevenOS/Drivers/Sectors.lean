import SevenOS.Drivers.Ata
import SevenOS.FileSystem.Proof.Perfect

/-! # Sectors through the driver

What the driver makes of a drive that is always ready: of a sector number 28 bits
arrive, so a range that stays below 2^28 is stored and fetched as it should be, and
a range that does not is stored too, at its beginning from sector 0 on.
-/

namespace SevenOS

open Prog

variable {drive : Drive} {b : Bus}

/-! ## Ports -/

namespace Ata

/-- The address registers as the driver sets them. -/
def addressed (a : Ata) (lba : UInt32) : Ata :=
  { a with
    hddevsel := ((0xE0 : UInt32) ||| ((lba >>> 24) &&& 0x0F)).toUInt8
    seccount0 := 1
    lba0 := (lba &&& 0xFF).toUInt8
    lba1 := ((lba >>> 8) &&& 0xFF).toUInt8
    lba2 := ((lba >>> 16) &&& 0xFF).toUInt8 }

theorem addressed_selected (a : Ata) (lba : UInt32) :
    (a.addressed lba).selected = lba.toNat % 2 ^ 28 := by
  have byte : ∀ x : UInt32, (x &&& 0xFF).toUInt8.toNat = x.toNat % 256 := by
    intro x
    rw [UInt32.toNat_toUInt8, UInt32.toNat_and]
    change (x.toNat &&& 2 ^ 8 - 1) % 2 ^ 8 = _
    rw [Nat.and_two_pow_sub_one_eq_mod]
    omega
  have nibble : ((((0xE0 : UInt32) ||| ((lba >>> 24) &&& 0x0F)).toUInt8) &&& 0x0F).toNat =
      (lba >>> 24).toNat % 16 := by
    rw [UInt8.toNat_and, UInt32.toNat_toUInt8, UInt32.toNat_or, UInt32.toNat_and]
    change ((224 ||| ((lba >>> 24).toNat &&& 2 ^ 4 - 1)) % 2 ^ 8) &&& 2 ^ 4 - 1 = _
    rw [Nat.and_two_pow_sub_one_eq_mod, Nat.and_two_pow_sub_one_eq_mod,
      Nat.mod_mod_of_dvd _ (by decide), Nat.or_mod_two_pow]
    simp
  have shift : ∀ k : UInt32, (lba >>> k).toNat = lba.toNat / 2 ^ (k.toNat % 32) := fun k => by
    rw [UInt32.toNat_shiftRight, Nat.shiftRight_eq_div_pow]
  have h8 : (8 : UInt32).toNat % 32 = 8 := rfl
  have h16 : (16 : UInt32).toNat % 32 = 16 := rfl
  have h24 : (24 : UInt32).toNat % 32 = 24 := rfl
  simp only [selected, addressed, byte, nibble, shift, h8, h16, h24]
  omega

end Ata

section Ports

variable {Q : Unit → Bus → Prop} {R D : Bus → Prop}

theorem wp_outb (port : UInt16) (val : UInt8) :
    wp (outb drive port val) Q R D b ↔ Q () { b with ata := b.ata.out8 drive port val } := Iff.rfl

theorem wp_inb (port : UInt16) {Q : UInt8 → Bus → Prop} :
    wp (inb drive port) Q R D b ↔ Q (b.ata.in8 drive port) b := Iff.rfl

theorem wp_outw (port : UInt16) (val : UInt16) :
    wp (outw port val) Q R D b ↔ Q () { b with ata := b.ata.out16 port val } := Iff.rfl

theorem wp_inw (port : UInt16) {Q : UInt16 → Bus → Prop} :
    wp (inw port) Q R D b ↔ Q (b.ata.in16 port).1 { b with ata := (b.ata.in16 port).2 } := Iff.rfl

theorem wp_ioWait : wp (ataIoWait drive) Q R D b ↔ Q () b := Iff.rfl

theorem in8_status (a : Ata) : a.in8 drive (ataPrimaryIo + ataRegStatus) = drive.status a := rfl

end Ports

namespace Drive.Ready

variable {Q : Unit → Bus → Prop} {R D : Bus → Prop}

theorem status_ne (h : drive.Ready) (a : Ata) : drive.status a ≠ 0xFF := by
  intro heq
  have hidle := h.idle a
  rw [heq] at hidle
  cases hidle

theorem wp_waitNotBusy (h : drive.Ready) :
    wp (ataWaitNotBusy drive ataWaitRounds) Q R D b ↔ Q () b := by
  change wp (ataWaitNotBusy drive (0x3FFF + 1)) Q R D b ↔ _
  rw [ataWaitNotBusy, wp_bind, wp_inb, in8_status, if_neg (h.status_ne b.ata),
    if_pos (h.idle b.ata), wp_require]
  simp [h.noError b.ata]

theorem wp_waitDrq (h : drive.Ready) (hb : b.ata.Transferring) :
    wp (ataWaitDrq drive ataWaitRounds) Q R D b ↔ Q () b := by
  change wp (ataWaitDrq drive (0x3FFF + 1)) Q R D b ↔ _
  rw [ataWaitDrq, wp_bind, wp_inb, in8_status, if_neg (h.status_ne b.ata),
    if_neg (by simp [h.noError b.ata]), if_pos ⟨h.idle b.ata, h.request b.ata hb⟩]
  exact Iff.rfl

theorem wp_start (h : drive.Ready) {lba : UInt32} {cmd : UInt8}
    (hcmd : ((b.ata.addressed lba).command drive cmd).Transferring) :
    wp (ataStart drive lba cmd) Q R D b ↔
      Q () { b with ata := (b.ata.addressed lba).command drive cmd } := by
  simp only [ataStart, ataSelectDrive, wp_bind, wp_outb, wp_ioWait]
  exact h.wp_waitDrq (b := { b with ata := (b.ata.addressed lba).command drive cmd }) hcmd

end Drive.Ready

/-! ## Words -/

namespace Ata

/-- So many words of a run of bytes. -/
def wordsFrom (f : Nat → UInt8) (n : Nat) : List UInt16 :=
  (List.range n).map fun i => Bytes.word16 (f (2 * i)) (f (2 * i + 1))

theorem wordsFrom_succ (f : Nat → UInt8) (n : Nat) : wordsFrom f (n + 1) =
    Bytes.word16 (f 0) (f 1) :: wordsFrom (fun i => f (i + 2)) n := by
  simp only [wordsFrom, List.range_succ_eq_map, List.map_cons, List.map_map]
  rfl

theorem word16_low (lo hi : UInt8) : (Bytes.word16 lo hi).toUInt8 = lo := by
  apply UInt8.toNat.inj
  have hlo := lo.toNat_lt
  have hhi := hi.toNat_lt
  rw [UInt16.toNat_toUInt8, Bytes.word16, UInt16.toNat_ofNat']
  omega

theorem word16_high (lo hi : UInt8) : (Bytes.word16 lo hi >>> 8).toUInt8 = hi := by
  apply UInt8.toNat.inj
  have hlo := lo.toNat_lt
  have hhi := hi.toNat_lt
  rw [UInt16.toNat_toUInt8, UInt16.toNat_shiftRight, Nat.shiftRight_eq_div_pow, Bytes.word16,
    UInt16.toNat_ofNat']
  change _ / 2 ^ 8 % _ = _
  omega

/-- `(u16)buffer[0] | ((u16)buffer[1] << 8)`. -/
theorem word16_eq_or (lo hi : UInt8) : lo.toUInt16 ||| (hi.toUInt16 <<< 8) = Bytes.word16 lo hi := by
  apply UInt16.toNat.inj
  have hlo := lo.toNat_lt
  have hhi := hi.toNat_lt
  have hshift : (hi.toUInt16 <<< 8).toNat = hi.toNat <<< 8 := by
    rw [UInt16.toNat_shiftLeft, UInt8.toNat_toUInt16]
    change hi.toNat <<< 8 % 2 ^ 16 = _
    rw [Nat.shiftLeft_eq, Nat.mod_eq_of_lt (by omega)]
  rw [UInt16.toNat_or, hshift, UInt8.toNat_toUInt16, Nat.or_comm,
    ← Nat.shiftLeft_add_eq_or_of_lt hlo, Nat.shiftLeft_eq, Bytes.word16, UInt16.toNat_ofNat']
  omega

theorem wordByte_wordsFrom (f : Nat → UInt8) {n i : Nat} (hi : i < 2 * n) :
    wordByte (wordsFrom f n) i = f i := by
  have hhalf : i / 2 < n := by omega
  have hword : (wordsFrom f n).getD (i / 2) 0 =
      Bytes.word16 (f (2 * (i / 2))) (f (2 * (i / 2) + 1)) := by
    simp [wordsFrom, List.getD_eq_getElem?_getD, hhalf]
  rw [wordByte, hword]
  by_cases heven : i % 2 = 0
  · rw [if_pos heven, word16_low]
    congr 1
    omega
  · rw [if_neg heven, word16_high]
    congr 1
    omega

theorem wordByte_cons (word : UInt16) (words : List UInt16) (i : Nat) :
    wordByte (word :: words) i =
      if i < 2 then if i = 0 then (word &&& 0xFF).toUInt8 else (word >>> 8).toUInt8
      else wordByte words (i - 2) := by
  have hmask : (word &&& 0xFF).toUInt8 = word.toUInt8 := by
    apply UInt8.toNat.inj
    rw [UInt16.toNat_toUInt8, UInt16.toNat_toUInt8, UInt16.toNat_and]
    change (word.toNat &&& 2 ^ 8 - 1) % _ = _
    rw [Nat.and_two_pow_sub_one_eq_mod]
    omega
  by_cases hi : i < 2
  · rw [if_pos hi, hmask]
    have hhalf : i / 2 = 0 := by omega
    by_cases h0 : i = 0
    · rw [if_pos h0, wordByte, if_pos (by omega), hhalf]
      rfl
    · rw [if_neg h0, wordByte, if_neg (by omega), hhalf]
      rfl
  · obtain ⟨k, rfl⟩ : ∃ k, i = k + 2 := ⟨i - 2, by omega⟩
    have hhalf : (k + 2) / 2 = k / 2 + 1 := by omega
    have hparity : (k + 2) % 2 = k % 2 := by omega
    rw [if_neg hi, wordByte, wordByte, hhalf, hparity, Nat.add_sub_cancel]
    rfl

end Ata

open Ata

def blockAt (m : Memory) (a : Nat) : Block := fun i => m.byte (a + i)

theorem blockOf_wordsFrom (m : Memory) (a : Nat) :
    blockOf (wordsFrom (fun i => m.byte (a + i)) 256) = blockAt m a := by
  funext i
  have hi : i.val < 2 * 256 := i.isLt
  exact wordByte_wordsFrom (fun i => m.byte (a + i)) hi

section Words

variable {Q : Nat → Bus → Prop} {R D : Bus → Prop}

/-- Induction on the words that are waiting. -/
theorem wp_readWords {words : List UInt16} {buffer : Nat} (hphase : b.ata.phase = .reading words) :
    wp (readWords words.length buffer) Q R D b ↔
      Q (buffer + 2 * words.length) ⟨{ b.ata with phase := .reading [] },
        b.mem.fill buffer (2 * words.length) (wordByte words)⟩ := by
  induction words generalizing b buffer with
  | nil =>
      have hmem : b.mem.fill buffer (2 * ([] : List UInt16).length) (wordByte []) = b.mem :=
        Memory.fill_zero _ _ _
      rw [hmem, ← hphase]
      exact Iff.rfl
  | cons word words ih =>
      have hin : b.ata.in16 (ataPrimaryIo + ataRegData) =
          (word, { b.ata with phase := .reading words }) := by
        simp [in16, hphase]
      rw [List.length_cons, readWords, wp_bind, wp_inw, hin]
      simp only [wp_bind, wp_modify]
      rw [ih rfl, Memory.store8_store8, Memory.fill_fill]
      have hlen : 2 + 2 * words.length = 2 * (words.length + 1) := by omega
      have hmem := b.mem.fill_congr buffer (n := 2 * (words.length + 1)) fun i _ =>
        (wordByte_cons word words i).symm
      rw [hlen, hmem, Nat.add_assoc, hlen]

/-- Induction on the words that are missing, of which there is one at least. -/
theorem wp_writeWords {sector n buffer : Nat} {got : List UInt16}
    (hphase : b.ata.phase = .writing sector got) (hlen : got.length + n = 255) :
    wp (writeWords (n + 1) buffer) Q R D b ↔
      Q (buffer + 2 * (n + 1)) { b with ata := { b.ata with
        phase := .idle
        disk := assign b.ata.disk sector
          (blockOf (got ++ wordsFrom (fun i => b.mem.byte (buffer + i)) (n + 1))) } } := by
  induction n generalizing b buffer got with
  | zero =>
      have hout : ∀ w, b.ata.out16 (ataPrimaryIo + ataRegData) w = { b.ata with
          phase := .idle, disk := assign b.ata.disk sector (blockOf (got ++ [w])) } := by
        intro w
        simp [out16, hphase, show got.length = 255 by omega]
      simp only [writeWords, wp_bind, wp_get, wp_outw, hout, word16_eq_or]
      exact Iff.rfl
  | succ n ih =>
      have hout : ∀ w, b.ata.out16 (ataPrimaryIo + ataRegData) w = { b.ata with
          phase := .writing sector (got ++ [w]) } := by
        intro w
        simp [out16, hphase, show got.length ≠ 255 by omega]
      have hend : buffer + 2 * (n + 1 + 1) = buffer + 2 + 2 * (n + 1) := by omega
      have hwords : got ++ wordsFrom (fun i => b.mem.byte (buffer + i)) (n + 1 + 1) =
          got ++ [Bytes.word16 (b.mem.load8 buffer) (b.mem.load8 (buffer + 1))] ++
            wordsFrom (fun i => b.mem.byte (buffer + 2 + i)) (n + 1) := by
        have hbyte : ∀ i, b.mem.byte (buffer + (i + 2)) = b.mem.byte (buffer + 2 + i) := fun i => by
          congr 1
          omega
        rw [wordsFrom_succ, List.append_assoc]
        simp only [hbyte]
        rfl
      rw [writeWords]
      simp only [wp_bind, wp_get, wp_outw, hout, word16_eq_or]
      rw [ih rfl (by simp; omega), hend, hwords]

end Words

/-! ## Sectors -/

def stored (disk : Nat → Block) : UInt32 → Nat → (Nat → Block) → Nat → Block
  | _, 0, _ => disk
  | lba, n + 1, data =>
      stored (assign disk (lba.toNat % 2 ^ 28) (data 0)) (lba + 1) n fun k => data (k + 1)

namespace Drive.Ready

/-- Induction on the sectors. -/
theorem readLoop_spec (h : drive.Ready) (n : Nat) (lba : UInt32) (buffer : Nat) (b : Bus) :
    wp (ataReadLoop drive n lba buffer)
      (fun _ b' => b'.ata.disk = b.ata.disk ∧ b'.mem = b.mem.fill buffer (512 * n)
        fun i => (b.ata.disk ((lba.toNat + i / 512) % 2 ^ 28)).at_ (i % 512))
      (fun _ => False) (fun _ => False) b := by
  induction n generalizing lba buffer b with
  | zero => exact ⟨rfl, (Memory.fill_zero _ _ _).symm⟩
  | succ n ih =>
      let ata := b.ata.addressed lba
      have hwords : (b.ata.addressed lba).command drive ataCmdReadPio =
          { ata with phase := .reading (wordsOf (b.ata.disk (lba.toNat % 2 ^ 28))) } := by
        rw [← addressed_selected b.ata lba]
        rfl
      have hlen : (wordsOf (b.ata.disk (lba.toNat % 2 ^ 28))).length = 256 := by simp [wordsOf]
      have hbyte : ∀ i, i < 512 → wordByte (wordsOf (b.ata.disk (lba.toNat % 2 ^ 28))) i =
          (b.ata.disk (lba.toNat % 2 ^ 28)).at_ i := fun i hi =>
        wordByte_wordsFrom (b.ata.disk (lba.toNat % 2 ^ 28)).at_ (n := 256) (by omega)
      have hnext : (lba + 1).toNat % 2 ^ 28 = (lba.toNat + 1) % 2 ^ 28 := by
        rw [UInt32.toNat_add]
        change (lba.toNat + 1) % 2 ^ 32 % 2 ^ 28 = _
        omega
      rw [ataReadLoop, wp_bind, h.wp_start, wp_bind, hwords, ← hlen, wp_readWords rfl, hlen]
      · refine wp_mono (ih (lba + 1) (buffer + 512) _) ?_ (fun _ h => h) fun _ h => h
        intro _ b' hb'
        obtain ⟨hdisk, hmem⟩ := hb'
        refine ⟨hdisk, ?_⟩
        rw [hmem, Memory.fill_fill, show 512 + 512 * n = 512 * (n + 1) by omega]
        refine Memory.fill_congr _ _ fun i _ => ?_
        by_cases hi : i < 512
        · rw [if_pos hi, hbyte i hi, show i / 512 = 0 by omega, show i % 512 = i by omega,
            Nat.add_zero]
        · have hsector : ((lba + 1).toNat + (i - 512) / 512) % 2 ^ 28 =
              (lba.toNat + i / 512) % 2 ^ 28 := by omega
          rw [if_neg hi, hsector, show (i - 512) % 512 = i % 512 by omega]
          rfl
      · rw [hwords]
        change wordsOf _ ≠ []
        simp [wordsOf]

theorem writeLoop_spec (h : drive.Ready) (n : Nat) (lba : UInt32) (buffer : Nat) (b : Bus) :
    wp (ataWriteLoop drive n lba buffer)
      (fun _ b' => b'.mem = b.mem ∧ b'.ata.disk =
        stored b.ata.disk lba n fun k => blockAt b.mem (buffer + 512 * k))
      (fun _ => False) (fun _ => False) b := by
  induction n generalizing lba buffer b with
  | zero => exact ⟨rfl, rfl⟩
  | succ n ih =>
      have hphase : (b.ata.addressed lba).command drive ataCmdWritePio =
          { b.ata.addressed lba with phase := .writing (lba.toNat % 2 ^ 28) [] } := by
        rw [← addressed_selected b.ata lba]
        rfl
      rw [ataWriteLoop, wp_bind, h.wp_start, wp_bind, hphase, wp_writeWords rfl rfl, wp_bind,
        wp_outb, wp_bind, wp_ioWait, wp_bind, h.wp_waitNotBusy]
      · refine wp_mono (ih (lba + 1) (buffer + 512) _) ?_ (fun _ h => h) fun _ h => h
        intro _ b' hb'
        obtain ⟨hmem, hdisk⟩ := hb'
        refine ⟨hmem, ?_⟩
        have hdata : (fun k => blockAt b.mem (buffer + 512 + 512 * k)) =
            fun k => blockAt b.mem (buffer + 512 * (k + 1)) := by
          funext k
          rw [show buffer + 512 + 512 * k = buffer + 512 * (k + 1) by omega]
        rw [hdisk]
        change stored (assign _ _ (blockOf (wordsFrom (fun i => b.mem.byte (buffer + i)) 256)))
          _ _ (fun k => blockAt b.mem (buffer + 512 + 512 * k)) = _
        rw [blockOf_wordsFrom, hdata]
        rfl
      · rw [hphase]
        trivial

theorem readSectors_spec (h : drive.Ready) (lba : UInt32) (buffer : Nat) (count : UInt32)
    (b : Bus) :
    wp (ataReadSectors drive lba buffer count)
      (fun _ b' => b'.ata.disk = b.ata.disk ∧ b'.mem = b.mem.fill buffer (512 * count.toNat)
        fun i => (b.ata.disk ((lba.toNat + i / 512) % 2 ^ 28)).at_ (i % 512))
      (fun _ => False) (fun _ => False) b := by
  by_cases hcount : count = 0
  · rw [ataReadSectors, if_pos hcount, hcount]
    exact h.readLoop_spec 0 lba buffer b
  · rw [ataReadSectors, if_neg hcount]
    exact h.readLoop_spec count.toNat lba buffer b

theorem writeSectors_spec (h : drive.Ready) (lba : UInt32) (buffer : Nat) (count : UInt32)
    (b : Bus) :
    wp (ataWriteSectors drive lba buffer count)
      (fun _ b' => b'.mem = b.mem ∧ b'.ata.disk =
        stored b.ata.disk lba count.toNat fun k => blockAt b.mem (buffer + 512 * k))
      (fun _ => False) (fun _ => False) b := by
  by_cases hcount : count = 0
  · rw [ataWriteSectors, if_pos hcount, hcount]
    exact h.writeLoop_spec 0 lba buffer b
  · rw [ataWriteSectors, if_neg hcount]
    exact h.writeLoop_spec count.toNat lba buffer b

end Drive.Ready

/-- Below sector 2^28 everything is stored where it belongs. -/
theorem stored_eq (disk : Nat → Block) (lba : UInt32) (n : Nat) (data : Nat → Block)
    (h : lba.toNat + n ≤ 2 ^ 28) (sector : Nat) : stored disk lba n data sector =
      if lba.toNat ≤ sector ∧ sector < lba.toNat + n then data (sector - lba.toNat)
      else disk sector := by
  induction n generalizing disk lba data with
  | zero => rw [stored, if_neg (by omega)]
  | succ n ih =>
      have hnext : (lba + 1).toNat = lba.toNat + 1 := by
        rw [UInt32.toNat_add]
        change (lba.toNat + 1) % 2 ^ 32 = _
        omega
      rw [stored, ih _ _ _ (by omega), hnext, Nat.mod_eq_of_lt (by omega), assign_apply]
      by_cases hfirst : sector = lba.toNat
      · rw [if_neg (by omega), if_pos hfirst, if_pos (by omega), hfirst, Nat.sub_self]
      · by_cases hrest : lba.toNat + 1 ≤ sector ∧ sector < lba.toNat + 1 + n
        · rw [if_pos hrest, if_pos (by omega),
            show sector - (lba.toNat + 1) + 1 = sector - lba.toNat by omega]
        · rw [if_neg hrest, if_neg hfirst, if_neg (by omega)]

/-- The sectors of the range have numbers of 28 bits. -/
def Addressable (lba count : UInt32) : Prop := count = 0 ∨ lba.toNat + count.toNat ≤ 2 ^ 28

/-- What was written is there, nothing else changed, and it is read back, from
whatever memory the read starts; a range that cannot be addressed is refused. -/
structure StoresAndFetches (drive : Drive) (lba : UInt32) (buffer : Nat) (count : UInt32)
    (b : Bus) : Prop where
  stores : (ataWriteSectors drive lba buffer count b).1 = .ok () → ∀ sector,
    (ataWriteSectors drive lba buffer count b).2.ata.disk sector =
      if lba.toNat ≤ sector ∧ sector < lba.toNat + count.toNat then
        blockAt b.mem (buffer + 512 * (sector - lba.toNat))
      else b.ata.disk sector
  fetches : (ataWriteSectors drive lba buffer count b).1 = .ok () → ∀ (b' : Bus) (buffer' : Nat),
    b'.ata.disk = (ataWriteSectors drive lba buffer count b).2.ata.disk →
    (ataReadSectors drive lba buffer' count b').1 = .ok () → ∀ i, i < 512 * count.toNat →
      (ataReadSectors drive lba buffer' count b').2.mem.byte (buffer' + i) =
        b.mem.byte (buffer + i)
  refuses : ¬ Addressable lba count →
    (ataWriteSectors drive lba buffer count b).1 = .refused ∧
      (ataWriteSectors drive lba buffer count b).2.ata.disk = b.ata.disk

theorem Drive.Ready.writeSectors_run (h : drive.Ready) (lba : UInt32) (buffer : Nat)
    (count : UInt32) (b : Bus) :
    (ataWriteSectors drive lba buffer count b).1 = .ok () ∧
      (ataWriteSectors drive lba buffer count b).2.ata.disk =
        stored b.ata.disk lba count.toNat fun k => blockAt b.mem (buffer + 512 * k) := by
  rcases wp_run (h.writeSectors_spec lba buffer count b) rfl with ⟨_, ho, h'⟩ | ⟨-, hf⟩ | ⟨-, hf⟩
  · exact ⟨ho, h'.2⟩
  · exact hf.elim
  · exact hf.elim

theorem Drive.Ready.readSectors_run (h : drive.Ready) (lba : UInt32) (buffer : Nat)
    (count : UInt32) (b : Bus) :
    (ataReadSectors drive lba buffer count b).1 = .ok () ∧
      (ataReadSectors drive lba buffer count b).2.mem = b.mem.fill buffer (512 * count.toNat)
        fun i => (b.ata.disk ((lba.toNat + i / 512) % 2 ^ 28)).at_ (i % 512) := by
  rcases wp_run (h.readSectors_spec lba buffer count b) rfl with ⟨_, ho, h'⟩ | ⟨-, hf⟩ | ⟨-, hf⟩
  · exact ⟨ho, h'.2⟩
  · exact hf.elim
  · exact hf.elim

/-- The driver always reports success, which is right up to sector 2^28 and no further. -/
theorem ataWriteSectors_stores (h : drive.Ready) (lba : UInt32) (buffer : Nat) (count : UInt32)
    (b : Bus) :
    (ataWriteSectors drive lba buffer count b).1 = .ok () ∧
      (StoresAndFetches drive lba buffer count b ↔ Addressable lba count) := by
  obtain ⟨hok, hdisk⟩ := h.writeSectors_run lba buffer count b
  refine ⟨hok, ?_, ?_⟩
  · intro hall
    by_contra haddr
    rw [(hall.refuses haddr).1] at hok
    cases hok
  · intro haddr
    have hstored : ∀ sector, (ataWriteSectors drive lba buffer count b).2.ata.disk sector =
        if lba.toNat ≤ sector ∧ sector < lba.toNat + count.toNat then
          blockAt b.mem (buffer + 512 * (sector - lba.toNat))
        else b.ata.disk sector := by
      intro sector
      rw [hdisk]
      cases haddr with
      | inl h0 =>
          subst h0
          exact (if_neg (by simp)).symm
      | inr hle => exact stored_eq _ _ _ _ hle sector
    refine ⟨fun _ => hstored, ?_, fun hno => (hno haddr).elim⟩
    intro _ b' buffer' hsame _ i hi
    have hlow : lba.toNat + count.toNat ≤ 2 ^ 28 := by
      cases haddr with
      | inl h0 => rw [h0] at hi; simp at hi
      | inr hle => exact hle
    rw [(h.readSectors_run lba buffer' count b').2, hsame]
    simp only [Memory.fill]
    rw [if_pos (by omega), Nat.add_sub_cancel_left, Nat.mod_eq_of_lt (by omega), hstored,
      if_pos (by omega), Nat.add_sub_cancel_left, Bytes.at_, dif_pos (by omega)]
    simp only [blockAt]
    congr 1
    omega

def Drive.ideal : Drive where
  status := fun a =>
    match a.phase with
    | .idle => 0x50
    | _ => 0x58
  identify := fun _ => 0

def Bus.booted : Bus where
  ata := ⟨0, 0, 0, 0, 0, .idle, fun _ => Bytes.zero⟩
  mem := ⟨fun a => UInt8.ofNat a⟩

theorem Drive.ideal_ready : Drive.ideal.Ready := by
  have status : ∀ a : Ata, ideal.status a = 0x50 ∨ ideal.status a = 0x58 := by
    intro a
    simp only [ideal]
    split
    · exact .inl rfl
    · exact .inr rfl
  refine ⟨fun a => ?_, fun a => ?_, fun a ha => ?_⟩
  · rcases status a with h | h <;> rw [h] <;> rfl
  · rcases status a with h | h <;> rw [h] <;> rfl
  · cases hphase : a.phase with
    | idle => simp [Transferring, hphase] at ha
    | reading rest =>
        have hstatus : ideal.status a = 0x58 := by simp [ideal, hphase]
        rw [hstatus]
        decide
    | writing sector got =>
        have hstatus : ideal.status a = 0x58 := by simp [ideal, hphase]
        rw [hstatus]
        decide

/-- Three sectors of data. -/
theorem ataWriteSectors_stores_data :
    (ataWriteSectors Drive.ideal 145 4096 3 Bus.booted).1 = .ok () ∧
      StoresAndFetches Drive.ideal 145 4096 3 Bus.booted := by
  have h := ataWriteSectors_stores Drive.ideal_ready 145 4096 3 Bus.booted
  exact ⟨h.1, h.2.mpr (.inr (by decide))⟩

/-- The sector 2^28 is not refused: it is stored in sector 0. -/
theorem not_ataWriteSectors_stores :
    (ataWriteSectors Drive.ideal 0x10000000 4096 1 Bus.booted).1 = .ok () ∧
      (ataWriteSectors Drive.ideal 0x10000000 4096 1 Bus.booted).2.ata.disk 0 =
        blockAt Bus.booted.mem 4096 ∧
      ¬ ∀ (drive : Drive), drive.Ready → ∀ (lba : UInt32) (buffer : Nat) (count : UInt32)
        (b : Bus), lba.toNat + count.toNat ≤ 2 ^ 32 →
        StoresAndFetches drive lba buffer count b := by
  have hrun := Drive.ideal_ready.writeSectors_run 0x10000000 4096 1 Bus.booted
  refine ⟨hrun.1, ?_, fun hall => ?_⟩
  · rw [hrun.2]
    rfl
  · have hrefused := (hall _ Drive.ideal_ready 0x10000000 4096 1 Bus.booted (by decide)).refuses
      (by unfold Addressable; decide)
    rw [hrun.1] at hrefused
    cases hrefused.1

/-! ## The device of the file system -/

section Device

theorem wp_identifyWords {Q : List UInt16 → Bus → Prop} {R D : Bus → Prop} {words : List UInt16}
    (data : List UInt16) (hphase : b.ata.phase = .reading words) :
    wp (identifyWords words.length data) Q R D b ↔
      Q (data ++ words) { b with ata := { b.ata with phase := .reading [] } } := by
  induction words generalizing b data with
  | nil =>
      rw [← hphase, List.append_nil]
      exact Iff.rfl
  | cons word words ih =>
      have hin : b.ata.in16 (ataPrimaryIo + ataRegData) =
          (word, { b.ata with phase := .reading words }) := by
        simp [in16, hphase]
      rw [List.length_cons, identifyWords, wp_bind, wp_inw, hin, ih _ rfl, List.append_assoc]
      rfl

/-- The device that a drive is to the file system. -/
def Drive.device (drive : Drive) (pastSb : Fs → Bytes 480) (frame : CallFrame) : Device where
  sectorCount :=
    if sectorsOf (List.ofFn drive.identify) ≠ 0 then some (sectorsOf (List.ofFn drive.identify))
    else none
  readFails := fun _ _ => false
  writeFault := fun _ _ => none
  pastSb := pastSb
  frame := frame

theorem Drive.device_perfect (drive : Drive) (pastSb : Fs → Bytes 480) (frame : CallFrame) :
    (drive.device pastSb frame).Perfect := ⟨fun _ _ => rfl, fun _ _ => rfl⟩

/-- Any count that fits in 64 bits is taken from the drive. -/
theorem ataGetSectorCount_run (h : drive.Ready) (pastSb : Fs → Bytes 480) (frame : CallFrame)
    (b : Bus) :
    (ataGetSectorCount drive b).1 = (drive.device pastSb frame).sectorCount.elim .refused .ok := by
  let ata : Ata := { b.ata with hddevsel := 0xA0, seccount0 := 0, lba0 := 0, lba1 := 0, lba2 := 0 }
  let words := List.ofFn drive.identify
  let asked : Bus := { b with ata := { ata with phase := .reading words } }
  have hlen : words.length = 256 := List.length_ofFn
  have hask : asked.ata.Transferring := by
    intro hnil
    change words = [] at hnil
    simp [hnil] at hlen
  have hstatus : ¬ (drive.status asked.ata = 0 ∨ drive.status asked.ata = 0xFF) := by
    intro hor
    cases hor with
    | inl h0 => exact h.request asked.ata hask (by rw [h0]; rfl)
    | inr hff => exact h.status_ne asked.ata hff
  apply wp_outcome
  simp only [ataGetSectorCount, wp_bind, wp_outb, wp_ioWait, wp_inb]
  change wp (require (¬ (drive.status asked.ata = 0 ∨ drive.status asked.ata = 0xFF))) _ _ _ asked
  rw [wp_require]
  refine ⟨fun _ => ?_, fun hno => (hno hstatus).elim⟩
  rw [h.wp_waitDrq hask, ← hlen, wp_identifyWords [] rfl, List.nil_append]
  by_cases hzero : sectorsOf words ≠ 0
  · simp only [wp_require, wp_pure, Drive.device]
    rw [if_pos hzero]
    exact ⟨fun _ => rfl, fun hno => (hno hzero).elim⟩
  · simp only [wp_require, wp_pure, Drive.device]
    rw [if_neg hzero]
    exact ⟨fun hyes => (hzero hyes).elim, fun _ => rfl⟩

/-- The sectors as the file system numbers them. -/
def Bus.sectors (b : Bus) : UInt32 → Block := fun lba => b.ata.disk lba.toNat

theorem writeSectors_apply (disk : UInt32 → Block) (lba : UInt32) (n : Nat)
    (content : Nat → Block) (h : lba.toNat + n ≤ 2 ^ 32) (l : UInt32) :
    Volume.writeSectors disk lba n content l =
      if lba.toNat ≤ l.toNat ∧ l.toNat < lba.toNat + n then content (l.toNat - lba.toNat)
      else disk l := by
  have hsum : ∀ k, k < n → (lba + UInt32.ofNat k).toNat = lba.toNat + k := by
    intro k hk
    rw [UInt32.toNat_add, UInt32.toNat_ofNat']
    omega
  by_cases hin : lba.toNat ≤ l.toNat ∧ l.toNat < lba.toNat + n
  · have hl : l = lba + UInt32.ofNat (l.toNat - lba.toNat) := by
      apply UInt32.toNat.inj
      rw [hsum _ (by omega)]
      omega
    rw [if_pos hin]
    conv_lhs => rw [hl]
    exact Volume.writeSectors_inside _ _ _ _ (by omega) (by omega)
  · rw [if_neg hin, Volume.writeSectors_outside]
    intro k hk heq
    rw [heq, hsum k hk] at hin
    omega

/-- On a range of 28-bit sectors the driver does what the file system takes its disk
for. -/
theorem driver_refines (h : drive.Ready) {dev : Device} (hp : dev.Perfect) {s : Fs}
    (hdisk : s.disk = b.sectors) {lba count : UInt32} (hlow : lba.toNat + count.toNat ≤ 2 ^ 28)
    (object buffer : Nat) :
    ((diskWriteSectors dev object lba count.toNat
        (fun k => blockAt b.mem (buffer + 512 * k))) s).2.disk =
      (ataWriteSectors drive lba buffer count b).2.sectors ∧
    ∀ k, k < count.toNat →
      blockAt (ataReadSectors drive lba buffer count b).2.mem (buffer + 512 * k) =
        s.disk (lba + UInt32.ofNat k) := by
  constructor
  · have hwrite : ((diskWriteSectors dev object lba count.toNat
          (fun k => blockAt b.mem (buffer + 512 * k))) s).2.disk =
        Volume.writeSectors s.disk lba count.toNat fun k => blockAt b.mem (buffer + 512 * k) := by
      apply Ends.run (I := fun s' : Fs => s'.disk = Volume.writeSectors s.disk lba count.toNat _)
      rw [Ends, hp.wp_writeSectors]
      rfl
    funext l
    rw [hwrite, writeSectors_apply _ _ _ _ (by omega), Bus.sectors,
      (h.writeSectors_run lba buffer count b).2, stored_eq _ _ _ _ hlow, hdisk]
    rfl
  · intro k hk
    have hsector : (lba + UInt32.ofNat k).toNat = lba.toNat + k := by
      rw [UInt32.toNat_add, UInt32.toNat_ofNat']
      omega
    rw [(h.readSectors_run lba buffer count b).2, hdisk, Bus.sectors, hsector]
    funext i
    have hi := i.isLt
    simp only [blockAt, Memory.fill]
    rw [if_pos (by omega), show (buffer + 512 * k + i.val - buffer) / 512 = k by omega,
      show (buffer + 512 * k + i.val - buffer) % 512 = i.val by omega,
      Nat.mod_eq_of_lt (by omega), Bytes.at_, dif_pos hi]

end Device

end SevenOS
