import SevenOS.Drivers.Typing
import SevenOS.Console.Screen

/-! # Line input

`readl` keeps its text NUL-terminated in a buffer of 256 bytes and returns the text
of the flag, which is the text that was typed as long as no shift key is lost.
-/

namespace SevenOS

namespace Keyboard

variable {k : Keyboard} {line : Line} {text : List UInt8}

/-! ## The buffer -/

/-- The buffer holds a text and its terminator. -/
structure Line.Holds (line : Line) (text : List UInt8) : Prop where
  length : line.length = text.length
  fits : text.length ≤ 255
  noNul : ∀ c ∈ text, c ≠ 0
  bytes : ∀ i, i ≤ text.length → line.buffer.at_ i = text.getD i 0

theorem Line.Holds.takeWhile (h : line.Holds text) :
    (CStr.ofBytes (line.buffer.suffix 0)).chars = text := by
  have scan : ∀ (rest : List UInt8) (off : Nat), off + rest.length ≤ 255 → (∀ c ∈ rest, c ≠ 0) →
      (∀ i, i ≤ rest.length → line.buffer.at_ (off + i) = rest.getD i 0) →
      (line.buffer.suffix off).takeWhile (· ≠ 0) = rest := by
    intro rest
    induction rest with
    | nil =>
        intro off hoff _ hbytes
        have hend : line.buffer.at_ off = 0 := hbytes 0 (Nat.le_refl 0)
        rw [Bytes.suffix_cons _ (by simp at hoff; omega), hend]
        rfl
    | cons c rest ih =>
        intro off hoff hnul hbytes
        have hfirst : line.buffer.at_ off = c := hbytes 0 (Nat.zero_le _)
        rw [List.length_cons] at hoff
        rw [Bytes.suffix_cons _ (by omega), hfirst,
          List.takeWhile_cons_of_pos (by simpa using hnul c List.mem_cons_self),
          ih (off + 1) (by omega) fun d hd => hnul d (List.mem_cons_of_mem _ hd)]
        intro i hi
        have hnext := hbytes (i + 1) (Nat.succ_le_succ hi)
        rw [Nat.add_assoc, Nat.add_comm 1]
        exact hnext
  exact scan text 0 (by have := h.fits; omega) h.noNul fun i hi => by
    rw [Nat.zero_add]
    exact h.bytes i hi

theorem holds_nil (buffer : Bytes 256) : Line.Holds ⟨buffer.put 0 0, 0⟩ [] := by
  refine ⟨rfl, by decide, by simp, fun i hi => ?_⟩
  rw [List.length_nil] at hi
  rw [Bytes.at_put _ _ _ (by omega), if_pos (by omega)]
  rfl

theorem typed_holds (h : line.Holds text) (c : UInt8) :
    (k.typed line c).2.Holds (keep text c) ∧
      (k.typed line c).1.shiftPressed = k.shiftPressed := by
  have hfits := h.fits
  have hlen := h.length
  rw [typed]
  by_cases hback : c = Vga.backspace
  · have hne : c ≠ 0 := by
      rw [hback]
      decide
    rw [if_pos hback, keep, if_neg hne, if_pos hback]
    by_cases hpos : 0 < line.length
    · rw [if_pos hpos]
      refine ⟨⟨?_, ?_, ?_, ?_⟩, rfl⟩
      · simp only [List.length_dropLast, hlen]
      · rw [List.length_dropLast]
        omega
      · exact fun d hd => h.noNul d (List.mem_of_mem_dropLast hd)
      · intro i hi
        rw [List.length_dropLast] at hi
        simp only
        rw [Bytes.at_put _ _ _ (by omega)]
        by_cases hend : i = line.length - 1
        · rw [if_pos hend, List.getD_eq_default _ _ (by rw [List.length_dropLast]; omega)]
        · rw [if_neg hend, h.bytes i (by omega), List.getD_eq_getElem _ _ (by omega),
            List.getD_eq_getElem _ _ (by rw [List.length_dropLast]; omega), List.getElem_dropLast]
    · have hnil : text = [] := List.length_eq_zero_iff.mp (by omega)
      rw [if_neg hpos]
      subst hnil
      exact ⟨h, rfl⟩
  · rw [if_neg hback, keep]
    by_cases hzero : c = 0
    · rw [if_neg (fun hand => hand.1 hzero), if_pos hzero]
      exact ⟨h, rfl⟩
    · rw [if_neg hzero, if_neg hback]
      by_cases hroom : text.length < 255
      · rw [if_pos ⟨hzero, by omega⟩, if_pos hroom]
        refine ⟨⟨?_, ?_, ?_, ?_⟩, rfl⟩
        · simp only [List.length_append, List.length_singleton, hlen]
        · rw [List.length_append, List.length_singleton]
          omega
        · intro d hd
          rcases List.mem_append.mp hd with hd | hd
          · exact h.noNul d hd
          · rw [List.mem_singleton.mp hd]
            exact hzero
        · intro i hi
          rw [List.length_append, List.length_singleton] at hi
          simp only
          rw [Bytes.at_put _ _ _ (by omega), Bytes.at_put _ _ _ (by omega)]
          by_cases hend : i = line.length + 1
          · rw [if_pos hend, List.getD_eq_default _ _ (by simp; omega)]
          · rw [if_neg hend]
            by_cases hlast : i = line.length
            · rw [if_pos hlast, List.getD_append_right _ _ _ _ (by omega), hlast, hlen,
                Nat.sub_self]
              rfl
            · rw [if_neg hlast, h.bytes i (by omega), List.getD_append _ _ _ _ (by omega)]
      · rw [if_neg (fun hand => hroom (by omega)), if_neg hroom]
        exact ⟨h, rfl⟩

/-! ## The loop -/

theorem charOf_newLine (scancode : UInt8) :
    k.charOf (keyOf scancode) = Vga.newLine ↔ keyOf scancode = enter := by
  rw [charOf]
  split
  · exact (kbdMap_newLine scancode).2
  · exact (kbdMap_newLine scancode).1

theorem eq_enter {scancode : UInt8} (hpress : isRelease scancode = false)
    (hkey : keyOf scancode = enter) : scancode = enter := by
  have hall : ∀ n, n < 256 → isRelease (UInt8.ofNat n) = false → keyOf (UInt8.ofNat n) = enter →
      UInt8.ofNat n = enter := by decide +kernel
  have h := hall scancode.toNat scancode.toNat_lt
  rw [UInt8.ofNat_toNat] at h
  exact h hpress hkey

/-- Induction on the scancodes before Enter. -/
theorem readlLoop_eq (savedMask : UInt8) (h : line.Holds text) {scancodes : List UInt8}
    (henter : enter ∉ scancodes) (rest : List UInt8) :
    ∃ t k', readlLoop savedMask k line (scancodes ++ enter :: rest) = some (t, k', rest) ∧
      t.chars = (scancodes.foldl Flagged.step ⟨k.shiftPressed, text⟩).text ∧
      k'.shiftPressed = (scancodes.foldl Flagged.step ⟨k.shiftPressed, text⟩).shift := by
  induction scancodes generalizing k line text with
  | nil =>
      have hend : k.charOf (keyOf enter) = Vga.newLine := (charOf_newLine enter).mpr rfl
      refine ⟨CStr.ofBytes (line.buffer.suffix 0), { k.putChar Vga.newLine with picMask := savedMask },
        ?_, h.takeWhile, rfl⟩
      rw [List.nil_append, readlLoop, if_neg (by decide), if_neg (by decide)]
      simp only [hend, if_true]
  | cons scancode scancodes ih =>
      have hrest : enter ∉ scancodes := fun hmem => henter (List.mem_cons_of_mem _ hmem)
      rw [List.cons_append, readlLoop, List.foldl_cons, Flagged.step]
      cases hshift : isShift scancode with
      | true =>
          simp only [if_true]
          exact ih h hrest
      | false =>
          cases hrelease : isRelease scancode with
          | true =>
              simp only [Bool.false_eq_true, if_true, if_false]
              exact ih h hrest
          | false =>
              have hne : k.charOf (keyOf scancode) ≠ Vga.newLine := fun heq =>
                henter (eq_enter hrelease ((charOf_newLine scancode).mp heq) ▸ List.mem_cons_self)
              obtain ⟨htyped, hkept⟩ := typed_holds (k := k) h (k.charOf (keyOf scancode))
              simp only [Bool.false_eq_true, if_false, hne]
              have hloop := ih (k := (k.typed line (k.charOf (keyOf scancode))).1) htyped hrest
              rw [hkept] at hloop
              exact hloop

/-- What `readl` returns ends with the first Enter. -/
theorem readlLoop_enter {savedMask : UInt8} {scancodes rest : List UInt8} {t : CStr}
    {k' : Keyboard} (h : readlLoop savedMask k line scancodes = some (t, k', rest)) :
    ∃ before, scancodes = before ++ enter :: rest ∧ enter ∉ before := by
  induction scancodes generalizing k line with
  | nil => cases h
  | cons scancode scancodes ih =>
      have more : ∀ {k : Keyboard} {line : Line}, scancode ≠ enter →
          readlLoop savedMask k line scancodes = some (t, k', rest) →
          ∃ before, scancode :: scancodes = before ++ enter :: rest ∧ enter ∉ before := by
        intro k line hne hloop
        obtain ⟨before, hbefore, hnot⟩ := ih hloop
        refine ⟨scancode :: before, by rw [hbefore, List.cons_append], fun hmem => ?_⟩
        cases List.mem_cons.mp hmem with
        | inl heq => exact hne heq.symm
        | inr hmem => exact hnot hmem
      rw [readlLoop] at h
      by_cases hshift : isShift scancode = true
      · rw [if_pos hshift] at h
        exact more (fun heq => by rw [heq] at hshift; exact absurd hshift (by decide)) h
      · rw [if_neg hshift] at h
        by_cases hrelease : isRelease scancode = true
        · rw [if_pos hrelease] at h
          exact more (fun heq => by rw [heq] at hrelease; exact absurd hrelease (by decide)) h
        · rw [if_neg hrelease] at h
          by_cases hend : k.charOf (keyOf scancode) = Vga.newLine
          · simp only [hend, if_true, Option.some.injEq, Prod.mk.injEq] at h
            have hkey := eq_enter (by simpa using hrelease) ((charOf_newLine scancode).mp hend)
            exact ⟨[], by rw [hkey, h.2.2]; rfl, by simp⟩
          · simp only [hend, if_false] at h
            exact more (fun heq => hend ((charOf_newLine scancode).mpr (by rw [heq]; rfl))) h

/-! ## The flag over all that was typed -/

/-- The keyboard after everything it sent since the start, some of it by interrupt and
some of it read by `readl`. -/
inductive After : List UInt8 → Keyboard → Prop
  | boot {k : Keyboard} (h : k.shiftPressed = false) : After [] k
  | interrupt {history : List UInt8} {k : Keyboard} {scancode : UInt8} (h : After history k) :
      After (history ++ [scancode]) (k.processScancode scancode)
  | line {history : List UInt8} {k k' : Keyboard} {used rest : List UInt8} {t : CStr}
      (h : After history k) (hread : k.readl (used ++ rest) = some (t, k', rest)) :
      After (history ++ used) k'

theorem processScancode_shift (k : Keyboard) (scancode : UInt8) :
    (k.processScancode scancode).shiftPressed =
      if isShift scancode then !isRelease scancode else k.shiftPressed := by
  have hcommand : k.handleCommand.shiftPressed = k.shiftPressed := by
    simp only [handleCommand, putChar, print]
    split
    · rfl
    · split <;> rfl
  rw [processScancode]
  cases hshift : isShift scancode with
  | true => rfl
  | false =>
      simp only [Bool.false_eq_true, if_false]
      split
      · rfl
      · split
        · exact hcommand
        · split
          · split <;> rfl
          · split <;> rfl

theorem After.flag {history : List UInt8} (h : After history k) :
    k.shiftPressed = (flagged history).shift := by
  induction h with
  | boot h => exact h
  | @interrupt history k scancode _ ih =>
      rw [processScancode_shift, flagged_snoc, Flagged.step, ih]
      split
      · rfl
      · split <;> rfl
  | @line history k k' used rest t _ hread ih =>
      obtain ⟨before, hused, hnot⟩ := readlLoop_enter hread
      have hcut : used = before ++ [enter] := by
        have hwhole : used ++ rest = before ++ [enter] ++ rest := by
          rw [hused, List.append_assoc]
          rfl
        exact List.append_cancel_right hwhole
      obtain ⟨t', k'', hloop, -, hshift⟩ := readlLoop_eq k.picMask
        (k := { k with picMask := k.picMask ||| 0x02 }) (holds_nil fun i => k.stack.byte i) hnot rest
      rw [hused] at hread
      have hsame := Option.some.inj (hread.symm.trans hloop)
      simp only [Prod.mk.injEq, and_true] at hsame
      rw [hsame.2, hshift, hcut, flagged, List.foldl_append, List.foldl_append]
      exact Flagged.foldl_shift before ih

theorem After.released {history : List UInt8} (h : After history k)
    (hup : ∀ key, (typing history).held key = false) : k.shiftPressed = false := by
  rw [h.flag]
  cases hflag : (flagged history).shift with
  | false => rfl
  | true =>
      have hshifted := shifted_of_flagged hflag
      simp [Typing.shifted, hup] at hshifted

/-- From no key held on, `readl` returns what was typed, whenever Enter is pressed, just
when no key is told wrong. -/
theorem readl_decodes {history : List UInt8} (h : After history k)
    (hup : ∀ key, (typing history).held key = false) {scancodes : List UInt8}
    (henter : enter ∉ scancodes) :
    (∀ typedFirst, typedFirst <+: scancodes →
      (k.readl (typedFirst ++ [enter])).map (fun r => r.1.chars) = some (decode typedFirst)) ↔
    Told scancodes := by
  have hread : ∀ typedFirst, typedFirst <+: scancodes →
      (k.readl (typedFirst ++ [enter])).map (fun r => r.1.chars) =
        some (flagged typedFirst).text := by
    intro typedFirst hfirst
    obtain ⟨t, k', hloop, ht, -⟩ := readlLoop_eq k.picMask
      (k := { k with picMask := k.picMask ||| 0x02 }) (holds_nil fun i => k.stack.byte i)
      (fun hmem => henter (hfirst.subset hmem)) []
    rw [readl, hloop, Option.map_some, ht, flagged, ← h.released hup]
  constructor
  · intro hall
    exact told_of_texts fun typedFirst hfirst =>
      Option.some.inj ((hread typedFirst hfirst).symm.trans (hall typedFirst hfirst))
  · intro htold typedFirst hfirst
    obtain ⟨more, rfl⟩ := hfirst
    rw [hread typedFirst (List.prefix_append _ _), flagged_text htold.of_append]

/-- As it is when the kernel starts. -/
def booted : Keyboard := ⟨false, Bytes.zero, 0, 0, Vga.booted, ⟨fun _ => 0⟩⟩

/-- Left shift and H, then I. -/
theorem readl_decodes_hi :
    (∀ typedFirst, typedFirst <+: [0x2A, 0x23, 0xA3, 0xAA, 0x17, 0x97] →
      (booted.readl (typedFirst ++ [enter])).map (fun r => r.1.chars) =
        some (decode typedFirst)) ↔
    Told [0x2A, 0x23, 0xA3, 0xAA, 0x17, 0x97] :=
  readl_decodes (.boot rfl) (fun _ => rfl) (by decide)

/-- Both shift keys are pressed and the right one is let go; the next key is an "a". -/
theorem not_readl_decodes :
    ¬ ∀ (history : List UInt8) (k : Keyboard), After history k →
      (∀ key, (typing history).held key = false) → ∀ scancodes : List UInt8,
      pressedFirst (fun _ => false) scancodes = true → 0xE0 ∉ scancodes → enter ∉ scancodes →
      (k.readl (scancodes ++ [enter])).map (fun r => r.1.chars) = some (decode scancodes) := by
  intro h
  have hread := h [] booted (.boot rfl) (fun _ => rfl) [0x2A, 0x36, 0xB6, 0x1E] (by decide)
    (by decide) (by decide)
  have htext : (booted.readl ([0x2A, 0x36, 0xB6, 0x1E] ++ [enter])).map (fun r => r.1.chars) =
      some [97] := by decide +kernel
  have htyped : decode [0x2A, 0x36, 0xB6, 0x1E] = [65] := by decide
  rw [htext, htyped] at hread
  exact absurd hread (by decide)

end Keyboard

end SevenOS
