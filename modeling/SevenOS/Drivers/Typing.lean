import SevenOS.Drivers.Keyboard

/-! # What is typed

The text that a stream of scancodes stands for, told from the keys that are held,
and the text that `readl` returns. They part when a shift key is let go while the
other one is held: the flag then says that neither is.
-/

namespace SevenOS

def enter : UInt8 := 0x1C

/-! ## The meaning of a stream -/

/-- A character comes to the line; not more than 255 are kept. -/
def keep (text : List UInt8) (c : UInt8) : List UInt8 :=
  if c = 0 then text
  else if c = Vga.backspace then text.dropLast
  else if text.length < 255 then text ++ [c]
  else text

structure Typing where
  held : UInt8 → Bool
  text : List UInt8

namespace Typing

def shifted (t : Typing) : Bool := t.held leftShift || t.held rightShift

def step (t : Typing) (scancode : UInt8) : Typing :=
  if isRelease scancode then { t with held := assign t.held (keyOf scancode) false }
  else
    { held := assign t.held (keyOf scancode) true
      text := keep t.text
        (if t.shifted then kbdMapShift (keyOf scancode) else kbdMap (keyOf scancode)) }

end Typing

/-- From no key held and an empty line on. -/
def typing (scancodes : List UInt8) : Typing := scancodes.foldl Typing.step ⟨fun _ => false, []⟩

def decode (scancodes : List UInt8) : List UInt8 := (typing scancodes).text

/-- Each key is pressed before it is released. -/
def pressedFirst (held : UInt8 → Bool) : List UInt8 → Bool
  | [] => true
  | scancode :: rest =>
      (!isRelease scancode || held (keyOf scancode)) &&
        pressedFirst (assign held (keyOf scancode) (!isRelease scancode)) rest

/-- The last that was heard of a shift key. -/
def lastShift (scancodes : List UInt8) : Option UInt8 := (scancodes.filter isShift).getLast?

/-- A shift key is held, but the last that was heard of one is that it was let go. -/
def ShiftLost (scancodes : List UInt8) : Prop :=
  (typing scancodes).shifted = true ∧ ∃ scancode, lastShift scancodes = some scancode ∧
    isRelease scancode = true

/-- While a shift key is lost and there is room on the line, every key that is pressed
has the same character on both maps. -/
def Told (scancodes : List UInt8) : Prop :=
  ∀ typedFirst scancode, typedFirst ++ [scancode] <+: scancodes → isRelease scancode = false →
    (decode typedFirst).length < 255 → ShiftLost typedFirst →
    kbdMap (keyOf scancode) = kbdMapShift (keyOf scancode)

theorem typing_snoc (scancodes : List UInt8) (scancode : UInt8) :
    typing (scancodes ++ [scancode]) = (typing scancodes).step scancode := by
  rw [typing, List.foldl_append]
  rfl

theorem lastShift_snoc (scancodes : List UInt8) (scancode : UInt8) :
    lastShift (scancodes ++ [scancode]) =
      if isShift scancode then some scancode else lastShift scancodes := by
  rw [lastShift, List.filter_append]
  cases h : isShift scancode with
  | true => simp [h]
  | false => simp [h, lastShift]

/-! ## The meaning of the flag -/

/-- The flag and the line of `readl`. -/
structure Flagged where
  shift : Bool
  text : List UInt8

def Flagged.step (f : Flagged) (scancode : UInt8) : Flagged :=
  if isShift scancode then { f with shift := !isRelease scancode }
  else if isRelease scancode then f
  else
    { f with
      text := keep f.text
        (if f.shift then kbdMapShift (keyOf scancode) else kbdMap (keyOf scancode)) }

def flagged (scancodes : List UInt8) : Flagged := scancodes.foldl Flagged.step ⟨false, []⟩

theorem flagged_snoc (scancodes : List UInt8) (scancode : UInt8) :
    flagged (scancodes ++ [scancode]) = (flagged scancodes).step scancode := by
  rw [flagged, List.foldl_append]
  rfl

theorem Flagged.foldl_shift (scancodes : List UInt8) {f g : Flagged} (h : f.shift = g.shift) :
    (scancodes.foldl Flagged.step f).shift = (scancodes.foldl Flagged.step g).shift := by
  induction scancodes generalizing f g with
  | nil => exact h
  | cons scancode scancodes ih =>
      apply ih
      rw [Flagged.step, Flagged.step]
      split
      · rfl
      · split <;> exact h

theorem keyOf_lt (scancode : UInt8) : (keyOf scancode).toNat < 128 := by
  rw [keyOf, UInt8.toNat_and]
  exact Nat.and_lt_two_pow _ (by decide : (0x7F : UInt8).toNat < 2 ^ 7)

/-- A fact about every key, from the table. -/
theorem forall_key {P : UInt8 → Prop} (h : ∀ n, n < 128 → P (UInt8.ofNat n)) (scancode : UInt8) :
    P (keyOf scancode) := by
  have hkey := h _ (keyOf_lt scancode)
  rwa [UInt8.ofNat_toNat] at hkey

theorem kbdMap_newLine (scancode : UInt8) :
    (kbdMap (keyOf scancode) = Vga.newLine ↔ keyOf scancode = enter) ∧
      (kbdMapShift (keyOf scancode) = Vga.newLine ↔ keyOf scancode = enter) :=
  forall_key (P := fun key => (kbdMap key = Vga.newLine ↔ key = enter) ∧
    (kbdMapShift key = Vga.newLine ↔ key = enter)) (by decide) scancode

theorem kbdMap_shift {scancode : UInt8} (h : isShift scancode = true) :
    kbdMap (keyOf scancode) = 0 ∧ kbdMapShift (keyOf scancode) = 0 := by
  simp only [isShift, Bool.or_eq_true, beq_iff_eq] at h
  rcases h with h | h <;> rw [h] <;> exact ⟨rfl, rfl⟩

/-- A key whose characters differ is not a backspace on either map. -/
theorem kbdMap_backspace {scancode : UInt8}
    (h : kbdMap (keyOf scancode) ≠ kbdMapShift (keyOf scancode)) :
    kbdMap (keyOf scancode) ≠ Vga.backspace ∧ kbdMapShift (keyOf scancode) ≠ Vga.backspace :=
  forall_key (P := fun key => kbdMap key ≠ kbdMapShift key →
    kbdMap key ≠ Vga.backspace ∧ kbdMapShift key ≠ Vga.backspace) (by decide) scancode h

/-! ## Flag and keys -/

theorem flagged_shift (scancodes : List UInt8) :
    (flagged scancodes).shift = (lastShift scancodes).any fun scancode => !isRelease scancode := by
  induction scancodes using List.reverseRecOn with
  | nil => rfl
  | append_singleton scancodes scancode ih =>
      rw [flagged_snoc, lastShift_snoc, Flagged.step]
      cases hshift : isShift scancode with
      | true => simp
      | false =>
          simp only [Bool.false_eq_true, if_false]
          rw [← ih]
          split <;> rfl

theorem shifted_step {scancode : UInt8} (h : isShift scancode = false) (t : Typing) :
    (t.step scancode).shifted = t.shifted := by
  simp only [isShift, Bool.or_eq_false_iff, beq_eq_false_iff_ne] at h
  rw [Typing.step]
  split <;>
    simp only [Typing.shifted, assign_of_ne _ _ (Ne.symm h.1), assign_of_ne _ _ (Ne.symm h.2)]

theorem shifted_press {scancode : UInt8} (h : isShift scancode = true)
    (hpress : isRelease scancode = false) (t : Typing) : (t.step scancode).shifted = true := by
  simp only [isShift, Bool.or_eq_true, beq_iff_eq] at h
  rw [Typing.step, hpress, if_neg (by decide)]
  rcases h with hkey | hkey <;> simp [Typing.shifted, hkey]

theorem shifted_of_flagged {scancodes : List UInt8} (h : (flagged scancodes).shift = true) :
    (typing scancodes).shifted = true := by
  induction scancodes using List.reverseRecOn with
  | nil => cases h
  | append_singleton scancodes scancode ih =>
      rw [flagged_snoc, Flagged.step] at h
      rw [typing_snoc]
      cases hshift : isShift scancode with
      | true =>
          rw [if_pos hshift] at h
          exact shifted_press hshift (by simpa using h) _
      | false =>
          rw [if_neg (by rw [hshift]; decide)] at h
          rw [shifted_step hshift]
          exact ih (by split at h <;> exact h)

theorem lastShift_of_shifted {scancodes : List UInt8} (h : (typing scancodes).shifted = true) :
    ∃ scancode, lastShift scancodes = some scancode := by
  induction scancodes using List.reverseRecOn with
  | nil => cases h
  | append_singleton scancodes scancode ih =>
      rw [lastShift_snoc]
      cases hshift : isShift scancode with
      | true => exact ⟨scancode, rfl⟩
      | false =>
          rw [typing_snoc, shifted_step hshift] at h
          exact ih h

theorem lost_iff (scancodes : List UInt8) : ShiftLost scancodes ↔
    (typing scancodes).shifted = true ∧ (flagged scancodes).shift = false := by
  rw [flagged_shift]
  constructor
  · intro h
    obtain ⟨hshifted, scancode, hlast, hrelease⟩ := h
    exact ⟨hshifted, by simp [hlast, hrelease]⟩
  · intro h
    obtain ⟨scancode, hlast⟩ := lastShift_of_shifted h.1
    have hflag := h.2
    simp only [hlast, Option.any_some, Bool.not_eq_false'] at hflag
    exact ⟨h.1, scancode, hlast, hflag⟩

theorem flagged_of_not_lost {scancodes : List UInt8} (h : ¬ ShiftLost scancodes) :
    (flagged scancodes).shift = (typing scancodes).shifted := by
  rw [lost_iff] at h
  cases hflag : (flagged scancodes).shift with
  | true => exact (shifted_of_flagged hflag).symm
  | false =>
      cases hshifted : (typing scancodes).shifted with
      | true => exact (h ⟨hshifted, hflag⟩).elim
      | false => rfl

/-! ## Both texts -/

theorem keep_full {text : List UInt8} (h : ¬ text.length < 255) {c : UInt8}
    (hc : c ≠ Vga.backspace) : keep text c = text := by
  rw [keep, if_neg hc, if_neg h, ite_self]

theorem keep_inj {text : List UInt8} (h : text.length < 255) {c d : UInt8}
    (hc : c ≠ Vga.backspace) (hd : d ≠ Vga.backspace) (heq : keep text c = keep text d) : c = d := by
  rw [keep, keep, if_neg hc, if_neg hd, if_pos h, if_pos h] at heq
  by_cases h0 : c = 0
  · by_cases h0' : d = 0
    · rw [h0, h0']
    · rw [if_pos h0, if_neg h0'] at heq
      simp at heq
  · by_cases h0' : d = 0
    · rw [if_neg h0, if_pos h0'] at heq
      simp at heq
    · rw [if_neg h0, if_neg h0'] at heq
      simpa using heq

theorem Told.of_append {scancodes more : List UInt8} (h : Told (scancodes ++ more)) :
    Told scancodes := fun typedFirst scancode hfirst =>
  h typedFirst scancode (hfirst.trans (List.prefix_append _ _))

/-- As long as the maps agree where they are needed, so do the texts. -/
theorem flagged_text {scancodes : List UInt8} (h : Told scancodes) :
    (flagged scancodes).text = decode scancodes := by
  induction scancodes using List.reverseRecOn with
  | nil => rfl
  | append_singleton scancodes scancode ih =>
      have hsame := ih h.of_append
      rw [flagged_snoc, decode, typing_snoc, Flagged.step, Typing.step]
      cases hrelease : isRelease scancode with
      | true =>
          simp only [if_true]
          split <;> exact hsame
      | false =>
          cases hshift : isShift scancode with
          | true =>
              obtain ⟨hplain, hupper⟩ := kbdMap_shift hshift
              simp only [Bool.false_eq_true, if_true, if_false, hplain, hupper, ite_self]
              rw [hsame, keep, if_pos rfl]
              rfl
          | false =>
              simp only [Bool.false_eq_true, if_false]
              rw [hsame]
              change keep (decode scancodes) _ = keep (decode scancodes) _
              by_cases hmaps : kbdMap (keyOf scancode) = kbdMapShift (keyOf scancode)
              · rw [hmaps, ite_self, ite_self]
              · by_cases hroom : (decode scancodes).length < 255
                · have hkept : ¬ ShiftLost scancodes := fun hlost =>
                    hmaps (h scancodes scancode (List.prefix_refl _) hrelease hroom hlost)
                  rw [flagged_of_not_lost hkept]
                · obtain ⟨hplain, hupper⟩ := kbdMap_backspace hmaps
                  have hchar : ∀ b : Bool, (if b = true then kbdMapShift (keyOf scancode)
                      else kbdMap (keyOf scancode)) ≠ Vga.backspace := by
                    intro b
                    split
                    · exact hupper
                    · exact hplain
                  rw [keep_full hroom (hchar _), keep_full hroom (hchar _)]

/-- Where they are needed and do not agree, neither do the texts. -/
theorem told_of_texts {scancodes : List UInt8}
    (h : ∀ typedFirst, typedFirst <+: scancodes → (flagged typedFirst).text = decode typedFirst) :
    Told scancodes := by
  intro typedFirst scancode hfirst hpress hroom hlost
  by_contra hmaps
  obtain ⟨hplain, hupper⟩ := kbdMap_backspace hmaps
  obtain ⟨hshifted, hflag⟩ := (lost_iff typedFirst).mp hlost
  have hbefore := h typedFirst ((List.prefix_append _ _).trans hfirst)
  have hafter := h (typedFirst ++ [scancode]) hfirst
  have hshift : isShift scancode = false := by
    cases hshift : isShift scancode with
    | true => exact (hmaps ((kbdMap_shift hshift).1.trans (kbdMap_shift hshift).2.symm)).elim
    | false => rfl
  rw [flagged_snoc, decode, typing_snoc, Flagged.step, Typing.step, hshift, hpress, hflag,
    hshifted, hbefore] at hafter
  exact hmaps (keep_inj hroom hplain hupper hafter)

end SevenOS
