import SevenOS.Console.Vga
import SevenOS.Lib.Page

/-! # What the screen shows

The text memory against the text that was printed. Cursor, indexes and colours
are one-call invariants. The characters follow from a simulation: the text is kept
as the page of all its rows, `Shows` relates the 2000 cells to it, and each call
keeps that. The one thing that goes wrong is the colour of a character
from 0x80 on, whose sign runs into the colour byte.
-/

namespace SevenOS

namespace Vga

/-! ## Cells -/

theorem charOf_cellOf (c : UInt8) : charOf (cellOf c) = c := by
  have h : ∀ b : BitVec 8, charOf (cellOf ⟨b⟩) = ⟨b⟩ := by decide +kernel
  exact h c.toBitVec

theorem colorOf_cellOf (c : UInt8) : colorOf (cellOf c) = vgaColor ↔ c < 0x80 := by
  have h : ∀ b : BitVec 8, colorOf (cellOf ⟨b⟩) = vgaColor ↔ (⟨b⟩ : UInt8) < 0x80 := by
    decide +kernel
  exact h c.toBitVec

theorem colorOf_space : colorOf (cellOf space) = vgaColor := by decide

/-! ## The loops -/

theorem moveUp_buffer (v : Vga) (count : Nat) (i : Int) :
    (v.moveUp count).buffer i =
      if 0 ≤ i ∧ i < count then v.buffer (i + vgaWidth) else v.buffer i := by
  induction count generalizing i with
  | zero => rw [if_neg (by omega)]; rfl
  | succ count ih =>
      rw [moveUp_succ, copy_buffer]
      split
      next hi =>
        subst hi
        rw [ih, if_neg (by simp only [vgaWidth]; omega), if_pos (by omega)]
      next hi =>
        rw [ih]
        have same : 0 ≤ i ∧ i < (count : Int) ↔ 0 ≤ i ∧ i < ((count + 1 : Nat) : Int) := by omega
        simp only [same]

theorem blankFrom_buffer (v : Vga) (start : Int) (count : Nat) (i : Int) :
    (v.blankFrom start count).buffer i =
      if start ≤ i ∧ i < start + count then cellOf space else v.buffer i := by
  induction count with
  | zero => rw [if_neg (by omega)]; rfl
  | succ count ih =>
      rw [blankFrom_succ, store_buffer]
      split
      next hi => rw [if_pos (by omega)]
      next hi =>
        rw [ih]
        have same : start ≤ i ∧ i < start + (count : Int) ↔
            start ≤ i ∧ i < start + ((count + 1 : Nat) : Int) := by omega
        simp only [same]

theorem scroll_buffer (v : Vga) {i : Int} (h : 0 ≤ i ∧ i < 2000) :
    v.scroll.buffer i = if i < 1920 then v.buffer (i + 80) else cellOf space := by
  simp only [scroll, blankFrom_buffer, moveUp_buffer, vgaHeight, vgaWidth]
  by_cases hi : i < 1920
  · rw [if_neg (by omega), if_pos (by simpa using ⟨h.1, hi⟩), if_pos hi]
  · rw [if_pos (by simpa using ⟨not_lt.mp hi, h.2⟩), if_neg hi]

/-! ## Cursor and indexes -/

def Inside (v : Vga) : Prop := ∀ i ∈ v.used, 0 ≤ i ∧ i < 2000

theorem Inside.store {v : Vga} (h : v.Inside) {i : Int} (hi : 0 ≤ i ∧ i < 2000)
    (cell : UInt16) : (v.store i cell).Inside := by
  intro j hj
  rcases List.mem_cons.mp hj with rfl | hj
  · exact hi
  · exact h j hj

theorem Inside.copy {v : Vga} (h : v.Inside) {i j : Int} (hi : 0 ≤ i ∧ i < 2000)
    (hj : 0 ≤ j ∧ j < 2000) : (v.copy i j).Inside := by
  intro k hk
  rcases List.mem_cons.mp hk with rfl | hk
  · exact hi
  · rcases List.mem_cons.mp hk with rfl | hk
    · exact hj
    · exact h k hk

theorem Inside.moveUp {v : Vga} (h : v.Inside) {count : Nat}
    (hcount : (count : Int) + 80 ≤ 2000) : (v.moveUp count).Inside := by
  induction count with
  | zero => exact h
  | succ count ih =>
      rw [moveUp_succ]
      refine (ih (by omega)).copy (by omega) ?_
      simp only [vgaWidth]
      omega

theorem Inside.blankFrom {v : Vga} (h : v.Inside) {start : Int} (hstart : 0 ≤ start)
    {count : Nat} (hcount : start + count ≤ 2000) : (v.blankFrom start count).Inside := by
  induction count with
  | zero => exact h
  | succ count ih =>
      rw [blankFrom_succ]
      exact (ih (by omega)).store (by omega) _

theorem Inside.scroll {v : Vga} (h : v.Inside) : v.scroll.Inside := by
  have hmove := h.moveUp (show ((((vgaHeight - 1) * vgaWidth).toNat : Nat) : Int) + 80 ≤ 2000 by
    simp [vgaHeight, vgaWidth])
  have hblank := hmove.blankFrom (show 0 ≤ (vgaHeight - 1) * vgaWidth by simp [vgaHeight, vgaWidth])
    (show (vgaHeight - 1) * vgaWidth + (vgaWidth.toNat : Int) ≤ 2000 by simp [vgaHeight, vgaWidth])
  intro i hi
  simp only [Vga.scroll] at hi
  exact hblank i hi

/-- The cursor is on the screen and no index has left it. -/
structure Steady (v : Vga) : Prop where
  cursor : 0 ≤ v.cursorPos ∧ v.cursorPos < 2000
  inside : v.Inside

theorem scrollWhile_of_lt {v : Vga} (h : v.cursorPos < 2000) : v.scrollWhile = v := by
  rw [scrollWhile, if_neg (show ¬vgaWidth * vgaHeight ≤ v.cursorPos from Int.not_le.mpr h)]

/-- A cursor one row below the screen is brought back by one scroll. -/
theorem scrollWhile_of_ge {v : Vga} (h : 2000 ≤ v.cursorPos)
    (h' : v.cursorPos < 2080) : v.scrollWhile = v.scroll := by
  rw [scrollWhile, if_pos (show vgaWidth * vgaHeight ≤ v.cursorPos from h), scrollWhile_of_lt]
  rw [scroll_cursorPos, vgaWidth]
  omega

theorem scrollWhile_steady {v : Vga} (hinside : v.Inside) (h : 0 ≤ v.cursorPos)
    (h' : v.cursorPos < 2080) : v.scrollWhile.Steady := by
  by_cases hlt : v.cursorPos < 2000
  · rw [scrollWhile_of_lt hlt]
    exact ⟨⟨h, hlt⟩, hinside⟩
  · rw [scrollWhile_of_ge (by omega) h']
    refine ⟨?_, hinside.scroll⟩
    rw [scroll_cursorPos, vgaWidth]
    omega

@[simp] theorem updateCursor_cursorPos (v : Vga) : v.updateCursor.cursorPos = v.cursorPos := rfl

@[simp] theorem updateCursor_buffer (v : Vga) : v.updateCursor.buffer = v.buffer := rfl

@[simp] theorem updateCursor_used (v : Vga) : v.updateCursor.used = v.used := rfl

theorem Steady.updateCursor {v : Vga} (h : v.Steady) : v.updateCursor.Steady :=
  ⟨h.cursor, h.inside⟩

theorem place_cursorPos {v : Vga} (h : 0 ≤ v.cursorPos ∧ v.cursorPos < 2000) (c : UInt8) :
    0 ≤ (v.place c).cursorPos ∧ (v.place c).cursorPos < 2080 := by
  unfold place
  split
  · simp only [vgaWidth]
    rw [Int.tdiv_eq_ediv_of_nonneg h.1]
    omega
  · split
    · split
      · simp only [store]
        omega
      · omega
    · simp only
      omega

theorem Steady.place_inside {v : Vga} (h : v.Steady) (c : UInt8) : (v.place c).Inside := by
  have hcursor := h.cursor
  unfold place
  split
  · exact h.inside
  · split
    · split
      · refine Inside.store (v := { v with cursorPos := v.cursorPos - 1 }) h.inside ?_ _
        simp only
        omega
      · exact h.inside
    · exact h.inside.store hcursor (cellOf c)

theorem Steady.putChar {v : Vga} (h : v.Steady) (c : UInt8) : (v.putChar c).Steady := by
  obtain ⟨hlow, hhigh⟩ := place_cursorPos h.cursor c
  exact (scrollWhile_steady (h.place_inside c) hlow hhigh).updateCursor

theorem Steady.putChars {v : Vga} (h : v.Steady) (text : List UInt8) : (v.putChars text).Steady := by
  induction text generalizing v with
  | nil => exact h
  | cons c rest ih => exact ih (h.putChar c)

/-- From here on: no index has been used yet. -/
def unused (v : Vga) : Vga := { v with used := [] }

theorem clearScreen_buffer (v : Vga) {i : Int} (h : 0 ≤ i ∧ i < 2000) :
    v.clearScreen.buffer i = cellOf space := by
  simp only [clearScreen, updateCursor_buffer, blankFrom_buffer, vgaWidth, vgaHeight]
  rw [if_pos (by simpa using h)]

theorem clearScreen_steady (v : Vga) : v.unused.clearScreen.Steady := by
  have hempty : v.unused.Inside := by
    intro i hi
    exact absurd hi List.not_mem_nil
  have hblank := hempty.blankFrom (le_refl (0 : Int))
    (show 0 + ((vgaWidth * vgaHeight).toNat : Int) ≤ 2000 by simp [vgaWidth, vgaHeight])
  have hcursor : v.unused.clearScreen.cursorPos = 0 := rfl
  refine ⟨by rw [hcursor]; decide, ?_⟩
  intro i hi
  simp only [clearScreen, updateCursor_used] at hi
  exact hblank i hi

/-! ## Colours -/

def Colored (v : Vga) : Prop := ∀ i : Int, 0 ≤ i → i < 2000 → colorOf (v.buffer i) = vgaColor

theorem Colored.scroll {v : Vga} (h : v.Colored) : v.scroll.Colored := by
  intro i hlow hhigh
  rw [scroll_buffer v ⟨hlow, hhigh⟩]
  split
  · exact h _ (by omega) (by omega)
  · exact colorOf_space

theorem Colored.scrollWhile {v : Vga} (h : v.Colored) (hcursor : v.cursorPos < 2080) :
    v.scrollWhile.Colored := by
  by_cases hlt : v.cursorPos < 2000
  · rw [scrollWhile_of_lt hlt]
    exact h
  · rw [scrollWhile_of_ge (by omega) hcursor]
    exact h.scroll

theorem Colored.store {v : Vga} (h : v.Colored) {cell : UInt16} (hcell : colorOf cell = vgaColor)
    (i : Int) : (v.store i cell).Colored := by
  intro j hlow hhigh
  rw [store_buffer]
  split
  · exact hcell
  · exact h j hlow hhigh

theorem Colored.place {v : Vga} (h : v.Colored) {c : UInt8} (hc : c < 0x80) :
    (v.place c).Colored := by
  unfold Vga.place
  split
  · exact h
  · split
    · split
      · exact Colored.store (v := { v with cursorPos := v.cursorPos - 1 }) h colorOf_space _
      · exact h
    · exact h.store ((colorOf_cellOf c).mpr hc) v.cursorPos

theorem Colored.putChar {v : Vga} (h : v.Colored) (hsteady : v.Steady) {c : UInt8}
    (hc : c < 0x80) : (v.putChar c).Colored :=
  (h.place hc).scrollWhile (place_cursorPos hsteady.cursor c).2

/-- A character from 0x80 on is still on the screen when `put_char` returns, and its
colour byte is wrong. -/
theorem putChar_not_colored {v : Vga} (hsteady : v.Steady) {c : UInt8} (hc : ¬c < 0x80) :
    ¬(v.putChar c).Colored := by
  obtain ⟨hlow, hhigh⟩ := hsteady.cursor
  have hbad : colorOf (cellOf c) ≠ vgaColor := fun h => hc ((colorOf_cellOf c).mp h)
  have hplace : v.place c = { v.store v.cursorPos (cellOf c) with cursorPos := v.cursorPos + 1 } := by
    rw [Vga.place, if_neg, if_neg] <;> rintro rfl <;> exact hc (by decide)
  intro h
  rw [Vga.putChar, hplace] at h
  by_cases hlast : v.cursorPos + 1 < 2000
  · rw [scrollWhile_of_lt hlast] at h
    refine hbad ?_
    have := h v.cursorPos hlow hhigh
    rwa [updateCursor_buffer, store_buffer, if_pos rfl] at this
  · rw [scrollWhile_of_ge (by simp only; omega) (by simp only; omega)] at h
    refine hbad ?_
    have := h (v.cursorPos - 80) (by omega) (by omega)
    rw [updateCursor_buffer, scroll_buffer _ (by omega), if_pos (by omega)] at this
    simpa [store_buffer] using this

theorem clearScreen_colored (v : Vga) : v.clearScreen.Colored := by
  intro i hlow hhigh
  rw [clearScreen_buffer v ⟨hlow, hhigh⟩]
  exact colorOf_space

theorem Colored.putChars {v : Vga} (h : v.Colored) (hsteady : v.Steady) {text : List UInt8}
    (htext : ∀ c ∈ text, c < 0x80) : (v.putChars text).Colored := by
  induction text generalizing v with
  | nil => exact h
  | cons c rest ih =>
      have hc : c < 0x80 := htext c (by simp)
      exact ih (h.putChar hsteady hc) (hsteady.putChar c) fun d hd => htext d (by simp [hd])

/-! ## Characters -/

/-- The characters on the screen are the last 25 rows of a page. -/
def Reads (v : Vga) (p : Text.Page UInt8) : Prop :=
  ∀ row column : Nat, row < 25 → column < 80 →
    charOf (v.buffer (80 * row + column)) = Text.symbolAt space (p.visible 25) row column

/-- The screen reads as a page, with the cursor behind what was written last. -/
structure Shows (v : Vga) (p : Text.Page UInt8) : Prop where
  cursor : v.cursorPos = 80 * (min p.above.length 24 : Nat) + p.line.length
  reads : v.Reads p

theorem clearScreen_shows (v : Vga) : v.clearScreen.Shows Text.Page.empty := by
  refine ⟨rfl, fun row column hrow hcolumn => ?_⟩
  rw [clearScreen_buffer v (by omega), charOf_cellOf]
  cases row <;> cases column <;> rfl

/-- The cursor below the current row closes it: on the screen while there is room, by
scrolling at the bottom. -/
theorem Reads.scrollWhile {v : Vga} {p : Text.Page UInt8} (h : v.Reads p)
    (hcursor : v.cursorPos = 80 * (min p.above.length 24 : Nat) + 80) :
    v.scrollWhile.Shows p.break_ := by
  have hrows : p.break_.above.length = p.above.length + 1 := by simp [Text.Page.break_, Text.Page.rows]
  have hline : p.break_.line.length = 0 := rfl
  by_cases hroom : p.above.length < 24
  · rw [scrollWhile_of_lt (by omega)]
    refine ⟨by rw [hcursor, hrows, hline]; omega, fun row column hrow hcolumn => ?_⟩
    rw [h row column hrow hcolumn, Text.Page.visible_break_room hroom, Text.symbolAt_append_nil]
  · rw [scrollWhile_of_ge (by omega) (by omega)]
    refine ⟨by rw [scroll_cursorPos, hcursor, hrows, hline, vgaWidth]; omega, ?_⟩
    intro row column hrow hcolumn
    have hlength := Text.Page.visible_length 24 p
    rw [scroll_buffer v (by omega), Text.Page.visible_break_scroll (by decide) (by omega),
      Text.symbolAt_append_nil, Text.symbolAt_tail]
    split
    · rw [← h (row + 1) column (by omega) hcolumn]
      congr 2
      omega
    · rw [charOf_cellOf, Text.symbolAt_of_le _ (by omega)]

theorem Reads.place {v : Vga} {p : Text.Page UInt8} (h : v.Shows p) (hline : p.line.length < 80)
    {c : UInt8} (hnewLine : c ≠ newLine) (hbackspace : c ≠ backspace) :
    (v.place c).Shows { p with line := p.line ++ [c] } := by
  rw [Vga.place, if_neg hnewLine, if_neg hbackspace]
  refine ⟨?_, fun row column hrow hcolumn => ?_⟩
  · simp only [List.length_append, List.length_singleton]
    rw [h.cursor]
    omega
  · have hvisible : p.visible 25 = p.above.drop (p.above.length - 24) ++ [p.line] :=
      Text.Page.visible_eq 24 p
    have hvisible' : Text.Page.visible 25 { p with line := p.line ++ [c] } =
        p.above.drop (p.above.length - 24) ++ [p.line ++ [c]] := Text.Page.visible_eq 24 _
    have hcell : (80 * row + column : Int) = v.cursorPos ↔
        row = (p.above.drop (p.above.length - 24)).length ∧ column = p.line.length := by
      rw [h.cursor, List.length_drop]
      omega
    simp only [store_buffer]
    rw [hvisible', Text.symbolAt_put]
    simp only [hcell]
    split
    · exact charOf_cellOf c
    · rw [h.reads row column hrow hcolumn, hvisible]

theorem Shows.putChar {v : Vga} {p : Text.Page UInt8} (h : v.Shows p) (hline : p.line.length < 80)
    {c : UInt8} (hbackspace : c ≠ backspace) :
    (v.putChar c).Shows (p.put 80 newLine c) := by
  suffices hsettle : (v.place c).scrollWhile.Shows (p.put 80 newLine c) from
    ⟨hsettle.cursor, hsettle.reads⟩
  by_cases hnewLine : c = newLine
  · subst hnewLine
    rw [Text.Page.put, if_pos rfl, Vga.place, if_pos rfl]
    refine Reads.scrollWhile (v := { v with cursorPos := _ }) h.reads ?_
    have hcursor := h.cursor
    simp only [vgaWidth]
    rw [Int.tdiv_eq_ediv_of_nonneg (by omega)]
    omega
  · have hplace := Reads.place h hline hnewLine hbackspace
    rw [Text.Page.put, if_neg hnewLine]
    have hcursor := hplace.cursor
    simp only [List.length_append, List.length_singleton] at hcursor
    split
    · rw [scrollWhile_of_lt (by omega)]
      exact hplace
    · exact Reads.scrollWhile (p := { p with line := p.line ++ [c] }) hplace.reads (by
        rw [hcursor]
        simp only
        omega)

theorem Shows.write (v : Vga) {text : List UInt8} (htext : backspace ∉ text) :
    (v.clearScreen.putChars text).Shows (Text.Page.write 80 newLine text) := by
  induction text using List.reverseRecOn with
  | nil => exact clearScreen_shows v
  | append_singleton text c ih =>
      have hstep := ih fun h => htext (by simp [h])
      have hc : c ≠ backspace := fun h => htext (by simp [h])
      rw [Text.Page.write_concat, putChars, List.foldl_append]
      exact hstep.putChar (Text.Page.write_line_lt (by decide) _ _) hc

/-! ## The console and its text -/

/-- What the screen owes after a text: the cursor and all indexes on it, the console's
colour everywhere, and without a backspace the last 25 rows of the text, broken at
newlines and wrapped at 80 columns. -/
structure Faithful (v : Vga) (text : List UInt8) : Prop where
  cursor : 0 ≤ v.cursorPos ∧ v.cursorPos < 2000
  indexes : ∀ i ∈ v.used, 0 ≤ i ∧ i < 2000
  colors : ∀ i : Int, 0 ≤ i → i < 2000 → colorOf (v.buffer i) = vgaColor
  characters : backspace ∉ text → ∀ row column : Nat, row < 25 → column < 80 →
    charOf (v.buffer (80 * row + column)) =
      Text.symbolAt space (Text.lastRows 25 (Text.rows 80 newLine text)) row column

/-- The screen owes all of this after every call exactly when no character from 0x80 on
is printed. -/
theorem putChars_faithful (v : Vga) (text : List UInt8) :
    (∀ printed, printed <+: text →
        (v.unused.clearScreen.putChars printed).Faithful printed) ↔ ∀ c ∈ text, c < 0x80 := by
  constructor
  · intro h c hc
    by_contra hbad
    obtain ⟨before, after, rfl⟩ := List.append_of_mem hc
    have hprinted := (h (before ++ [c]) ⟨after, by simp⟩).colors
    rw [putChars, List.foldl_append] at hprinted
    exact putChar_not_colored ((clearScreen_steady v).putChars before) hbad hprinted
  · rintro h printed ⟨rest, rfl⟩
    have hsteady := (clearScreen_steady v).putChars printed
    refine ⟨hsteady.cursor, hsteady.inside, ?_, ?_⟩
    · refine (clearScreen_colored v.unused).putChars (clearScreen_steady v) fun c hc => h c ?_
      exact List.mem_append_left rest hc
    · intro hbackspace
      rw [Text.rows_eq_page (by decide)]
      exact (Shows.write v.unused hbackspace).reads

/-- The screen at power on, before the first `clear_screen`. -/
def booted : Vga := { cursorPos := 0, buffer := fun _ => 0, used := [], sent := [] }

/-- The first byte above 0x7f is shown with the colour byte 0xff. -/
theorem not_putChars_faithful :
    ¬(booted.unused.clearScreen.putChars [0x80]).Faithful [0x80] := by
  intro h
  exact putChar_not_colored (clearScreen_steady booted) (by decide) h.colors

end Vga

end SevenOS
