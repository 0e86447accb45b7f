import SevenOS.Console.Screen
import SevenOS.Lib.Window

/-! # The screen as a window

With line editing the screen is not always full to its last row: what was wrapped
and scrolled and is then deleted leaves blank rows below. So the screen is a
window on the page, whose first row `top` only moves down, and whoever deletes
what he typed himself sees the page without it.
-/

namespace SevenOS

namespace Vga

variable {v : Vga} {p : Text.Page UInt8} {top : Nat}

/-- The screen reads as a page from row `top` on. -/
structure ShowsFrom (v : Vga) (p : Text.Page UInt8) (top : Nat) : Prop where
  cursor : v.cursorPos + 80 * top = p.position 80
  onScreen : 0 ≤ v.cursorPos ∧ v.cursorPos < 2000
  cells : ∀ i : Nat, i < 2000 → charOf (v.buffer i) = p.cell 80 space (i + 80 * top)

/-- The screen shows a text: its rows from some row on, and the cursor behind them. -/
def Displays (v : Vga) (text : List UInt8) : Prop :=
  ∃ top, v.ShowsFrom (Text.Page.write 80 newLine text) top

theorem clearScreen_showsFrom (v : Vga) : v.clearScreen.ShowsFrom Text.Page.empty 0 := by
  have h := clearScreen_shows v
  refine ⟨rfl, (by decide : (0 : Int) ≤ 0 ∧ (0 : Int) < 2000), fun i hi => ?_⟩
  have hcell := h.reads (i / 80) (i % 80) (by omega) (Nat.mod_lt _ (by decide))
  rw [show (80 * (i / 80 : Nat) + (i % 80 : Nat) : Int) = i by omega] at hcell
  rw [hcell]
  rfl

theorem ShowsFrom.updateCursor (h : v.ShowsFrom p top) : v.updateCursor.ShowsFrom p top :=
  ⟨h.cursor, h.onScreen, h.cells⟩

/-- A cursor that has left the screen at the bottom comes back by one row. -/
theorem ShowsFrom.settle (hcursor : v.cursorPos + 80 * top = p.position 80)
    (hlow : 0 ≤ v.cursorPos) (hhigh : v.cursorPos ≤ 2000) (hline : p.line.length < 80)
    (hcells : ∀ i : Nat, i < 2000 → charOf (v.buffer i) = p.cell 80 space (i + 80 * top)) :
    v.scrollWhile.ShowsFrom p (if v.cursorPos < 2000 then top else top + 1) := by
  by_cases hlt : v.cursorPos < 2000
  · rw [if_pos hlt, scrollWhile_of_lt hlt]
    exact ⟨hcursor, ⟨hlow, hlt⟩, hcells⟩
  · rw [if_neg hlt, scrollWhile_of_ge (by omega) (by omega)]
    refine ⟨?_, ?_, fun i hi => ?_⟩
    · rw [scroll_cursorPos, vgaWidth]
      omega
    · rw [scroll_cursorPos, vgaWidth]
      omega
    · rw [scroll_buffer v (by omega)]
      split
      · have hnext := hcells (i + 80) (by omega)
        rw [show i + 80 + 80 * top = i + 80 * (top + 1) by omega] at hnext
        exact hnext
      · rw [charOf_cellOf, Text.Page.cell_behind hline (by omega)]

/-- A character that is no backspace goes to the end of the page. -/
theorem ShowsFrom.putChar (h : v.ShowsFrom p top) (hline : p.line.length < 80) {c : UInt8}
    (hbackspace : c ≠ backspace) : ∃ top', (v.putChar c).ShowsFrom (p.put 80 newLine c) top' ∧
      (top' = top ∨ top' = top + 1 ∧ (p.put 80 newLine c).position 80 = 2000 + 80 * top) := by
  have hline' := Text.Page.put_line_lt hline newLine c
  obtain ⟨hlow, hhigh⟩ := h.onScreen
  have hcursor := h.cursor
  have settled : ∀ {u : Vga}, u.cursorPos + 80 * top = (p.put 80 newLine c).position 80 →
      0 ≤ u.cursorPos → u.cursorPos ≤ 2000 →
      (∀ i : Nat, i < 2000 →
        charOf (u.buffer i) = (p.put 80 newLine c).cell 80 space (i + 80 * top)) →
      ∃ top', u.scrollWhile.updateCursor.ShowsFrom (p.put 80 newLine c) top' ∧
        (top' = top ∨ top' = top + 1 ∧ (p.put 80 newLine c).position 80 = 2000 + 80 * top) := by
    intro u hu hu0 hu2000 hcells
    refine ⟨_, (ShowsFrom.settle hu hu0 hu2000 hline' hcells).updateCursor, ?_⟩
    split
    · exact .inl rfl
    · exact .inr ⟨rfl, by omega⟩
  by_cases hnewLine : c = newLine
  · subst hnewLine
    rw [Vga.putChar, Vga.place, if_pos rfl]
    rw [Text.Page.position] at hcursor
    apply settled
    · simp only [Text.Page.position_put_break, vgaWidth, Int.tdiv_eq_ediv_of_nonneg hlow]
      omega
    · simp only [vgaWidth, Int.tdiv_eq_ediv_of_nonneg hlow]
      omega
    · simp only [vgaWidth, Int.tdiv_eq_ediv_of_nonneg hlow]
      omega
    · intro i hi
      rw [Text.Page.cell_put_break]
      exact h.cells i hi
  · rw [Vga.putChar, Vga.place, if_neg hnewLine, if_neg hbackspace]
    apply settled
    · simp only [Text.Page.position_put hline hnewLine]
      omega
    · simp only
      omega
    · simp only
      omega
    · intro i hi
      rw [Text.Page.cell_put hline hnewLine]
      simp only [store_buffer]
      by_cases hend : (i : Int) = v.cursorPos
      · rw [if_pos hend, if_pos (by omega), charOf_cellOf]
      · rw [if_neg hend, if_neg (by omega), h.cells i hi]

/-- A backspace takes the last character off again, unless it was scrolled away. -/
theorem ShowsFrom.unput {c : UInt8} (h : v.ShowsFrom (p.put 80 newLine c) top)
    (hline : p.line.length < 80) (hnewLine : c ≠ newLine) (htop : 80 * top ≤ p.position 80) :
    (v.putChar backspace).ShowsFrom p top := by
  obtain ⟨hlow, hhigh⟩ := h.onScreen
  have hcursor := h.cursor
  rw [Text.Page.position_put hline hnewLine] at hcursor
  have hpos : v.cursorPos > 0 := by omega
  rw [Vga.putChar, Vga.place, if_neg (by decide), if_pos rfl, if_pos hpos]
  rw [scrollWhile_of_lt (by simp only [store]; omega)]
  refine ShowsFrom.updateCursor ⟨?_, ?_, fun i hi => ?_⟩
  · simp only [store]
    omega
  · simp only [store]
    omega
  · rw [Text.Page.cell_unput hline hnewLine, store_buffer]
    by_cases hend : (i : Int) = v.cursorPos - 1
    · rw [if_pos hend, if_pos (by omega), charOf_cellOf]
    · rw [if_neg hend, if_neg (by omega), ← h.cells i hi]

/-! ## Texts -/

theorem Displays.putChar {text : List UInt8} (h : v.Displays text) {c : UInt8}
    (hbackspace : c ≠ backspace) : (v.putChar c).Displays (text ++ [c]) := by
  obtain ⟨top, h⟩ := h
  obtain ⟨top', h', -⟩ := h.putChar (Text.Page.write_line_lt (by decide) _ _) hbackspace
  rw [Displays, Text.Page.write_concat]
  exact ⟨top', h'⟩

theorem Displays.putChars {text : List UInt8} (h : v.Displays text) {more : List UInt8}
    (hmore : backspace ∉ more) : (v.putChars more).Displays (text ++ more) := by
  induction more generalizing v text with
  | nil => rwa [List.append_nil]
  | cons c more ih =>
      have hc : c ≠ backspace := fun heq => hmore (heq ▸ List.mem_cons_self)
      rw [List.append_cons]
      exact ih (h.putChar hc) fun hmem => hmore (List.mem_cons_of_mem _ hmem)

/-- The screen shows the rows from `top` on, the last one among them, and the cursor stands
behind that. -/
structure ShowsRows (v : Vga) (rows : List (List UInt8)) (top : Nat) : Prop where
  above : top < rows.length
  below : rows.length ≤ top + 25
  cursor : v.cursorPos = 80 * (rows.length - 1 - top : Nat) + (rows.getLastD []).length
  cells : ∀ row column : Nat, row < 25 → column < 80 →
    charOf (v.buffer (80 * row + column)) = Text.symbolAt space (rows.drop top) row column

theorem Displays.rows {text : List UInt8} (h : v.Displays text) :
    ∃ top, v.ShowsRows (Text.rows 80 newLine text) top := by
  obtain ⟨top, h⟩ := h
  have hline := Text.Page.write_line_lt (show 0 < 80 by decide) newLine text
  have hcursor := h.cursor
  have hscreen := h.onScreen
  rw [Text.Page.position] at hcursor
  rw [Text.rows_eq_page (by decide)]
  have hlength : (Text.Page.write 80 newLine text).rows.length =
      (Text.Page.write 80 newLine text).above.length + 1 := by simp [Text.Page.rows]
  have hlast : (Text.Page.write 80 newLine text).rows.getLastD [] =
      (Text.Page.write 80 newLine text).line := by simp [Text.Page.rows]
  refine ⟨top, by omega, by omega, by rw [hlast]; omega, fun row column hrow hcolumn => ?_⟩
  have hcell := h.cells (80 * row + column) (by omega)
  rw [show ((80 * row + column : Nat) : Int) = 80 * row + column by omega] at hcell
  rw [hcell, Text.Page.cell, Text.symbolAt, Text.symbolAt,
    show (80 * row + column + 80 * top) / 80 = top + row by omega,
    show (80 * row + column + 80 * top) % 80 = column by omega]
  simp only [List.getD_eq_getElem?_getD, List.getElem?_drop]

end Vga

end SevenOS
