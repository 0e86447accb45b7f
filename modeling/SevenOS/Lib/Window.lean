import Mathlib.Data.List.GetD
import SevenOS.Lib.Page

/-! # A page as one line of cells

The rows of a page one behind the other, all as long as the page is wide. A
symbol that is written changes the one cell at the end and moves the end by one;
a line break moves the end to the next row. Whoever blanks the last cell and
steps back has taken the last symbol off again.
-/

namespace Text

namespace Page

variable {α : Type}

/-- The cell at a distance from the first one. -/
def cell (width : Nat) (blank : α) (p : Page α) (i : Nat) : α :=
  symbolAt blank p.rows (i / width) (i % width)

/-- Where the next symbol goes. -/
def position (width : Nat) (p : Page α) : Nat := width * p.above.length + p.line.length

variable {width : Nat} {blank : α} {p : Page α}

theorem position_break (width : Nat) (p : Page α) :
    p.break_.position width = width * (p.above.length + 1) := by
  simp [position, break_, rows]

theorem cell_break (i : Nat) : p.break_.cell width blank i = p.cell width blank i :=
  symbolAt_append_nil blank p.rows _ _

theorem eq_position_iff (hline : p.line.length < width) (i : Nat) :
    i / width = p.above.length ∧ i % width = p.line.length ↔ i = p.position width := by
  constructor
  · intro h
    rw [position, ← h.1, ← h.2, Nat.div_add_mod]
  · intro h
    have hwidth : 0 < width := by omega
    rw [h, position, Nat.mul_add_div hwidth, Nat.div_eq_of_lt hline, Nat.mul_add_mod,
      Nat.mod_eq_of_lt hline]
    exact ⟨rfl, rfl⟩

theorem cell_behind (hline : p.line.length < width) {i : Nat} (hi : p.position width ≤ i) :
    p.cell width blank i = blank := by
  have hwidth : 0 < width := by omega
  have hrows : p.rows.length = p.above.length + 1 := by simp [rows]
  have hdiv := Nat.div_add_mod i width
  rw [position] at hi
  rw [cell]
  by_cases hrow : p.rows.length ≤ i / width
  · exact symbolAt_of_le blank hrow _
  · have hlast : i / width = p.above.length := by
      have hle : p.above.length ≤ i / width := by
        rw [Nat.le_div_iff_mul_le hwidth, Nat.mul_comm]
        omega
      omega
    rw [hlast] at hdiv
    rw [symbolAt, hlast, rows, List.getD_append_right _ _ _ _ (Nat.le_refl _), Nat.sub_self]
    exact List.getD_eq_default _ _ (by simpa using by omega)

section Write

variable [DecidableEq α] {lineBreak c : α}

theorem put_line_lt (hline : p.line.length < width) (lineBreak c : α) :
    (p.put width lineBreak c).line.length < width := by
  rw [put]
  split
  · exact Nat.lt_of_le_of_lt (Nat.zero_le _) hline
  · split
    · simpa using ‹_›
    · exact Nat.lt_of_le_of_lt (Nat.zero_le _) hline

theorem cell_put_break (i : Nat) :
    (p.put width lineBreak lineBreak).cell width blank i = p.cell width blank i := by
  rw [put, if_pos rfl, cell_break]

theorem position_put_break :
    (p.put width lineBreak lineBreak).position width = width * (p.above.length + 1) := by
  rw [put, if_pos rfl, position_break]

theorem cell_put (hline : p.line.length < width) (hc : c ≠ lineBreak) (i : Nat) :
    (p.put width lineBreak c).cell width blank i =
      if i = p.position width then c else p.cell width blank i := by
  have hput : symbolAt blank (p.above ++ [p.line ++ [c]]) (i / width) (i % width) =
      if i = p.position width then c else p.cell width blank i := by
    rw [symbolAt_put, cell, rows]
    simp only [eq_position_iff hline]
  rw [put, if_neg hc]
  split
  · exact hput
  · exact (cell_break i).trans hput

theorem position_put (hline : p.line.length < width) (hc : c ≠ lineBreak) :
    (p.put width lineBreak c).position width = p.position width + 1 := by
  rw [put, if_neg hc]
  split
  · simp only [position, List.length_append, List.length_singleton]
    omega
  · rw [position_break, position, Nat.mul_succ]
    simp only
    omega

theorem cell_unput (hline : p.line.length < width) (hc : c ≠ lineBreak) (i : Nat) :
    p.cell width blank i =
      if i = p.position width then blank else (p.put width lineBreak c).cell width blank i := by
  split
  · next heq => exact cell_behind hline (Nat.le_of_eq heq.symm)
  · next hne => rw [cell_put hline hc, if_neg hne]

/-- A text without a line break moves the end by its length. -/
theorem position_write_append (hwidth : 0 < width) {text : List α} (before : List α)
    (hbreak : lineBreak ∉ text) : (write width lineBreak (before ++ text)).position width =
      (write width lineBreak before).position width + text.length := by
  induction text using List.reverseRecOn with
  | nil => rw [List.append_nil, List.length_nil, Nat.add_zero]
  | append_singleton text c ih =>
      have hc : c ≠ lineBreak := fun heq => hbreak (by simp [heq])
      rw [← List.append_assoc, write_concat, position_put (write_line_lt hwidth _ _) hc,
        ih fun hmem => hbreak (by simp [hmem]), List.length_append, List.length_singleton,
        Nat.add_assoc]

end Write

end Page

end Text
