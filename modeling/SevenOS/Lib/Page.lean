import Mathlib.Data.List.Induction
import Mathlib.Order.Lattice

/-! # Text broken into rows

A text over any alphabet with a line-break symbol, shown on rows of a fixed
width. `rows` says which rows a text has. A `Page` is the same rows built up one
symbol at a time, and `rows_eq_page` is the agreement of the two.
-/

namespace Text

variable {α : Type}

/-- The rows of one line. A row that fills up is followed by a new row, so the
last one is never full. -/
def wrapLine (width : Nat) (line : List α) : List (List α) :=
  (List.range (line.length / width + 1)).map fun k => (line.drop (k * width)).take width

/-- The rows of a text: broken at each `lineBreak` and wrapped at `width`. -/
def rows [DecidableEq α] (width : Nat) (lineBreak : α) (text : List α) : List (List α) :=
  (text.splitOn lineBreak).flatMap (wrapLine width)

/-- The last `height` rows; all of them while there are no more. -/
def lastRows (height : Nat) (page : List (List α)) : List (List α) :=
  page.drop (page.length - height)

/-- The symbol at a row and a column, `blank` where the page has none. -/
def symbolAt (blank : α) (page : List (List α)) (row column : Nat) : α :=
  (page.getD row []).getD column blank

/-! ## One line, one symbol more -/

/-- The full rows of a line. -/
def fullRows (width : Nat) (line : List α) : List (List α) :=
  (List.range (line.length / width)).map fun k => (line.drop (k * width)).take width

/-- What is left of a line after its full rows. -/
def openRow (width : Nat) (line : List α) : List α :=
  line.drop (line.length / width * width)

theorem openRow_length (width : Nat) (line : List α) :
    (openRow width line).length = line.length % width := by
  have h := Nat.div_add_mod' line.length width
  rw [openRow, List.length_drop]
  omega

theorem wrapLine_eq {width : Nat} (hwidth : 0 < width) (line : List α) :
    wrapLine width line = fullRows width line ++ [openRow width line] := by
  have hopen : (openRow width line).take width = openRow width line := by
    refine List.take_of_length_le ?_
    rw [openRow_length]
    exact Nat.le_of_lt (Nat.mod_lt _ hwidth)
  rw [wrapLine, List.range_succ, List.map_append, List.map_singleton]
  exact congrArg (_ ++ [·]) hopen

theorem fullRows_concat_aux (width : Nat) (line : List α) (c : α) {k : Nat}
    (hk : (k + 1) * width ≤ line.length) :
    ((line ++ [c]).drop (k * width)).take width = (line.drop (k * width)).take width := by
  rw [Nat.succ_mul] at hk
  rw [List.drop_append_of_le_length (by omega), List.take_append_of_le_length]
  rw [List.length_drop]
  omega

theorem fullRows_concat_prefix (width : Nat) (line : List α) (c : α) :
    ((List.range (line.length / width)).map fun k =>
        ((line ++ [c]).drop (k * width)).take width) = fullRows width line := by
  refine List.map_congr_left fun k hk => fullRows_concat_aux width line c ?_
  have hlt : k < line.length / width := List.mem_range.mp hk
  exact Nat.le_trans (Nat.mul_le_mul_right width hlt) (Nat.div_mul_le_self _ _)

theorem rows_concat_open {width : Nat} {line : List α} {c : α}
    (hroom : (openRow width line).length + 1 < width) :
    fullRows width (line ++ [c]) = fullRows width line ∧
      openRow width (line ++ [c]) = openRow width line ++ [c] := by
  rw [openRow_length] at hroom
  have hdiv : (line ++ [c]).length / width = line.length / width := by
    rw [List.length_append, List.length_singleton, Nat.succ_div_of_not_dvd]
    intro hdvd
    have hmod : (line.length + 1) % width = 0 := Nat.mod_eq_zero_of_dvd hdvd
    rw [Nat.add_mod, Nat.mod_eq_of_lt (show 1 < width by omega),
      Nat.mod_eq_of_lt hroom] at hmod
    omega
  refine ⟨?_, ?_⟩
  · rw [fullRows, hdiv]
    exact fullRows_concat_prefix width line c
  · rw [openRow, hdiv, List.drop_append_of_le_length (Nat.div_mul_le_self _ _)]
    rfl

theorem rows_concat_full {width : Nat} (hwidth : 0 < width) {line : List α} {c : α}
    (hfull : (openRow width line).length + 1 = width) :
    fullRows width (line ++ [c]) = fullRows width line ++ [openRow width line ++ [c]] ∧
      openRow width (line ++ [c]) = [] := by
  rw [openRow_length] at hfull
  have hsum := Nat.div_add_mod' line.length width
  have hlength : (line ++ [c]).length = (line.length / width + 1) * width := by
    rw [List.length_append, List.length_singleton, Nat.succ_mul]
    omega
  have hdiv : (line ++ [c]).length / width = line.length / width + 1 := by
    rw [hlength, Nat.mul_div_cancel _ hwidth]
  refine ⟨?_, ?_⟩
  · have hlast : ((line ++ [c]).drop (line.length / width * width)).take width =
        openRow width line ++ [c] := by
      rw [List.drop_append_of_le_length (Nat.div_mul_le_self _ _), ← openRow]
      refine List.take_of_length_le ?_
      rw [List.length_append, List.length_singleton, openRow_length]
      omega
    rw [fullRows, hdiv, List.range_succ, List.map_append, List.map_singleton, hlast,
      fullRows_concat_prefix]
  · rw [openRow, hdiv, ← hlength]
    exact List.drop_length

/-! ## One symbol at a time -/

/-- The closed rows and the row that is being written. -/
structure Page (α : Type) where
  above : List (List α)
  line : List α

namespace Page

def empty : Page α := ⟨[], []⟩

def rows (p : Page α) : List (List α) := p.above ++ [p.line]

def break_ (p : Page α) : Page α := ⟨p.rows, []⟩

section Write

variable [DecidableEq α]

def put (width : Nat) (lineBreak : α) (p : Page α) (c : α) : Page α :=
  if c = lineBreak then p.break_
  else if p.line.length + 1 < width then { p with line := p.line ++ [c] }
  else break_ { p with line := p.line ++ [c] }

def write (width : Nat) (lineBreak : α) (text : List α) : Page α :=
  text.foldl (put width lineBreak) empty

theorem write_concat (width : Nat) (lineBreak : α) (text : List α) (c : α) :
    write width lineBreak (text ++ [c]) =
      (write width lineBreak text).put width lineBreak c := by
  rw [write, List.foldl_append, List.foldl_cons, List.foldl_nil, ← write]

theorem write_line_lt {width : Nat} (hwidth : 0 < width) (lineBreak : α) (text : List α) :
    (write width lineBreak text).line.length < width := by
  induction text using List.reverseRecOn with
  | nil => exact hwidth
  | append_singleton text c ih =>
      rw [write_concat, put]
      split
      · exact hwidth
      · split
        · simpa using ‹_›
        · exact hwidth

end Write

end Page

section Rows

variable [DecidableEq α]

theorem splitOn_concat_break (lineBreak : α) (text : List α) :
    (text ++ [lineBreak]).splitOn lineBreak = text.splitOn lineBreak ++ [[]] := by
  rw [List.splitOn_append_cons_self, List.splitOn_nil]

theorem splitOn_concat {lineBreak c : α} (hc : c ≠ lineBreak) {text : List α}
    {lines : List (List α)} {line : List α} (h : text.splitOn lineBreak = lines ++ [line]) :
    (text ++ [c]).splitOn lineBreak = lines ++ [line ++ [c]] := by
  induction text generalizing lines line with
  | nil =>
      rw [List.splitOn_nil] at h
      obtain ⟨rfl, hline⟩ := List.append_inj' (show [] ++ [[]] = lines ++ [line] from h) rfl
      rw [← List.singleton_inj.mp hline, List.nil_append, List.nil_append]
      exact List.splitOn_eq_singleton (by simpa using hc.symm)
  | cons a as ih =>
      rw [List.cons_append, List.splitOn_cons_eq_if_modifyHead]
      rw [List.splitOn_cons_eq_if_modifyHead] at h
      split
      next ha =>
        rw [if_pos ha] at h
        cases lines with
        | nil => simp [List.splitOn_ne_nil] at h
        | cons l ls =>
            rw [List.cons_append, List.cons.injEq] at h
            rw [ih h.2, ← h.1, List.cons_append]
      next ha =>
        rw [if_neg ha] at h
        cases hlines : as.splitOn lineBreak with
        | nil => exact absurd hlines (List.splitOn_ne_nil _ _)
        | cons l ls =>
            rw [hlines, List.modifyHead_cons] at h
            cases lines with
            | nil =>
                obtain ⟨rfl, rfl⟩ := List.cons.inj h
                rw [ih (show as.splitOn lineBreak = [] ++ [l] from hlines)]
                rfl
            | cons m ms =>
                obtain ⟨rfl, rfl⟩ := List.cons.inj h
                rw [ih (show as.splitOn lineBreak = l :: ms ++ [line] from hlines)]
                rfl

theorem rows_eq_page {width : Nat} (hwidth : 0 < width) (lineBreak : α) (text : List α) :
    rows width lineBreak text = (Page.write width lineBreak text).rows := by
  suffices h : ∃ lines line, text.splitOn lineBreak = lines ++ [line] ∧
      (Page.write width lineBreak text).above =
        lines.flatMap (wrapLine width) ++ fullRows width line ∧
      (Page.write width lineBreak text).line = openRow width line by
    obtain ⟨lines, line, hsplit, habove, hline⟩ := h
    rw [rows, hsplit, List.flatMap_append, List.flatMap_singleton, wrapLine_eq hwidth,
      Page.rows, habove, hline, List.append_assoc]
  induction text using List.reverseRecOn with
  | nil =>
      refine ⟨[], [], List.splitOn_nil _, ?_, ?_⟩
      · simp [Page.write, Page.empty, fullRows]
      · simp [Page.write, Page.empty, openRow]
  | append_singleton text c ih =>
      obtain ⟨lines, line, hsplit, habove, hline⟩ := ih
      rw [Page.write_concat, Page.put]
      by_cases hc : c = lineBreak
      · subst hc
        refine ⟨lines ++ [line], [], by rw [splitOn_concat_break, hsplit], ?_, ?_⟩
        · simp [Page.break_, Page.rows, habove, hline, wrapLine_eq hwidth, fullRows]
        · simp [Page.break_, openRow]
      · refine ⟨lines, line ++ [c], splitOn_concat hc hsplit, ?_⟩
        rw [if_neg hc, hline]
        by_cases hroom : (openRow width line).length + 1 < width
        · obtain ⟨hfull, hopen⟩ := rows_concat_open (c := c) hroom
          rw [if_pos hroom, hfull, hopen]
          exact ⟨habove, rfl⟩
        · have hlt := Page.write_line_lt hwidth lineBreak text
          rw [hline] at hlt
          obtain ⟨hfull, hopen⟩ := rows_concat_full (c := c) hwidth
            (show (openRow width line).length + 1 = width by omega)
          rw [if_neg hroom, hfull, hopen]
          exact ⟨by simp [Page.break_, Page.rows, habove], rfl⟩

end Rows

/-! ## The last rows of a page -/

theorem symbolAt_append_nil (blank : α) (page : List (List α)) (row column : Nat) :
    symbolAt blank (page ++ [[]]) row column = symbolAt blank page row column := by
  have hrow : (page ++ [[]]).getD row [] = page.getD row [] := by
    simp only [List.getD_eq_getElem?_getD, List.getElem?_append]
    split
    · rfl
    · next h =>
        have hbehind : page[row]? = none := List.getElem?_eq_none (by omega)
        rw [hbehind]
        cases row - page.length <;> rfl
  rw [symbolAt, symbolAt, hrow]

theorem symbolAt_tail (blank : α) (page : List (List α)) (row column : Nat) :
    symbolAt blank page.tail row column = symbolAt blank page (row + 1) column := by
  cases page with
  | nil => rfl
  | cons first rest => simp [symbolAt]

theorem symbolAt_of_le (blank : α) {page : List (List α)} {row : Nat} (h : page.length ≤ row)
    (column : Nat) : symbolAt blank page row column = blank := by
  have hrow : page.getD row [] = [] := by
    rw [List.getD_eq_getElem?_getD, List.getElem?_eq_none h]
    rfl
  rw [symbolAt, hrow]
  rfl

theorem symbolAt_put (blank : α) (page : List (List α)) (line : List α) (x : α)
    (row column : Nat) :
    symbolAt blank (page ++ [line ++ [x]]) row column =
      if row = page.length ∧ column = line.length then x
      else symbolAt blank (page ++ [line]) row column := by
  rcases Nat.lt_trichotomy row page.length with h | h | h
  · rw [if_neg (by omega)]
    simp [symbolAt, List.getElem?_append, h]
  · subst h
    have hlast (l : List α) : (page ++ [l]).getD page.length [] = l := by simp
    simp only [symbolAt, hlast, true_and]
    split
    next hc => simp [hc]
    next hc =>
      simp only [List.getD_eq_getElem?_getD, List.getElem?_append]
      split
      · rfl
      · rw [List.getElem?_eq_none (by simp; omega), List.getElem?_eq_none (by omega)]
  · rw [if_neg (by omega), symbolAt_of_le, symbolAt_of_le]
    · simpa using Nat.succ_le_of_lt h
    · simpa using Nat.succ_le_of_lt h

namespace Page

/-- The rows a window of a height shows. -/
def visible (height : Nat) (p : Page α) : List (List α) := lastRows height p.rows

theorem visible_eq (height : Nat) (p : Page α) :
    p.visible (height + 1) = p.above.drop (p.above.length - height) ++ [p.line] := by
  rw [visible, lastRows, rows, List.length_append, List.length_singleton,
    Nat.add_sub_add_right, List.drop_append_of_le_length (Nat.sub_le _ _)]

theorem visible_length (height : Nat) (p : Page α) :
    (p.visible (height + 1)).length = min p.above.length height + 1 := by
  rw [visible_eq, List.length_append, List.length_drop, List.length_singleton]
  omega

theorem visible_break_room {height : Nat} {p : Page α} (h : p.above.length < height) :
    p.break_.visible (height + 1) = p.visible (height + 1) ++ [[]] := by
  have hall : p.above.length - height = 0 := by omega
  have hall' : p.rows.length - height = 0 := by
    rw [rows, List.length_append, List.length_singleton]
    omega
  rw [visible_eq, visible_eq, break_, hall, hall', List.drop_zero, List.drop_zero, rows]

theorem visible_break_scroll {height : Nat} {p : Page α} (hheight : 0 < height)
    (h : height ≤ p.above.length) :
    p.break_.visible (height + 1) = (p.visible (height + 1)).tail ++ [[]] := by
  have hrows : p.rows.length - height = p.above.length - height + 1 := by
    rw [rows, List.length_append, List.length_singleton]
    omega
  have hne : p.above.drop (p.above.length - height) ≠ [] := by
    rw [ne_eq, List.drop_eq_nil_iff]
    omega
  simp only [visible_eq, break_, hrows]
  rw [List.tail_append_of_ne_nil hne, List.tail_drop, rows,
    List.drop_append_of_le_length (by omega)]

end Page

end Text
