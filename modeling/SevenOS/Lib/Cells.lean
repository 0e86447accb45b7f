import SevenOS.Lib.Memory

/-! # Arrays in memory

Cells of `w` bytes one behind the other, as a C array lays them out: assignment to
one cell, the loop that copies an array, and the loop that closes a gap in one.
-/

namespace Memory

variable {w : Nat} {m m' : Memory} {p src dst a i k n : Nat}

/-- `p[i]`, where the elements have `w` bytes. -/
def cell (w : Nat) (m : Memory) (p i : Nat) : Bytes w := fun k => m.byte (p + w * i + k.val)

/-- `p[i] = v` -/
def setCell (m : Memory) (p i : Nat) (v : Bytes w) : Memory := m.fill (p + w * i) w v.at_

/-- The first `n` cells. -/
def cells (w : Nat) (m : Memory) (p n : Nat) : List (Bytes w) := (List.range n).map (m.cell w p)

/-- `for (i = 0; i < n; i++) dst[i] = src[i];` -/
def copyCells (w : Nat) (m : Memory) (src dst n : Nat) : Memory :=
  (List.range n).foldl (fun m i => m.setCell dst i (m.cell w src i)) m

/-- `for (i = first; i < first + k; i++) p[i - 1] = p[i];` -/
def moveDown (w : Nat) (m : Memory) (p first k : Nat) : Memory :=
  (List.range' first k).foldl (fun m i => m.setCell p (i - 1) (m.cell w p i)) m

/-! ## One cell -/

theorem cell_stop_le (w : Nat) (h : i < n) : w * i + w ≤ w * n := by
  have := Nat.mul_le_mul_left w (Nat.succ_le_of_lt h)
  rwa [Nat.mul_succ] at this

theorem cell_congr (h : ∀ a, p + w * i ≤ a → a < p + w * i + w → m'.byte a = m.byte a) :
    m'.cell w p i = m.cell w p i :=
  funext fun k => h _ (by omega) (by omega)

theorem cell_setCell (v : Bytes w) : (m.setCell p i v).cell w p i = v := by
  funext k
  rw [cell, setCell, byte_fill _ _ k.isLt, Bytes.at_, dif_pos k.isLt]

theorem byte_setCell_apart (v : Bytes w) (h : a < p + w * i ∨ p + w * i + w ≤ a) :
    (m.setCell p i v).byte a = m.byte a := byte_fill_apart m _ h

theorem cell_setCell_ne (v : Bytes w) (h : i ≠ k) :
    (m.setCell p i v).cell w p k = m.cell w p k := by
  apply cell_congr
  intro a hlow hhigh
  apply byte_setCell_apart
  rcases Nat.lt_or_gt_of_ne h with hlt | hlt
  · have := cell_stop_le w hlt
    omega
  · have := cell_stop_le w hlt
    omega

/-! ## Arrays -/

@[simp] theorem cells_length (w : Nat) (m : Memory) (p n : Nat) : (m.cells w p n).length = n := by
  rw [cells, List.length_map, List.length_range]

@[simp] theorem cells_zero (w : Nat) (m : Memory) (p : Nat) : m.cells w p 0 = [] := rfl

theorem cells_succ (w : Nat) (m : Memory) (p n : Nat) :
    m.cells w p (n + 1) = m.cells w p n ++ [m.cell w p n] := by
  rw [cells, List.range_succ, List.map_append, List.map_singleton]
  rfl

theorem getElem_cells (h : i < (m.cells w p n).length) : (m.cells w p n)[i] = m.cell w p i := by
  simp only [cells, List.getElem_map, List.getElem_range]

theorem cells_congr (h : ∀ a, p ≤ a → a < p + w * n → m'.byte a = m.byte a) :
    m'.cells w p n = m.cells w p n := by
  apply List.map_congr_left
  intro i hi
  have hstop := cell_stop_le w (List.mem_range.mp hi)
  exact cell_congr fun a hlow hhigh => h a (by omega) (by omega)

theorem cells_pred (w : Nat) (m : Memory) (p n : Nat) :
    m.cells w p (n - 1) = (m.cells w p n).dropLast := by
  cases n with
  | zero => rfl
  | succ n => rw [cells_succ, List.dropLast_concat, Nat.add_sub_cancel]

theorem cells_setCell (v : Bytes w) :
    (m.setCell p n v).cells w p (n + 1) = m.cells w p n ++ [v] := by
  rw [cells_succ, cell_setCell]
  congr 1
  exact cells_congr fun a _ hhigh => byte_setCell_apart v (by omega)

/-! ## The loops -/

theorem copyCells_succ (w : Nat) (m : Memory) (src dst n : Nat) :
    m.copyCells w src dst (n + 1) =
      (m.copyCells w src dst n).setCell dst n ((m.copyCells w src dst n).cell w src n) := by
  rw [copyCells, List.range_succ, List.foldl_append]
  rfl

theorem byte_copyCells (h : a < dst ∨ dst + w * n ≤ a) :
    (m.copyCells w src dst n).byte a = m.byte a := by
  induction n with
  | zero => rfl
  | succ n ih =>
      rw [Nat.mul_succ] at h
      rw [copyCells_succ, byte_setCell_apart _ (by omega), ih (by omega)]

/-- Between arrays that do not overlap the loop copies. -/
theorem cells_copyCells (h : src + w * n ≤ dst ∨ dst + w * n ≤ src) :
    (m.copyCells w src dst n).cells w dst n = m.cells w src n := by
  induction n with
  | zero => rfl
  | succ n ih =>
      rw [Nat.mul_succ] at h
      rw [copyCells_succ, cells_setCell, ih (by omega), cells_succ]
      congr 2
      exact cell_congr fun a hlow hhigh => byte_copyCells (by omega)

theorem moveDown_succ (w : Nat) (m : Memory) (p first k : Nat) :
    m.moveDown w p first (k + 1) = (m.moveDown w p first k).setCell p (first + k - 1)
      ((m.moveDown w p first k).cell w p (first + k)) := by
  rw [moveDown, List.range'_1_concat, List.foldl_append]
  rfl

theorem byte_moveDown (h : a < p ∨ p + w * (i + k) ≤ a) :
    (m.moveDown w p (i + 1) k).byte a = m.byte a := by
  induction k with
  | zero => rfl
  | succ k ih =>
      have hlast : i + 1 + k - 1 = i + k := by omega
      rw [← Nat.add_assoc, Nat.mul_succ] at h
      rw [moveDown_succ, hlast, byte_setCell_apart _ (by omega), ih (by omega)]

/-- Cells `i + 1` to `i + k` have moved down. -/
theorem cell_moveDown (w : Nat) (m : Memory) (p i k j : Nat) :
    (m.moveDown w p (i + 1) k).cell w p j =
      if i ≤ j ∧ j < i + k then m.cell w p (j + 1) else m.cell w p j := by
  induction k generalizing j with
  | zero => rw [if_neg (by omega)]; rfl
  | succ k ih =>
      have hlast : i + 1 + k - 1 = i + k := by omega
      rw [moveDown_succ, hlast]
      by_cases hj : j = i + k
      · subst hj
        rw [cell_setCell, ih, if_neg (by omega), if_pos (by omega), Nat.add_right_comm]
      · rw [cell_setCell_ne _ (Ne.symm hj), ih]
        by_cases hin : i ≤ j ∧ j < i + k
        · rw [if_pos hin, if_pos (by omega)]
        · rw [if_neg hin, if_neg (by omega)]

theorem cells_moveDown (h : i < n) :
    (m.moveDown w p (i + 1) (n - (i + 1))).cells w p (n - 1) = (m.cells w p n).eraseIdx i := by
  apply List.ext_getElem
  · rw [List.length_eraseIdx, cells_length, cells_length, if_pos h]
  · intro j hj hj'
    rw [cells_length] at hj
    rw [getElem_cells, cell_moveDown, List.getElem_eraseIdx]
    by_cases hbefore : j < i
    · rw [if_neg (by omega), dif_pos hbefore, getElem_cells]
    · rw [if_pos (by omega), dif_neg hbefore, getElem_cells]

/-! ## Bytes -/

/-- The `n` bytes from `p` on. -/
def bytes (m : Memory) (p n : Nat) : List UInt8 := (List.range n).map fun i => m.byte (p + i)

@[simp] theorem length_bytes (m : Memory) (p n : Nat) : (m.bytes p n).length = n := by
  rw [bytes, List.length_map, List.length_range]

theorem bytes_eq_cells (m : Memory) (p n : Nat) :
    m.bytes p n = (m.cells 1 p n).map fun b => b 0 := by
  rw [bytes, cells, List.map_map]
  apply List.map_congr_left
  intro i _
  simp [cell]

theorem bytes_succ (m : Memory) (p n : Nat) :
    m.bytes p (n + 1) = m.bytes p n ++ [m.byte (p + n)] := by
  rw [bytes, List.range_succ, List.map_append, List.map_singleton]
  rfl

theorem bytes_congr (h : ∀ a, p ≤ a → a < p + n → m'.byte a = m.byte a) :
    m'.bytes p n = m.bytes p n := by
  apply List.map_congr_left
  intro i hi
  have := List.mem_range.mp hi
  exact h _ (by omega) (by omega)

theorem bytes_copyCells (h : src + n ≤ dst ∨ dst + n ≤ src) :
    (m.copyCells 1 src dst n).bytes dst n = m.bytes src n := by
  rw [bytes_eq_cells, cells_copyCells (by omega), ← bytes_eq_cells]

theorem bytes_store8 (m : Memory) (p n : Nat) (v : UInt8) :
    (m.store8 (p + n) v).bytes p (n + 1) = m.bytes p n ++ [v] := by
  have hlast : (m.store8 (p + n) v).byte (p + n) = v := m.load8_store8 (p + n) v
  rw [bytes_succ, hlast]
  congr 1
  exact bytes_congr fun a _ hhigh => m.load8_store8_apart v (by omega)

theorem getElem?_bytes (m : Memory) (p : Nat) (h : i < n) :
    (m.bytes p n)[i]? = some (m.byte (p + i)) := by
  rw [bytes, List.getElem?_map, List.getElem?_range h]
  rfl

theorem bytes_drop (m : Memory) (p : Nat) (h : k ≤ n) :
    m.bytes (p + i) (k - i) = ((m.bytes p n).take k).drop i := by
  apply List.ext_getElem?
  intro j
  rw [List.getElem?_drop, List.getElem?_take]
  by_cases hj : i + j < k
  · rw [if_pos hj, getElem?_bytes m p (by omega), getElem?_bytes m _ (by omega), Nat.add_assoc]
  · rw [if_neg hj]
    exact List.getElem?_eq_none (by rw [length_bytes]; omega)

end Memory
