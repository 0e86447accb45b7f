import Mathlib.Data.List.Basic
import Mathlib.Data.List.TakeWhile

/-! # Parts joined by a separator

A list cut into parts by a separator that none of them contains: what the joined
list says about its parts, and how joins are taken apart.
-/

namespace Joined

variable {α : Type} {sep : α} {parts front rest : List (List α)}

def joined (sep : α) (parts : List (List α)) : List α := [sep].intercalate parts

@[simp] theorem joined_nil : joined sep [] = [] := rfl

@[simp] theorem joined_singleton (part : List α) : joined sep [part] = part :=
  List.intercalate_singleton

theorem joined_cons (part : List α) (hrest : rest ≠ []) :
    joined sep (part :: rest) = part ++ sep :: joined sep rest := by
  rw [joined, joined, List.intercalate_cons_of_ne_nil hrest, List.append_assoc,
    List.singleton_append]

theorem joined_append (hfront : front ≠ []) (hrest : rest ≠ []) :
    joined sep (front ++ rest) = joined sep front ++ sep :: joined sep rest := by
  induction front with
  | nil => exact absurd rfl hfront
  | cons part front ih =>
      rw [List.cons_append, joined_cons part (List.append_ne_nil_of_right_ne_nil front hrest)]
      by_cases hlast : front = []
      · rw [hlast, List.nil_append, joined_singleton]
      · rw [ih hlast, joined_cons part hlast, List.append_assoc, List.cons_append]

theorem joined_ne_nil (hparts : ∀ part ∈ parts, part ≠ []) (h : parts ≠ []) :
    joined sep parts ≠ [] := by
  cases parts with
  | nil => exact absurd rfl h
  | cons part parts =>
      by_cases hlast : parts = []
      · rw [hlast, joined_singleton]
        exact hparts part List.mem_cons_self
      · rw [joined_cons part hlast]
        simp

theorem sep_mem_joined (hparts : ∀ part ∈ parts, sep ∉ part) :
    sep ∈ joined sep parts ↔ 1 < parts.length := by
  match parts with
  | [] => simp
  | [part] => simpa using hparts part List.mem_cons_self
  | part :: next :: rest =>
      rw [joined_cons part (List.cons_ne_nil next rest)]
      simp

/-- Reading up to the first separator gives the first part. -/
theorem takeWhile_joined [DecidableEq α] {part : List α} (hpart : sep ∉ part) :
    (joined sep (part :: rest)).takeWhile (· ≠ sep) = part := by
  have hall : ∀ x ∈ part, decide (x ≠ sep) = true := by
    intro x hx
    rw [decide_eq_true_eq]
    rintro rfl
    exact hpart hx
  by_cases hlast : rest = []
  · rw [hlast, joined_singleton, List.takeWhile_eq_self_iff]
    exact hall
  · rw [joined_cons part hlast, List.takeWhile_append_of_pos hall, List.takeWhile_cons_of_neg]
    · exact List.append_nil part
    · simp

end Joined
