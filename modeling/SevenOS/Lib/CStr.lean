import Mathlib.Data.List.TakeWhile
import SevenOS.Lib.Bytes

/-! # NUL-terminated strings

A `CStr` is what a `const char*` points at, up to its terminator; that no byte
of it is NUL is a field, so every scan for the terminator stops at the end of
the list.
-/

structure CStr where
  chars : List UInt8
  noNul : ∀ c ∈ chars, c ≠ 0

namespace CStr

@[ext] theorem ext {s t : CStr} (h : s.chars = t.chars) : s = t := by
  cases s; cases t; cases h; rfl

instance : DecidableEq CStr := fun s t =>
  decidable_of_iff (s.chars = t.chars) ⟨CStr.ext, fun h => h ▸ rfl⟩

def empty : CStr := ⟨[], by simp⟩

def length (s : CStr) : Nat := s.chars.length

def take (s : CStr) (k : Nat) : CStr :=
  ⟨s.chars.take k, fun c hc => s.noNul c (List.mem_of_mem_take hc)⟩

def drop (s : CStr) (k : Nat) : CStr :=
  ⟨s.chars.drop k, fun c hc => s.noNul c (List.mem_of_mem_drop hc)⟩

def append (s t : CStr) : CStr :=
  ⟨s.chars ++ t.chars, fun c hc => (List.mem_append.mp hc).elim (s.noNul c) (t.noNul c)⟩

/-- The string starting at a byte sequence: everything before the first NUL. -/
def ofBytes (bytes : List UInt8) : CStr :=
  ⟨bytes.takeWhile (· ≠ 0), fun _ hc => by simpa using List.mem_takeWhile_imp hc⟩

/-- The loop of a C string comparison. -/
def equals : List UInt8 → List UInt8 → Bool
  | a :: as, b :: bs => if a ≠ b then false else equals as bs
  | [], [] => true
  | _, _ => false

theorem equals_iff (a b : List UInt8) : equals a b = true ↔ a = b := by
  induction a generalizing b with
  | nil => cases b <;> simp [equals]
  | cons x xs ih =>
      cases b with
      | nil => simp [equals]
      | cons y ys =>
          by_cases h : x = y
          · simp [equals, h, ih]
          · simp [equals, h]

@[simp] theorem length_empty : empty.length = 0 := rfl

theorem length_eq_zero {s : CStr} : s.length = 0 ↔ s = empty := by
  constructor
  · intro h
    exact CStr.ext (List.length_eq_zero_iff.mp h)
  · rintro rfl; rfl

@[simp] theorem ofBytes_nul (rest : List UInt8) : ofBytes (0 :: rest) = empty := by
  apply CStr.ext
  simp [ofBytes, empty]

theorem ofBytes_cons {c : UInt8} (hc : c ≠ 0) (rest : List UInt8) :
    (ofBytes (c :: rest)).chars = c :: (ofBytes rest).chars := by
  simp [ofBytes, hc]

theorem ofBytes_eq {bytes : List UInt8} (h : ∀ c ∈ bytes, c ≠ 0) :
    (ofBytes bytes).chars = bytes := by
  rw [ofBytes, List.takeWhile_eq_self_iff]
  simpa using h

theorem ofBytes_chars (s : CStr) : ofBytes s.chars = s := CStr.ext (ofBytes_eq s.noNul)

end CStr

/-! ## Strings inside a block -/

namespace Bytes

variable {n : Nat}

/-- The string that starts at an offset. -/
def cstr (b : Bytes n) (off : Nat) : CStr := CStr.ofBytes (b.suffix off)

theorem cstr_of_nul (b : Bytes n) {off : Nat} (h : b.at_ off = 0) : b.cstr off = CStr.empty := by
  by_cases hoff : off < n
  · rw [cstr, suffix_cons b hoff, h, CStr.ofBytes_nul]
  · rw [cstr, suffix_nil b (by omega)]
    rfl

theorem cstr_chars_cons (b : Bytes n) {off : Nat} (h : b.at_ off ≠ 0) :
    (b.cstr off).chars = b.at_ off :: (b.cstr (off + 1)).chars := by
  have hoff : off < n := by
    by_contra hge
    exact h (b.at_of_ge (by omega))
  rw [cstr, suffix_cons b hoff, CStr.ofBytes_cons h, cstr]

/-- Every string in a block ends with a NUL: if need be the one behind the block. -/
theorem at_cstr_length (b : Bytes n) (off : Nat) : b.at_ (off + (b.cstr off).length) = 0 := by
  generalize hs : (b.cstr off).length = len
  induction len generalizing off with
  | zero =>
      by_contra h
      rw [Nat.add_zero] at h
      simp [CStr.length, cstr_chars_cons b h] at hs
  | succ len ih =>
      have h : b.at_ off ≠ 0 := by
        intro h0
        rw [cstr_of_nul b h0] at hs
        simp at hs
      have hlen : (b.cstr (off + 1)).length = len := by
        simpa [CStr.length, cstr_chars_cons b h] using hs
      have := ih (off + 1) hlen
      rwa [Nat.add_right_comm, Nat.add_assoc] at this

/-- A string depends on its bytes up to its terminator only. -/
theorem cstr_congr (b c : Bytes n) {off t : Nat} (hnul : b.at_ (off + t) = 0)
    (h : ∀ i, i ≤ t → c.at_ (off + i) = b.at_ (off + i)) : c.cstr off = b.cstr off := by
  induction t generalizing off with
  | zero =>
      have h0 := h 0 (Nat.le_refl 0)
      simp only [Nat.add_zero] at h0 hnul
      rw [cstr_of_nul b hnul, cstr_of_nul c (h0.trans hnul)]
  | succ t ih =>
      have h0 := h 0 (Nat.zero_le _)
      simp only [Nat.add_zero] at h0
      have hrest : c.cstr (off + 1) = b.cstr (off + 1) := by
        apply ih
        · rwa [Nat.add_right_comm, Nat.add_assoc]
        · intro i hi
          have := h (i + 1) (by omega)
          rwa [Nat.add_right_comm, Nat.add_assoc]
      by_cases hb : b.at_ off = 0
      · rw [cstr_of_nul b hb, cstr_of_nul c (h0.trans hb)]
      · apply CStr.ext
        rw [cstr_chars_cons b hb, cstr_chars_cons c (h0 ▸ hb), h0, hrest]

/-- Reading a string back: its bytes and a terminator are there. -/
theorem cstr_eq (b : Bytes n) (s : CStr) {off : Nat}
    (hchars : ∀ i (h : i < s.chars.length), b.at_ (off + i) = s.chars[i])
    (hnul : b.at_ (off + s.chars.length) = 0) : b.cstr off = s := by
  obtain ⟨chars, hs⟩ := s
  apply CStr.ext
  simp only at hchars hnul ⊢
  induction chars generalizing off with
  | nil => rw [cstr_of_nul b (by simpa using hnul)]; rfl
  | cons c cs ih =>
      have h0 : b.at_ off = c := hchars 0 (by simp)
      have hc : c ≠ 0 := hs c (by simp)
      have hrest : (b.cstr (off + 1)).chars = cs := by
        apply ih (fun x hx => hs x (by simp [hx]))
        · intro i hi
          have := hchars (i + 1) (by simpa using hi)
          rwa [Nat.add_right_comm off 1 i, Nat.add_assoc]
        · rwa [Nat.add_right_comm off 1, Nat.add_assoc]
      rw [cstr_chars_cons b (h0 ▸ hc), h0, hrest]

end Bytes
