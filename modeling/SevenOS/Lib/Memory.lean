import SevenOS.Lib.Bytes

/-! # Flat memory

Bytes at addresses, with little-endian words of 32 bits stored in four of them. A
load sees the last store to the same place and does not see a store elsewhere.
-/

@[ext] structure Memory where
  byte : Nat → UInt8

namespace Memory

def load8 (m : Memory) (a : Nat) : UInt8 := m.byte a

def store8 (m : Memory) (a : Nat) (v : UInt8) : Memory :=
  ⟨fun i => if i = a then v else m.byte i⟩

def load32 (m : Memory) (a : Nat) : UInt32 :=
  Bytes.word32 (m.byte a) (m.byte (a + 1)) (m.byte (a + 2)) (m.byte (a + 3))

def store32 (m : Memory) (a : Nat) (v : UInt32) : Memory :=
  ⟨fun i => if a ≤ i ∧ i < a + 4 then (Bytes.bytesOf32 v).getD (i - a) 0 else m.byte i⟩

def load16 (m : Memory) (a : Nat) : UInt16 := Bytes.word16 (m.byte a) (m.byte (a + 1))

def store16 (m : Memory) (a : Nat) (v : UInt16) : Memory :=
  ⟨fun i => if a ≤ i ∧ i < a + 2 then (Bytes.bytesOf16 v).getD (i - a) 0 else m.byte i⟩

def load64 (m : Memory) (a : Nat) : UInt64 :=
  (m.load32 a).toUInt64 ||| ((m.load32 (a + 4)).toUInt64 <<< 32)

theorem load8_store8 (m : Memory) (a : Nat) (v : UInt8) : (m.store8 a v).load8 a = v := by
  simp [load8, store8]

theorem load8_store8_apart (m : Memory) {a b : Nat} (v : UInt8) (h : b ≠ a) :
    (m.store8 a v).load8 b = m.load8 b := by
  simp [load8, store8, h]

theorem load8_store32_apart (m : Memory) {a b : Nat} (v : UInt32) (h : b < a ∨ a + 4 ≤ b) :
    (m.store32 a v).load8 b = m.load8 b := by
  have hout : ¬(a ≤ b ∧ b < a + 4) := by omega
  simp [load8, store32, hout]

theorem load32_store32 (m : Memory) (a : Nat) (v : UInt32) : (m.store32 a v).load32 a = v := by
  simp [load32, store32, Bytes.bytesOf32]

theorem load32_store8_apart (m : Memory) {a b : Nat} (v : UInt8) (h : b + 4 ≤ a ∨ a < b) :
    (m.store8 a v).load32 b = m.load32 b := by
  simp only [load32, store8]
  rw [if_neg (by omega), if_neg (by omega), if_neg (by omega), if_neg (by omega)]

theorem load32_store32_apart (m : Memory) {a b : Nat} (v : UInt32)
    (h : b + 4 ≤ a ∨ a + 4 ≤ b) : (m.store32 a v).load32 b = m.load32 b := by
  simp only [load32, store32]
  rw [if_neg (by omega), if_neg (by omega), if_neg (by omega), if_neg (by omega)]

theorem load16_store16 (m : Memory) (a : Nat) (v : UInt16) : (m.store16 a v).load16 a = v := by
  simp [load16, store16, Bytes.bytesOf16]

theorem byte_store16_apart (m : Memory) {a b : Nat} (v : UInt16) (h : b < a ∨ a + 2 ≤ b) :
    (m.store16 a v).byte b = m.byte b := if_neg (by omega)

theorem byte_store32_apart (m : Memory) {a b : Nat} (v : UInt32) (h : b < a ∨ a + 4 ≤ b) :
    (m.store32 a v).byte b = m.byte b := if_neg (by omega)

/-! ## Stretches of bytes -/

/-- `n` bytes from `a` on overwritten. -/
def fill (m : Memory) (a n : Nat) (f : Nat → UInt8) : Memory :=
  ⟨fun i => if a ≤ i ∧ i < a + n then f (i - a) else m.byte i⟩

theorem fill_zero (m : Memory) (a : Nat) (f : Nat → UInt8) : m.fill a 0 f = m := by
  have hbyte : (fun i => if a ≤ i ∧ i < a + 0 then f (i - a) else m.byte i) = m.byte :=
    funext fun i => if_neg (by omega)
  rw [fill, hbyte]

theorem fill_fill (m : Memory) (a n k : Nat) (f g : Nat → UInt8) :
    (m.fill a n f).fill (a + n) k g =
      m.fill a (n + k) fun i => if i < n then f i else g (i - n) := by
  simp only [fill, mk.injEq]
  funext i
  by_cases hlow : i < a + n
  · by_cases hi : a ≤ i
    · rw [if_neg (by omega), if_pos (by omega), if_pos (by omega), if_pos (by omega)]
    · rw [if_neg (by omega), if_neg (by omega), if_neg (by omega)]
  · by_cases hi : i < a + n + k
    · rw [if_pos (by omega), if_pos (by omega), if_neg (by omega)]
      congr 1
      omega
    · rw [if_neg (by omega), if_neg (by omega), if_neg (by omega)]

theorem fill_congr (m : Memory) (a : Nat) {n : Nat} {f g : Nat → UInt8}
    (h : ∀ i, i < n → f i = g i) : m.fill a n f = m.fill a n g := by
  simp only [fill, mk.injEq]
  funext i
  by_cases hi : a ≤ i ∧ i < a + n
  · rw [if_pos hi, if_pos hi, h _ (by omega)]
  · rw [if_neg hi, if_neg hi]

theorem byte_fill_apart (m : Memory) {a n b : Nat} (f : Nat → UInt8) (h : b < a ∨ a + n ≤ b) :
    (m.fill a n f).byte b = m.byte b := if_neg (by omega)

theorem byte_fill (m : Memory) {a n i : Nat} (f : Nat → UInt8) (h : i < n) :
    (m.fill a n f).byte (a + i) = f i := by
  simp only [fill]
  rw [if_pos (by omega), Nat.add_sub_cancel_left]

theorem eq_fill {m m' : Memory} {a n : Nat}
    (h : ∀ i, i < a ∨ a + n ≤ i → m'.byte i = m.byte i) :
    m' = m.fill a n fun i => m'.byte (a + i) := by
  apply Memory.ext
  funext i
  by_cases hi : a ≤ i ∧ i < a + n
  · have hoff : a + (i - a) = i := by omega
    simp only [fill, if_pos hi, hoff]
  · rw [byte_fill_apart _ _ (by omega)]
    exact h i (by omega)

theorem load32_fill_apart (m : Memory) {a n b : Nat} (f : Nat → UInt8)
    (h : b + 4 ≤ a ∨ a + n ≤ b) : (m.fill a n f).load32 b = m.load32 b := by
  simp only [load32]
  rw [byte_fill_apart _ _ (by omega), byte_fill_apart _ _ (by omega),
    byte_fill_apart _ _ (by omega), byte_fill_apart _ _ (by omega)]

theorem load16_fill_apart (m : Memory) {a n b : Nat} (f : Nat → UInt8)
    (h : b + 2 ≤ a ∨ a + n ≤ b) : (m.fill a n f).load16 b = m.load16 b := by
  simp only [load16]
  rw [byte_fill_apart _ _ (by omega), byte_fill_apart _ _ (by omega)]

theorem store8_store8 (m : Memory) (a : Nat) (v w : UInt8) :
    (m.store8 a v).store8 (a + 1) w = m.fill a 2 fun i => if i = 0 then v else w := by
  simp only [store8, fill, mk.injEq]
  funext i
  by_cases h0 : i = a
  · rw [if_neg (by omega), if_pos h0, if_pos (by omega), if_pos (by omega)]
  · by_cases h1 : i = a + 1
    · rw [if_pos h1, if_pos (by omega), if_neg (by omega)]
    · rw [if_neg h1, if_neg h0, if_neg (by omega)]

end Memory
