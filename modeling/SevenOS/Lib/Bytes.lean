import Mathlib.Algebra.Group.Nat.Defs

/-! # Fixed-size byte blocks

Byte blocks with the two C loops every packed format is built from, filling and
copying, and little-endian words. Reads behind the end give 0 and writes behind
the end are dropped: what lies there is not part of the block.
-/

/-- A block of `n` bytes. -/
abbrev Bytes (n : Nat) : Type := Fin n → UInt8

namespace Bytes

variable {n : Nat}

def zero : Bytes n := fun _ => 0

def at_ (b : Bytes n) (i : Nat) : UInt8 := if h : i < n then b ⟨i, h⟩ else 0

/-- Store `v` in the `count` bytes from `off` on. -/
def fill (b : Bytes n) (off count : Nat) (v : UInt8) : Bytes n := fun i =>
  if off ≤ i.val ∧ i.val < off + count then v else b i

def put (b : Bytes n) (off : Nat) (v : UInt8) : Bytes n := b.fill off 1 v

/-- Copy `src` to the bytes from `off` on. -/
def paste (b : Bytes n) (off : Nat) (src : List UInt8) : Bytes n := fun i =>
  if off ≤ i.val ∧ i.val < off + src.length then src.getD (i.val - off) 0 else b i

/-- The bytes from `off` to the end of the block. -/
def suffix (b : Bytes n) (off : Nat) : List UInt8 :=
  (List.range' off (n - off)).map b.at_

/-- The first `count` bytes. -/
def firstBytes (b : Bytes n) (count : Nat) : List UInt8 := (List.range count).map b.at_

@[ext] theorem ext_at {b c : Bytes n} (h : ∀ i, i < n → b.at_ i = c.at_ i) : b = c := by
  funext i
  simpa [at_, i.isLt] using h i.val i.isLt

theorem at_of_ge (b : Bytes n) {i : Nat} (h : n ≤ i) : b.at_ i = 0 := by
  simp [at_, Nat.not_lt.mpr h]

@[simp] theorem at_zero (i : Nat) : (zero : Bytes n).at_ i = 0 := by
  simp [at_, zero]

theorem at_fill (b : Bytes n) (off count : Nat) (v : UInt8) {i : Nat} (hi : i < n) :
    (b.fill off count v).at_ i = if off ≤ i ∧ i < off + count then v else b.at_ i := by
  simp [at_, fill, hi]

theorem at_put (b : Bytes n) (off : Nat) (v : UInt8) {i : Nat} (hi : i < n) :
    (b.put off v).at_ i = if i = off then v else b.at_ i := by
  have same : off ≤ i ∧ i < off + 1 ↔ i = off := by omega
  rw [put, at_fill _ _ _ _ hi]
  simp only [same]

theorem at_paste (b : Bytes n) (off : Nat) (src : List UInt8) {i : Nat} (hi : i < n) :
    (b.paste off src).at_ i =
      if off ≤ i ∧ i < off + src.length then src.getD (i - off) 0 else b.at_ i := by
  simp [at_, paste, hi]

theorem firstBytes_paste (b : Bytes n) (src : List UInt8) (h : src.length ≤ n) :
    (b.paste 0 src).firstBytes src.length = src := by
  refine List.ext_getElem (by simp [firstBytes]) fun i hi hi' => ?_
  simp only [firstBytes, List.getElem_map, List.getElem_range]
  rw [at_paste _ _ _ (Nat.lt_of_lt_of_le hi' h), if_pos (by omega)]
  simp [hi']

theorem at_of_firstBytes {b : Bytes n} {count : Nat} {c : UInt8} {rest : List UInt8}
    (h : b.firstBytes count = c :: rest) : b.at_ 0 = c := by
  cases count with
  | zero => cases h
  | succ count =>
      rw [firstBytes, List.range_succ_eq_map, List.map_cons] at h
      exact (List.cons.inj h).1

theorem suffix_cons (b : Bytes n) {off : Nat} (h : off < n) :
    b.suffix off = b.at_ off :: b.suffix (off + 1) := by
  obtain ⟨k, hk⟩ : ∃ k, n - off = k + 1 := ⟨n - off - 1, by omega⟩
  have hk' : n - (off + 1) = k := by omega
  simp [suffix, hk, hk', List.range'_succ]

theorem suffix_nil (b : Bytes n) {off : Nat} (h : n ≤ off) : b.suffix off = [] := by
  simp [suffix, Nat.sub_eq_zero_of_le h]

/-! ## Little-endian words -/

def word16 (lo hi : UInt8) : UInt16 := UInt16.ofNat (lo.toNat + 256 * hi.toNat)

def word32 (b0 b1 b2 b3 : UInt8) : UInt32 :=
  UInt32.ofNat (b0.toNat + 256 * b1.toNat + 65536 * b2.toNat + 16777216 * b3.toNat)

def bytesOf16 (x : UInt16) : List UInt8 :=
  [x.toUInt8, UInt8.ofNat (x.toNat / 256)]

def bytesOf32 (x : UInt32) : List UInt8 :=
  [x.toUInt8, UInt8.ofNat (x.toNat / 256), UInt8.ofNat (x.toNat / 65536),
    UInt8.ofNat (x.toNat / 16777216)]

@[simp] theorem bytesOf16_length (x : UInt16) : (bytesOf16 x).length = 2 := rfl
@[simp] theorem bytesOf32_length (x : UInt32) : (bytesOf32 x).length = 4 := rfl

def get16 (b : Bytes n) (off : Nat) : UInt16 := word16 (b.at_ off) (b.at_ (off + 1))

def get32 (b : Bytes n) (off : Nat) : UInt32 :=
  word32 (b.at_ off) (b.at_ (off + 1)) (b.at_ (off + 2)) (b.at_ (off + 3))

@[simp] theorem word16_bytesOf16 (x : UInt16) :
    word16 x.toUInt8 (UInt8.ofNat (x.toNat / 256)) = x := by
  apply UInt16.toNat.inj
  have hx := x.toNat_lt
  simp only [word16, UInt16.toNat_ofNat', UInt8.toNat_ofNat', UInt16.toNat_toUInt8]
  omega

@[simp] theorem word32_bytesOf32 (x : UInt32) :
    word32 x.toUInt8 (UInt8.ofNat (x.toNat / 256)) (UInt8.ofNat (x.toNat / 65536))
      (UInt8.ofNat (x.toNat / 16777216)) = x := by
  apply UInt32.toNat.inj
  have hx := x.toNat_lt
  simp only [word32, UInt32.toNat_ofNat', UInt8.toNat_ofNat', UInt32.toNat_toUInt8]
  omega

/-! ## Bits

Bit `i` of a block: bit `i % 8` of byte `i / 8`, reached by a shifted mask.
-/

def mask (i : Nat) : UInt8 := 1 <<< UInt8.ofNat (i % 8)

def testBit (b : Bytes n) (i : Nat) : Bool := b.at_ (i / 8) &&& mask i != 0

def setBit (b : Bytes n) (i : Nat) : Bytes n := b.put (i / 8) (b.at_ (i / 8) ||| mask i)

def clearBit (b : Bytes n) (i : Nat) : Bytes n := b.put (i / 8) (b.at_ (i / 8) &&& ~~~(mask i))

theorem mask_toNat (i : Nat) : (mask i).toNat = 2 ^ (i % 8) := by
  have hi : i % 8 < 8 := Nat.mod_lt _ (by decide)
  have hpow : 2 ^ (i % 8) < 256 := Nat.pow_lt_pow_of_lt (a := 2) (m := 8) (by decide) hi
  have hmod : i % 8 % 256 % 8 = i % 8 := by omega
  simp only [mask, UInt8.toNat_shiftLeft, UInt8.toNat_ofNat', Nat.shiftLeft_eq, hmod]
  simpa using hpow

theorem and_two_pow_ne_zero (x m : Nat) : (x &&& 2 ^ m != 0) = x.testBit m := by
  cases h : x.testBit m with
  | false =>
      have hzero : x &&& 2 ^ m = 0 := by
        apply Nat.eq_of_testBit_eq
        intro i
        rw [Nat.testBit_and, Nat.testBit_two_pow]
        by_cases hi : m = i
        · subst hi; simp [h]
        · simp [hi]
      simp [hzero]
  | true =>
      have hbit : (x &&& 2 ^ m).testBit m = true := by simp [h]
      have hne : x &&& 2 ^ m ≠ 0 := by
        intro hzero
        simp [hzero] at hbit
      simpa using hne

theorem testBit_eq (b : Bytes n) (i : Nat) :
    b.testBit i = (b.at_ (i / 8)).toNat.testBit (i % 8) := by
  have hzero : (b.at_ (i / 8) &&& mask i != 0) =
      ((b.at_ (i / 8)).toNat &&& 2 ^ (i % 8) != 0) := by
    rw [← mask_toNat, ← UInt8.toNat_and, Bool.eq_iff_iff]
    simp [← UInt8.toNat_inj]
  rw [testBit, hzero, and_two_pow_ne_zero]

/-- Setting a bit adds its index to the set of the bits set. -/
theorem testBit_setBit (b : Bytes n) {i j : Nat} (hj : j < 8 * n) :
    (b.setBit i).testBit j = (decide (j = i) || b.testBit j) := by
  rw [testBit_eq, setBit, at_put _ _ _ (by omega), testBit_eq]
  by_cases hbyte : j / 8 = i / 8
  · rw [if_pos hbyte, UInt8.toNat_or, Nat.testBit_or, mask_toNat, Nat.testBit_two_pow, hbyte,
      Bool.or_comm]
    congr 1
    simp only [decide_eq_decide]
    omega
  · have hne : j ≠ i := fun h => hbyte (by rw [h])
    simp [hbyte, hne]

theorem testBit_clearBit (b : Bytes n) {i j : Nat} (hj : j < 8 * n) :
    (b.clearBit i).testBit j = (!decide (j = i) && b.testBit j) := by
  rw [testBit_eq, clearBit, at_put _ _ _ (by omega), testBit_eq]
  by_cases hbyte : j / 8 = i / 8
  · have hmask : (~~~(mask i)).toNat = 2 ^ 8 - (2 ^ (i % 8) + 1) := by
      rw [UInt8.toNat_not, mask_toNat]
      simp [UInt8.size]
    have hsmall : 2 ^ (i % 8) < 2 ^ 8 := Nat.pow_lt_pow_right (by decide) (by omega)
    rw [if_pos hbyte, UInt8.toNat_and, Nat.testBit_and, hmask,
      Nat.testBit_two_pow_sub_succ hsmall, Nat.testBit_two_pow, hbyte, Bool.and_comm]
    congr 1
    have hj8 : j % 8 < 8 := by omega
    simp only [hj8, decide_true, Bool.true_and]
    congr 1
    simp only [decide_eq_decide]
    omega
  · have hne : j ≠ i := fun h => hbyte (by rw [h])
    simp [hbyte, hne]

/-- A block is the set of the bits set in it. -/
theorem ext_testBit {b c : Bytes n} (h : ∀ i, i < 8 * n → b.testBit i = c.testBit i) : b = c := by
  apply ext_at
  intro i hi
  apply UInt8.toNat.inj
  apply Nat.eq_of_testBit_eq
  intro m
  by_cases hm : m < 8
  · have hbit := h (8 * i + m) (by omega)
    have hdiv : (8 * i + m) / 8 = i := by omega
    have hmod : (8 * i + m) % 8 = m := by omega
    rwa [testBit_eq, testBit_eq, hdiv, hmod] at hbit
  · have high : ∀ x : UInt8, x.toNat.testBit m = false := fun x =>
      Nat.testBit_lt_two_pow (Nat.lt_of_lt_of_le x.toNat_lt
        (Nat.pow_le_pow_right (by decide) (Nat.le_of_not_lt hm)))
    rw [high, high]

end Bytes

/-! ## Tables

A table with one cell assigned. `Function.update` says the same but casts along
the equality of the index, which makes long chains of updates slow to evaluate.
-/

section Assign

variable {ι α : Type} [DecidableEq ι]

def assign (f : ι → α) (i : ι) (a : α) : ι → α := fun j => if j = i then a else f j

@[simp] theorem assign_same (f : ι → α) (i : ι) (a : α) : assign f i a i = a := by
  simp [assign]

theorem assign_apply (f : ι → α) (i j : ι) (a : α) :
    assign f i a j = if j = i then a else f j := rfl

@[simp] theorem assign_of_ne (f : ι → α) {i j : ι} (a : α) (h : j ≠ i) :
    assign f i a j = f j := by
  simp [assign, h]

end Assign
