import Mathlib.Data.List.GetD
import SevenOS.Lib.Memory
import SevenOS.Lib.Numeral

/-! # Printing of numbers

`int_to_str` puts the digits down from the last to the first and turns the text
around in place. The negation of a negative number is the two's complement one, so
there is one number that stays negative and whose digits come out as other characters.
-/

namespace SevenOS

open Numeral

/-- `reverse`, from the two ends of what is left to turn around. -/
def reverseFrom (m : Memory) (str start last : Nat) : Memory :=
  if start < last then
    let temp := m.load8 (str + start)
    let m := m.store8 (str + start) (m.load8 (str + last))
    let m := m.store8 (str + last) temp
    reverseFrom m str (start + 1) (last - 1)
  else m
termination_by last - start

def reverse (m : Memory) (str len : Nat) : Memory := reverseFrom m str 0 (len - 1)

theorem natAbs_div_ten (n : Int32) : (n / 10).toInt.natAbs = n.toInt.natAbs / 10 := by
  rw [Int32.toInt_div_of_ne_right n 10 (by decide), Int.natAbs_tdiv]
  rfl

theorem natAbs_ne_zero {n : Int32} (h : n ≠ 0) : n.toInt.natAbs ≠ 0 := fun h0 =>
  h (Int32.toInt_inj.mp (Int.natAbs_eq_zero.mp h0))

/-- `while (n != 0)`: the memory and the position behind the digits. -/
def intDigits (m : Memory) (n : Int32) (str i : Nat) : Memory × Nat :=
  if n = 0 then (m, i)
  else intDigits (m.store8 (str + i) (n % 10 + 48).toUInt32.toUInt8) (n / 10) str (i + 1)
termination_by n.toInt.natAbs
decreasing_by
  rw [natAbs_div_ten]
  have hne := natAbs_ne_zero ‹_›
  omega

def intToStr (m : Memory) (n : Int32) (str : Nat) : Memory :=
  if n = 0 then
    let m := m.store8 str 48
    m.store8 (str + 1) 0
  else
    let isNegative : Bool := n < 0
    let n := if isNegative then -n else n
    let (m, i) := intDigits m n str 0
    let (m, i) := if isNegative then (m.store8 (str + i) 45, i + 1) else (m, i)
    let m := m.store8 (str + i) 0
    reverse m str i

/-! ## Digits -/

/-- What comes out for a digit: of a negative number it is taken off the character 0. -/
def signedChar (negative : Bool) (d : Nat) : UInt8 :=
  UInt8.ofNat (if negative then 48 - d else 48 + d)

/-- The number has this sign, or is zero. -/
def HasSign (negative : Bool) (n : Int) : Prop := if negative then n ≤ 0 else 0 ≤ n

theorem toUInt8_of_toInt {x : Int32} {k : Nat} (h : x.toInt = k) :
    x.toUInt32.toUInt8 = UInt8.ofNat k := by
  have hbits : x.toBitVec.toInt = k := h
  have hnat : x.toBitVec.toNat = k := by
    have hlt := x.toBitVec.isLt
    rw [BitVec.toInt_eq_toNat_cond] at hbits
    split at hbits <;> omega
  apply UInt8.toNat.inj
  rw [UInt32.toNat_toUInt8, UInt8.toNat_ofNat']
  change x.toBitVec.toNat % _ = _
  rw [hnat]

/-- Division and remainder of the processor, with the sign apart. -/
theorem tdiv_tmod_of_hasSign {negative : Bool} {n : Int} (h : HasSign negative n) :
    HasSign negative (n.tdiv 10) ∧
      n.tmod 10 = if negative then -((n.natAbs % 10 : Nat) : Int) else (n.natAbs % 10 : Nat) := by
  cases negative with
  | false =>
      have hpos : 0 ≤ n := h
      rw [Int.tdiv_eq_ediv_of_nonneg hpos, Int.tmod_eq_emod_of_nonneg hpos]
      refine ⟨?_, ?_⟩
      · change 0 ≤ n / 10
        omega
      · simp only [Bool.false_eq_true, if_false]
        omega
  | true =>
      obtain ⟨k, rfl⟩ : ∃ k : Nat, n = -k := ⟨n.natAbs, by have : n ≤ 0 := h; omega⟩
      rw [Int.neg_tdiv, Int.neg_tmod, Int.tdiv_eq_ediv_of_nonneg (by omega),
        Int.tmod_eq_emod_of_nonneg (by omega)]
      refine ⟨?_, ?_⟩
      · change -((k : Int) / 10) ≤ 0
        omega
      · simp only [if_true]
        omega

theorem digit_char {negative : Bool} {n : Int32} (h : HasSign negative n.toInt) :
    (n % 10 + 48).toUInt32.toUInt8 = signedChar negative (n.toInt.natAbs % 10) := by
  have hmod : (n % 10).toInt = n.toInt.tmod 10 := Int32.toInt_mod n 10
  have h48 : (48 : Int32).toInt = 48 := rfl
  have hlt : n.toInt.natAbs % 10 < 10 := Nat.mod_lt _ (by decide)
  apply toUInt8_of_toInt
  rw [Int32.toInt_add, hmod, (tdiv_tmod_of_hasSign h).2, h48]
  cases negative with
  | false =>
      simp only [Bool.false_eq_true, if_false]
      rw [Int.bmod_eq_of_le (by omega) (by omega)]
      omega
  | true =>
      simp only [if_true]
      rw [Int.bmod_eq_of_le (by omega) (by omega)]
      omega

/-- Digits from the last on, as the loop leaves them. -/
def digitsOf (negative : Bool) (n : Int32) : List UInt8 :=
  (Nat.digits 10 n.toInt.natAbs).map (signedChar negative)

def putText (m : Memory) (a : Nat) (text : List UInt8) : Memory :=
  m.fill a text.length fun k => text.getD k 0

theorem putText_putText (m : Memory) (a : Nat) (text more : List UInt8) :
    putText (putText m a text) (a + text.length) more = putText m a (text ++ more) := by
  rw [putText, putText, Memory.fill_fill, putText, List.length_append]
  refine Memory.fill_congr m a fun i _ => ?_
  by_cases hi : i < text.length
  · rw [if_pos hi, List.getD_append _ _ _ _ hi]
  · rw [if_neg hi, List.getD_append_right _ _ _ _ (by omega)]

theorem putText_one (m : Memory) (a : Nat) (c : UInt8) : putText m a [c] = m.store8 a c := by
  simp only [putText, Memory.fill, Memory.store8, List.length_singleton, Memory.mk.injEq]
  funext i
  by_cases hi : i = a
  · rw [if_pos (by omega), if_pos hi, hi, Nat.sub_self]
    rfl
  · rw [if_neg (by omega), if_neg hi]

theorem intDigits_eq {negative : Bool} {n : Int32} (h : HasSign negative n.toInt) (m : Memory)
    (str i : Nat) : intDigits m n str i =
      (putText m (str + i) (digitsOf negative n), i + (digitsOf negative n).length) := by
  fun_induction intDigits m n str i with
  | case1 m i => 
      have hnil : digitsOf negative 0 = [] := rfl
      rw [hnil, putText, List.length_nil, Memory.fill_zero, Nat.add_zero]
  | case2 m n i hne ih =>
      have hdiv : HasSign negative (n / 10).toInt := by
        rw [Int32.toInt_div_of_ne_right n 10 (by decide)]
        exact (tdiv_tmod_of_hasSign h).1
      have hdigits : digitsOf negative n =
          signedChar negative (n.toInt.natAbs % 10) :: digitsOf negative (n / 10) := by
        have hpos := Nat.pos_of_ne_zero (natAbs_ne_zero hne)
        rw [digitsOf, Nat.digits_def' (by decide) hpos, List.map_cons, digitsOf, natAbs_div_ten]
      rw [ih hdiv, digit_char h, ← putText_one, hdigits, List.length_cons]
      have hput := putText_putText m (str + i) [signedChar negative (n.toInt.natAbs % 10)]
        (digitsOf negative (n / 10))
      rw [List.length_singleton, List.singleton_append] at hput
      rw [← hput, Nat.add_assoc, Nat.add_assoc, Nat.add_comm 1]

/-! ## Turning around -/

/-- Induction on the distance of the two ends. -/
theorem reverseFrom_byte (m : Memory) (str start last j : Nat) :
    (reverseFrom m str start last).byte j =
      if str + start ≤ j ∧ j ≤ str + last then m.byte (str + start + (str + last) - j)
      else m.byte j := by
  fun_induction reverseFrom m str start last with
  | case1 m start last hlt temp m₁ m₂ ih =>
      rw [ih]
      by_cases hmiddle : str + (start + 1) ≤ j ∧ j ≤ str + (last - 1)
      · have hindex : str + (start + 1) + (str + (last - 1)) - j = str + start + (str + last) - j := by
          omega
        rw [if_pos hmiddle, if_pos (by omega), hindex]
        exact (Memory.load8_store8_apart _ _ (by omega)).trans
          (Memory.load8_store8_apart _ _ (by omega))
      · rw [if_neg hmiddle]
        by_cases hlast : j = str + last
        · have hindex : str + start + (str + last) - j = str + start := by omega
          rw [if_pos (by omega), hindex, hlast]
          exact Memory.load8_store8 _ _ _
        · by_cases hstart : j = str + start
          · have hindex : str + start + (str + last) - j = str + last := by omega
            rw [if_pos (by omega), hindex, hstart]
            exact (Memory.load8_store8_apart _ _ (by omega)).trans (Memory.load8_store8 _ _ _)
          · rw [if_neg (by omega)]
            exact (Memory.load8_store8_apart _ _ hlast).trans
              (Memory.load8_store8_apart _ _ hstart)
  | case2 m start last hle =>
      by_cases hj : str + start ≤ j ∧ j ≤ str + last
      · have hindex : str + start + (str + last) - j = j := by omega
        rw [if_pos hj, hindex]
      · rw [if_neg hj]

theorem putText_byte (m : Memory) (a : Nat) (text : List UInt8) (j : Nat) :
    (putText m a text).byte j =
      if a ≤ j ∧ j < a + text.length then text.getD (j - a) 0 else m.byte j := rfl

theorem reverse_putText (m : Memory) (a : Nat) {text : List UInt8} (hne : text ≠ []) :
    reverse (putText m a text) a text.length = putText m a text.reverse := by
  have hlen : 0 < text.length := List.length_pos_iff.mpr hne
  ext j : 2
  rw [reverse, reverseFrom_byte, putText_byte, putText_byte, putText_byte, List.length_reverse]
  by_cases hj : a ≤ j ∧ j < a + text.length
  · rw [if_pos (by omega), if_pos (by omega), if_pos hj]
    have hindex : a + 0 + (a + (text.length - 1)) - j - a = text.length - 1 - (j - a) := by omega
    rw [hindex, List.getD_eq_getElem _ _ (by omega), List.getD_eq_getElem _ _ (by simp; omega),
      List.getElem_reverse]
  · rw [if_neg (by omega), if_neg hj, if_neg hj]

theorem putText_store8 (m : Memory) (a : Nat) (text : List UInt8) (c : UInt8) :
    (putText m a text).store8 (a + text.length) c =
      putText (m.store8 (a + text.length) c) a text := by
  ext j : 2
  simp only [Memory.store8, putText_byte]
  by_cases hj : j = a + text.length
  · rw [if_pos hj, if_neg (by omega), if_pos hj]
  · rw [if_neg hj, if_neg hj]

/-! ## Texts -/

/-- The last lines of `int_to_str`. -/
theorem reverse_terminated (m : Memory) (str : Nat) {text : List UInt8} (hne : text ≠ []) :
    reverse ((putText m str text).store8 (str + text.length) 0) str text.length =
      putText m str (text.reverse ++ [0]) := by
  rw [putText_store8, reverse_putText _ _ hne, ← List.length_reverse, ← putText_store8,
    ← putText_one, putText_putText]

theorem digitsOf_ne_nil {negative : Bool} {n : Int32} (h : n ≠ 0) : digitsOf negative n ≠ [] := by
  have hne : Nat.digits 10 n.toInt.natAbs ≠ [] :=
    Nat.digits_ne_nil_iff_ne_zero.mpr (natAbs_ne_zero h)
  simp [digitsOf, hne]

theorem intToStr_pos (m : Memory) {n : Int32} (hne : n ≠ 0) (hpos : ¬ n < 0) (str : Nat) :
    intToStr m n str = putText m str ((digitsOf false n).reverse ++ [0]) := by
  have hsign : HasSign false n.toInt := by
    rw [Int32.lt_iff_toInt_lt] at hpos
    exact Int.not_lt.mp hpos
  have hflag : decide (n < 0) = false := decide_eq_false hpos
  rw [intToStr, if_neg hne]
  simp only [hflag, Bool.false_eq_true, if_false, intDigits_eq hsign, Nat.zero_add, Nat.add_zero]
  exact reverse_terminated m str (digitsOf_ne_nil hne)

theorem intToStr_neg (m : Memory) {n : Int32} (hneg : n < 0) (str : Nat) {negative : Bool}
    (hsign : HasSign negative (-n).toInt) :
    intToStr m n str = putText m str (minus :: (digitsOf negative (-n)).reverse ++ [0]) := by
  have hne : n ≠ 0 := by
    rintro rfl
    exact absurd hneg (by decide)
  have hflag : decide (n < 0) = true := decide_eq_true hneg
  have hsigned : ∀ text : List UInt8, (putText m str text).store8 (str + text.length) 45 =
      putText m str (text ++ [minus]) := fun text => by
    rw [← putText_putText, putText_one]
    rfl
  have hsome : digitsOf negative (-n) ++ [minus] ≠ [] := by simp
  have hend := reverse_terminated m str hsome
  rw [intToStr, if_neg hne]
  simp only [hflag, if_true, intDigits_eq hsign, Nat.zero_add, Nat.add_zero, hsigned]
  rw [List.length_append, List.length_singleton, List.reverse_append] at hend
  exact hend

theorem digitsOf_false_reverse (n : Int32) :
    (digitsOf false n).reverse = ofNat n.toInt.natAbs := by
  rw [digitsOf, ← List.map_reverse]
  rfl

theorem toInt_neg {n : Int32} (h : n ≠ Int32.minValue) : (-n).toInt = -n.toInt := by
  have hne : n.toInt ≠ -2147483648 := fun heq => h (Int32.toInt_inj.mp heq)
  have hlow := n.le_toInt
  have hhigh := n.toInt_lt
  rw [Int32.toInt_neg]
  exact Int.bmod_eq_of_le (by omega) (by omega)

theorem intToStr_eq (m : Memory) {n : Int32} (h : n ≠ Int32.minValue) (str : Nat) :
    intToStr m n str = putText m str (ofInt n.toInt ++ [0]) := by
  have hzero : n.toInt = 0 ↔ n = 0 := Int32.toInt_inj (y := 0)
  have hless : n < 0 ↔ n.toInt < 0 := Int32.lt_iff_toInt_lt
  by_cases h0 : n = 0
  · rw [intToStr, if_pos h0, ofInt, if_pos (hzero.mpr h0), ← putText_putText, putText_one,
      putText_one]
    rfl
  · by_cases hneg : n < 0
    · have hsign : HasSign false (-n).toInt := by
        rw [toInt_neg h]
        change 0 ≤ -n.toInt
        have := hless.mp hneg
        omega
      rw [intToStr_neg m hneg str hsign, digitsOf_false_reverse, toInt_neg h, Int.natAbs_neg, ofInt,
        if_neg fun heq => h0 (hzero.mp heq), if_pos (hless.mp hneg)]
    · rw [intToStr_pos m h0 hneg, digitsOf_false_reverse, ofInt,
        if_neg fun heq => h0 (hzero.mp heq), if_neg fun hlt => hneg (hless.mpr hlt)]

/-- The number that its own negation is: every digit is below the character 0. -/
theorem intToStr_minValue (m : Memory) (str : Nat) : intToStr m Int32.minValue str =
    putText m str ([45, 46, 47, 44, 41, 44, 40, 45, 42, 44, 40] ++ [0]) := by
  have hsign : HasSign true (-Int32.minValue).toInt := by
    change (-Int32.minValue).toInt ≤ 0
    decide
  have hdigits : Nat.digits 10 (-Int32.minValue).toInt.natAbs = [8, 4, 6, 3, 8, 4, 7, 4, 1, 2] := by
    change Nat.digits 10 2147483648 = _
    norm_num
  rw [intToStr_neg m (by decide) str hsign, digitsOf, hdigits]
  rfl

/-- A numeral of `n` and its terminator are written, at most 12 bytes, and nothing else. -/
def Prints (n : Int32) (str : Nat) (m m' : Memory) : Prop :=
  ∃ text, Canonical text ∧ intValue text = n.toInt ∧ text.length + 1 ≤ 12 ∧
    m' = putText m str (text ++ [0])

/-- Its text is "-./,),(-*,(". -/
theorem not_prints_minValue (m : Memory) (str : Nat) :
    ¬ Prints Int32.minValue str m (intToStr m Int32.minValue str) := by
  rintro ⟨text, hcanon, -, -, hmem⟩
  rw [intToStr_minValue] at hmem
  have hfirst : 45 = (putText m str (text ++ [0])).byte str := by
    rw [← hmem, putText_byte, if_pos (by simp), Nat.sub_self]
    rfl
  have hsecond : 46 = (putText m str (text ++ [0])).byte (str + 1) := by
    rw [← hmem, putText_byte, if_pos (by simp), Nat.add_sub_cancel_left]
    rfl
  cases text with
  | nil => exact hcanon.nonempty rfl
  | cons c rest =>
      rw [putText_byte, if_pos (by simp), Nat.sub_self] at hfirst
      change 45 = c at hfirst
      subst hfirst
      cases rest with
      | nil => exact hcanon.nonempty rfl
      | cons d rest =>
          rw [putText_byte, if_pos (by simp), Nat.add_sub_cancel_left] at hsecond
          change 46 = d at hsecond
          subst hsecond
          exact absurd (hcanon.digits 46 (by simp [magnitude, minus])) (by decide)

/-- `int_to_str` prints every number but the least one. -/
theorem intToStr_prints (m : Memory) (n : Int32) (str : Nat) :
    Prints n str m (intToStr m n str) ↔ n ≠ Int32.minValue := by
  constructor
  · rintro hprints rfl
    exact not_prints_minValue m str hprints
  · intro h
    have hlow := n.le_toInt
    have hhigh := n.toInt_lt
    exact ⟨ofInt n.toInt, canonical_ofInt _, intValue_ofInt _,
      Nat.succ_le_succ (length_ofInt (k := 10) (by omega)), intToStr_eq m h str⟩

theorem not_intToStr_prints :
    ¬ ∀ (m : Memory) (n : Int32) (str : Nat), Prints n str m (intToStr m n str) := fun h =>
  not_prints_minValue ⟨fun _ => 0⟩ 0 (h _ _ _)

end SevenOS
