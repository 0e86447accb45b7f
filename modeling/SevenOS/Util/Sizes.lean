import SevenOS.Lib.CStr
import SevenOS.Util.Decimal

/-! # Printing of sizes

`print_size_auto` and `print_size_autonl` show a number of bytes in one unit, as a
rounded number of it. The sum is taken in 64 bits and the result is cut to a signed
32-bit number before it is printed.
-/

namespace SevenOS

open Numeral

inductive SizeUnit where
  | kb
  | mb
  | gb
  deriving DecidableEq

namespace SizeUnit

/-- " KB", " MB" and " GB" -/
def suffix : SizeUnit → CStr
  | kb => ⟨[32, 75, 66], by simp⟩
  | mb => ⟨[32, 77, 66], by simp⟩
  | gb => ⟨[32, 71, 66], by simp⟩

end SizeUnit

/-- `val` and the unit. -/
def sizeVal (bytes : UInt64) : UInt64 × SizeUnit :=
  if (1 : UInt64) <<< 30 ≤ bytes then ((bytes + ((1 : UInt64) <<< 29)) >>> 30, .gb)
  else if (1 : UInt64) <<< 20 ≤ bytes then ((bytes + ((1 : UInt64) <<< 19)) >>> 20, .mb)
  else ((bytes + 1023) >>> 10, .kb)

/-- `int_to_str((int)val, buf)` -/
def sizeBuf (stack : Memory) (val : UInt64) : Memory := intToStr stack val.toUInt32.toInt32 0

/-- What both functions print: the label, `buf` and the unit. -/
def sizeText (stack : Memory) (label : CStr) (bytes : UInt64) : CStr :=
  let (val, unit) := sizeVal bytes
  (label.append (CStr.ofBytes ((List.range 20).map (sizeBuf stack val).byte))).append unit.suffix

/-! ## Rounding -/

/-- The largest unit of which there is a whole one. -/
def unitFor (bytes : Nat) : SizeUnit :=
  if 2 ^ 30 ≤ bytes then .gb else if 2 ^ 20 ≤ bytes then .mb else .kb

/-- Megabytes and gigabytes to the nearest one, a half upwards; kilobytes so that they
suffice. -/
def SizeUnit.Rounds (bytes : Nat) (n : Int) : SizeUnit → Prop
  | kb => bytes ≤ n * 2 ^ 10 ∧ n * 2 ^ 10 < bytes + 2 ^ 10
  | mb => n * 2 ^ 20 ≤ bytes + 2 ^ 19 ∧ bytes + 2 ^ 19 < (n + 1) * 2 ^ 20
  | gb => n * 2 ^ 30 ≤ bytes + 2 ^ 29 ∧ bytes + 2 ^ 29 < (n + 1) * 2 ^ 30

/-- The number of bytes in a unit that suits, rounded, behind the label. -/
def ShowsSize (label : CStr) (bytes : Nat) (text : CStr) : Prop :=
  ∃ numeral, Canonical numeral ∧ (unitFor bytes).Rounds bytes (intValue numeral) ∧
    text.chars = label.chars ++ numeral ++ (unitFor bytes).suffix.chars

theorem sizeVal_unit (bytes : UInt64) : (sizeVal bytes).2 = unitFor bytes.toNat := by
  have h30 : (1 : UInt64) <<< 30 ≤ bytes ↔ 2 ^ 30 ≤ bytes.toNat := UInt64.le_iff_toNat_le
  have h20 : (1 : UInt64) <<< 20 ≤ bytes ↔ 2 ^ 20 ≤ bytes.toNat := UInt64.le_iff_toNat_le
  rw [sizeVal, unitFor]
  simp only [h30, h20]
  split
  · rfl
  · split <;> rfl

/-- As long as the sum fits, `val` is the rounded number. -/
theorem sizeVal_rounds {bytes : UInt64} (h : bytes.toNat < 2 ^ 64 - 2 ^ 29) :
    (unitFor bytes.toNat).Rounds bytes.toNat ((sizeVal bytes).1.toNat : Nat) := by
  have h30 : (1 : UInt64) <<< 30 ≤ bytes ↔ 2 ^ 30 ≤ bytes.toNat := UInt64.le_iff_toNat_le
  have h20 : (1 : UInt64) <<< 20 ≤ bytes ↔ 2 ^ 20 ≤ bytes.toNat := UInt64.le_iff_toNat_le
  have shifted : ∀ (add : UInt64) (k : Nat), add.toNat ≤ 2 ^ 29 → k < 64 →
      ((bytes + add) >>> UInt64.ofNat k).toNat = (bytes.toNat + add.toNat) / 2 ^ k := by
    intro add k hadd hk
    rw [UInt64.toNat_shiftRight, UInt64.toNat_add, UInt64.toNat_ofNat', Nat.shiftRight_eq_div_pow,
      Nat.mod_eq_of_lt (show bytes.toNat + add.toNat < 2 ^ 64 by omega),
      Nat.mod_eq_of_lt (show k < 2 ^ 64 by omega), Nat.mod_eq_of_lt hk]
  rw [sizeVal, unitFor]
  simp only [h30, h20]
  by_cases hgb : 2 ^ 30 ≤ bytes.toNat
  · have hval := shifted ((1 : UInt64) <<< 29) 30 (by decide) (by decide)
    have hadd : ((1 : UInt64) <<< 29).toNat = 2 ^ 29 := by decide
    change ((bytes + (1 : UInt64) <<< 29) >>> 30).toNat = _ at hval
    rw [if_pos hgb, if_pos hgb, SizeUnit.Rounds, hval, hadd]
    omega
  · by_cases hmb : 2 ^ 20 ≤ bytes.toNat
    · have hval := shifted ((1 : UInt64) <<< 19) 20 (by decide) (by decide)
      have hadd : ((1 : UInt64) <<< 19).toNat = 2 ^ 19 := by decide
      change ((bytes + (1 : UInt64) <<< 19) >>> 20).toNat = _ at hval
      rw [if_neg hgb, if_pos hmb, if_neg hgb, if_pos hmb, SizeUnit.Rounds, hval, hadd]
      omega
    · have hval := shifted 1023 10 (by decide) (by decide)
      have hadd : (1023 : UInt64).toNat = 1023 := by decide
      change ((bytes + 1023) >>> 10).toNat = _ at hval
      rw [if_neg hgb, if_neg hmb, if_neg hgb, if_neg hmb, SizeUnit.Rounds, hval, hadd]
      omega

/-! ## The number as it is printed -/

theorem int32_of_lt {val : UInt64} (h : val.toNat < 2 ^ 31) :
    val.toUInt32.toInt32.toInt = val.toNat ∧ val.toUInt32.toInt32 ≠ Int32.minValue := by
  have hnat : val.toUInt32.toBitVec.toNat = val.toNat := by
    change val.toUInt32.toNat = _
    rw [UInt64.toNat_toUInt32]
    omega
  have hint : val.toUInt32.toInt32.toInt = val.toNat := by
    change val.toUInt32.toBitVec.toInt = _
    rw [BitVec.toInt_eq_toNat_cond, hnat, if_pos (by omega)]
  refine ⟨hint, fun heq => ?_⟩
  rw [heq] at hint
  have hmin : Int32.minValue.toInt = -2147483648 := by decide
  omega

/-- A short text and its terminator at the start of the buffer, read back. -/
theorem ofBytes_putText (stack : Memory) {text : List UInt8} (hnul : ∀ c ∈ text, c ≠ 0)
    (hlen : text.length < 20) :
    (CStr.ofBytes ((List.range 20).map (putText stack 0 (text ++ [0])).byte)).chars = text := by
  have hcells : ∀ i, (putText stack 0 (text ++ [0])).byte i =
      if i < text.length + 1 then (text ++ [0]).getD i 0 else stack.byte i := by
    intro i
    rw [putText_byte, List.length_append, List.length_singleton, Nat.sub_zero]
    simp only [Nat.zero_le, true_and, Nat.zero_add]
  have hrange : List.range 20 =
      List.range text.length ++ text.length :: List.range' (text.length + 1) (19 - text.length) := by
    have hsplit := List.range'_append_1 (s := 0) (m := text.length) (n := 19 - text.length + 1)
    rw [Nat.zero_add, show text.length + (19 - text.length + 1) = 20 by omega] at hsplit
    rw [List.range_eq_range', List.range_eq_range', ← List.range'_succ, hsplit]
  have hfront : (List.range text.length).map (putText stack 0 (text ++ [0])).byte = text := by
    apply List.ext_getElem
    · rw [List.length_map, List.length_range]
    · intro i hi hi'
      rw [List.getElem_map, List.getElem_range, hcells, if_pos (by omega),
        List.getD_append _ _ _ _ hi', List.getD_eq_getElem _ _ hi']
  have hend : (putText stack 0 (text ++ [0])).byte text.length = 0 := by
    rw [hcells, if_pos (Nat.lt_succ_self _), List.getD_append_right _ _ _ _ (Nat.le_refl _),
      Nat.sub_self]
    rfl
  have hall : ∀ c ∈ text, decide (c ≠ 0) = true := fun c hc => decide_eq_true (hnul c hc)
  have hchars : ∀ bytes, (CStr.ofBytes bytes).chars = bytes.takeWhile (· ≠ 0) := fun _ => rfl
  rw [hchars, hrange, List.map_append, List.map_cons, hfront, hend,
    List.takeWhile_append_of_pos hall, List.takeWhile_cons_of_neg (by decide), List.append_nil]

theorem ofInt_noNul (n : Int) : ∀ c ∈ ofInt n, c ≠ 0 := by
  have digits : ∀ c ∈ Numeral.ofNat n.natAbs, c ≠ 0 := by
    rintro c hc rfl
    exact absurd (isDigit_ofNat hc) (by decide)
  intro c hc
  rw [ofInt] at hc
  split at hc
  · rw [List.mem_singleton.mp hc]
    decide
  · split at hc
    · cases List.mem_cons.mp hc with
      | inl h =>
          rw [h]
          decide
      | inr h => exact digits c h
    · exact digits c hc

/-- What is printed of a number: its numeral, or of the least one the eleven characters that
are none. -/
theorem ofBytes_sizeBuf (stack : Memory) (val : UInt64) :
    (CStr.ofBytes ((List.range 20).map (sizeBuf stack val).byte)).chars =
      if val.toUInt32.toInt32 = Int32.minValue then [45, 46, 47, 44, 41, 44, 40, 45, 42, 44, 40]
      else ofInt val.toUInt32.toInt32.toInt := by
  rw [sizeBuf]
  split
  · next heq =>
      rw [heq, intToStr_minValue, ofBytes_putText stack (by simp) (by simp)]
  · next hne =>
      have hlow := val.toUInt32.toInt32.le_toInt
      have hhigh := val.toUInt32.toInt32.toInt_lt
      have hlen := length_ofInt (n := val.toUInt32.toInt32.toInt) (k := 10) (by omega)
      rw [intToStr_eq stack hne, ofBytes_putText stack (ofInt_noNul _) (by omega)]

/-! ## Both together -/

/-- A size is shown rounded to its unit just up to half a gigabyte less than 2^61 bytes. -/
theorem printSize_shows (stack : Memory) (label : CStr) (bytes : UInt64) :
    ShowsSize label bytes.toNat (sizeText stack label bytes) ↔
      bytes.toNat < 2 ^ 61 - 2 ^ 29 := by
  have hbound := bytes.toNat_lt
  have htext : (sizeText stack label bytes).chars = label.chars ++
      (CStr.ofBytes ((List.range 20).map (sizeBuf stack (sizeVal bytes).1).byte)).chars ++
        (unitFor bytes.toNat).suffix.chars := by
    rw [← sizeVal_unit]
    rfl
  rw [ofBytes_sizeBuf] at htext
  constructor
  · rintro ⟨numeral, hcanon, hrounds, hnumeral⟩
    by_contra hbig
    have hunit : unitFor bytes.toNat = .gb := by rw [unitFor, if_pos (by omega)]
    rw [hunit, SizeUnit.Rounds] at hrounds
    rw [htext] at hnumeral
    have hsame := List.append_cancel_left (List.append_cancel_right hnumeral)
    split at hsame
    · -- the second of these characters is no digit
      subst hsame
      exact absurd (hcanon.digits 46 (by decide)) (by decide)
    · have hhigh := (sizeVal bytes).1.toUInt32.toInt32.toInt_lt
      rw [← hsame, intValue_ofInt] at hrounds
      omega
  · intro h
    have hrounds := @sizeVal_rounds bytes (by omega)
    have hval : (sizeVal bytes).1.toNat < 2 ^ 31 := by
      rw [unitFor] at hrounds
      split at hrounds
      · rw [SizeUnit.Rounds] at hrounds
        omega
      · split at hrounds
        · rw [SizeUnit.Rounds] at hrounds
          omega
        · rw [SizeUnit.Rounds] at hrounds
          omega
    obtain ⟨hint, hne⟩ := int32_of_lt hval
    rw [if_neg hne] at htext
    refine ⟨ofInt (sizeVal bytes).1.toUInt32.toInt32.toInt, canonical_ofInt _, ?_, htext⟩
    rw [intValue_ofInt, hint]
    exact hrounds

end SevenOS
