import Mathlib.Data.Nat.Digits.Lemmas

/-! # Decimal numerals

Texts of ASCII digits with an optional sign: their value, and the one numeral
without leading zeros that every number has.
-/

namespace Numeral

def minus : UInt8 := 45
def zeroDigit : UInt8 := 48

def IsDigit (c : UInt8) : Prop := 48 ≤ c.toNat ∧ c.toNat ≤ 57

instance (c : UInt8) : Decidable (IsDigit c) := inferInstanceAs (Decidable (_ ∧ _))

/-- The value of a run of digits, the first one counting most. -/
def value (digits : List UInt8) : Nat :=
  digits.foldl (fun v c => 10 * v + (c.toNat - 48)) 0

/-- What follows the sign. -/
def magnitude (text : List UInt8) : List UInt8 :=
  if text.head? = some minus then text.tail else text

def intValue (text : List UInt8) : Int :=
  if text.head? = some minus then -(value text.tail : Int) else value text

/-- Digits after an optional sign, no zero in front of another digit, no sign in front
of zero. -/
structure Canonical (text : List UInt8) : Prop where
  nonempty : magnitude text ≠ []
  digits : ∀ c ∈ magnitude text, IsDigit c
  noLeadingZero : (magnitude text).head? = some zeroDigit → text = [zeroDigit]

/-! ## The digits of a number -/

def digitChar (d : Nat) : UInt8 := UInt8.ofNat (48 + d)

theorem digitChar_toNat {d : Nat} (h : d < 10) : (digitChar d).toNat = 48 + d := by
  rw [digitChar, UInt8.toNat_ofNat']
  omega

/-- The digits of a number that is not zero. -/
def ofNat (n : Nat) : List UInt8 := (Nat.digits 10 n).reverse.map digitChar

theorem isDigit_ofNat {n : Nat} {c : UInt8} (h : c ∈ ofNat n) : IsDigit c := by
  obtain ⟨d, hd, rfl⟩ := List.mem_map.mp h
  have hlt := Nat.digits_lt_base (by decide) (List.mem_reverse.mp hd)
  rw [IsDigit, digitChar_toNat hlt]
  omega

theorem value_ofNat (n : Nat) : value (ofNat n) = n := by
  have fold : ∀ ds : List Nat, (∀ d ∈ ds, d < 10) →
      value (ds.reverse.map digitChar) = Nat.ofDigits 10 ds := by
    intro ds
    induction ds with
    | nil => exact fun _ => rfl
    | cons d ds ih =>
        intro hlt
        rw [List.reverse_cons, List.map_append, value, List.foldl_append]
        change 10 * value (ds.reverse.map digitChar) + ((digitChar d).toNat - 48) = _
        rw [ih fun d hd => hlt d (List.mem_cons_of_mem _ hd),
          digitChar_toNat (hlt d List.mem_cons_self), Nat.ofDigits_cons]
        simp
        omega
  rw [ofNat, fold _ fun d hd => Nat.digits_lt_base (by decide) hd, Nat.ofDigits_digits]

theorem ofNat_ne_nil {n : Nat} (h : n ≠ 0) : ofNat n ≠ [] := by
  simp [ofNat, Nat.digits_ne_nil_iff_ne_zero, h]

theorem head_ofNat {n : Nat} (h : n ≠ 0) : (ofNat n).head? ≠ some zeroDigit := by
  have hne : Nat.digits 10 n ≠ [] := Nat.digits_ne_nil_iff_ne_zero.mpr h
  have hlast := Nat.getLast_digit_ne_zero 10 h
  have hlt := Nat.digits_lt_base (by decide) (List.getLast_mem hne)
  rw [ofNat, List.head?_map, List.head?_reverse, List.getLast?_eq_getLast_of_ne_nil hne]
  intro heq
  have hchar := congrArg UInt8.toNat (Option.some.inj heq)
  rw [digitChar_toNat hlt] at hchar
  change _ = 48 at hchar
  omega

theorem head_ofNat_minus {n : Nat} : (ofNat n).head? ≠ some minus := by
  intro h
  have hdigit := isDigit_ofNat (List.mem_of_head? h)
  revert hdigit
  decide

theorem length_ofNat {n k : Nat} (h : n < 10 ^ k) : (ofNat n).length ≤ k := by
  rw [ofNat, List.length_map, List.length_reverse]
  exact (Nat.digits_length_le_iff (by decide) n).mpr h

/-- The numeral of a number. -/
def ofInt (n : Int) : List UInt8 :=
  if n = 0 then [zeroDigit]
  else if n < 0 then minus :: ofNat n.natAbs
  else ofNat n.natAbs

theorem canonical_ofInt (n : Int) : Canonical (ofInt n) := by
  by_cases h0 : n = 0
  · rw [ofInt, if_pos h0]
    have hone : magnitude [zeroDigit] = [zeroDigit] := rfl
    refine ⟨by decide, fun c hc => ?_, fun _ => rfl⟩
    rw [hone] at hc
    rw [List.mem_singleton.mp hc]
    decide
  · have habs : n.natAbs ≠ 0 := Int.natAbs_ne_zero.mpr h0
    have hmagnitude : magnitude (ofInt n) = ofNat n.natAbs := by
      by_cases hneg : n < 0
      · rw [ofInt, if_neg h0, if_pos hneg]
        rfl
      · rw [ofInt, if_neg h0, if_neg hneg, magnitude, if_neg head_ofNat_minus]
    refine ⟨?_, ?_, ?_⟩
    · rw [hmagnitude]
      exact ofNat_ne_nil habs
    · rw [hmagnitude]
      exact fun c hc => isDigit_ofNat hc
    · rw [hmagnitude]
      exact fun h => (head_ofNat habs h).elim

theorem intValue_ofInt (n : Int) : intValue (ofInt n) = n := by
  by_cases h0 : n = 0
  · rw [ofInt, if_pos h0, h0]
    rfl
  · by_cases hneg : n < 0
    · rw [ofInt, if_neg h0, if_pos hneg]
      change -((value (ofNat n.natAbs) : Nat) : Int) = n
      rw [value_ofNat]
      omega
    · rw [ofInt, if_neg h0, if_neg hneg, intValue, if_neg head_ofNat_minus, value_ofNat]
      omega

theorem length_ofInt {n : Int} {k : Nat} (h : n.natAbs < 10 ^ k) :
    (ofInt n).length ≤ k + 1 := by
  rw [ofInt]
  split
  · simp
  · split
    · exact Nat.succ_le_succ (length_ofNat h)
    · exact Nat.le_succ_of_le (length_ofNat h)

end Numeral
