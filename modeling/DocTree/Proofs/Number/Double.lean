import DocTree.Number.Double
import Mathlib.Algebra.Group.Nat.Defs

/-!
# Integers as doubles

Rounding is exact on small integers: a double that equals an integer below 2⁵² is the double nearest
to that integer (`Double.nearest?_of_integer?`). Together with the sign bit, which is the sign of
the integer unless the double is negative zero, this gives the bits back.
-/

namespace DocTree

namespace BinaryFormat

/-! ## Rounding a natural number -/

theorem roundDiv_one (n : Nat) : roundDiv n 1 = n := by
  simp [roundDiv, Nat.mod_one]

theorem scaled_of_neg {e : Int} (h : e < 0) (n d : Nat) :
    scaled n d e = (n * 2 ^ (-e).toNat, d) := by
  rw [scaled, if_neg (by omega)]
  rfl

/-- Moving a number up by some bits adds them to its length. -/
theorem log2_mul_two_pow {n : Nat} (hn : n ≠ 0) (k : Nat) : (n * 2 ^ k).log2 = n.log2 + k := by
  have hpos : n * 2 ^ k ≠ 0 := Nat.mul_ne_zero hn (Nat.ne_of_gt (Nat.two_pow_pos k))
  refine (Nat.log2_eq_iff hpos).2 ⟨?_, ?_⟩
  · rw [Nat.pow_add]
    exact Nat.mul_le_mul_right _ (Nat.log2_self_le hn)
  · rw [Nat.add_right_comm, Nat.pow_add]
    exact Nat.mul_lt_mul_of_pos_right Nat.lt_log2_self (Nat.two_pow_pos k)

/-- A number whose highest bit is moved up to the place `k` is at least the power of two there. -/
theorem two_pow_le_mul {n k : Nat} (hn : n ≠ 0) (hk : n.log2 ≤ k) :
    2 ^ k ≤ n * 2 ^ (k - n.log2) := by
  calc 2 ^ k = 2 ^ n.log2 * 2 ^ (k - n.log2) := by rw [← Nat.pow_add, Nat.add_sub_cancel' hk]
    _ ≤ n * 2 ^ (k - n.log2) := Nat.mul_le_mul_right _ (Nat.log2_self_le hn)

/-- A number whose highest bit is moved up to the place `k` stays below the next power of two. -/
theorem mul_lt_two_pow {n k : Nat} (hk : n.log2 ≤ k) : n * 2 ^ (k - n.log2) < 2 ^ (k + 1) := by
  calc n * 2 ^ (k - n.log2) < 2 ^ (n.log2 + 1) * 2 ^ (k - n.log2) :=
        Nat.mul_lt_mul_of_pos_right Nat.lt_log2_self (Nat.two_pow_pos _)
    _ = 2 ^ (k + 1) := by rw [← Nat.pow_add, Nat.add_right_comm, Nat.add_sub_cancel' hk]

/-- The digits of a natural number that is no longer than the precision all fit, so the exponent is
the one that brings its highest bit to the front. -/
theorem roundingExponent_one {f : BinaryFormat} {n : Nat} (hn : n ≠ 0)
    (hlog : n.log2 < f.precision) :
    f.roundingExponent n 1 = max f.minExponent ((n.log2 : Int) - f.precision + 1) := by
  have hone : (1 : Nat).log2 = 0 := rfl
  have hneg : (n.log2 : Int) - f.precision < 0 := by omega
  have hshift : (-((n.log2 : Int) - f.precision)).toNat = f.precision - n.log2 := by omega
  have hbits : ¬ n * 2 ^ (f.precision - n.log2) < Nat.pow 2 f.precision :=
    Nat.not_lt.2 (two_pow_le_mul hn (Nat.le_of_lt hlog))
  simp only [roundingExponent, hone, Int.natCast_zero, Int.sub_zero, scaled_of_neg hneg, hshift,
    Nat.div_one, if_neg hbits]

/-- The double nearest to a small natural number has its digits at the front of the fraction. -/
theorem nearest?_double_one {n : Nat} (hn : n ≠ 0) (hlt : n < 2 ^ 52) :
    double.nearest? n 1 = some (n * 2 ^ (52 - n.log2) + (n.log2 + 1022) * 2 ^ 52) := by
  have hlog : n.log2 < 52 := (Nat.log2_lt hn).2 hlt
  have hbits := mul_lt_two_pow (Nat.le_of_lt hlog)
  -- the exponent is above the least one of the format, so it is the length that decides
  have hexponent : double.roundingExponent n 1 = (n.log2 : Int) - 52 := by
    rw [roundingExponent_one hn (Nat.lt_succ_of_lt hlog)]
    simp only [double]
    omega
  have hneg : (n.log2 : Int) - 52 < 0 := by omega
  have hshift : (-((n.log2 : Int) - 52)).toNat = 52 - n.log2 := by omega
  have hfield : ((n.log2 : Int) - 52 - double.minExponent).toNat = n.log2 + 1022 := by
    simp only [double]
    omega
  have hfits : n * 2 ^ (52 - n.log2) + (n.log2 + 1022) * 2 ^ 52 < 2047 * 2 ^ 52 := by omega
  simp only [nearest?, if_neg hn, hexponent, scaled_of_neg hneg, hshift, hfield, roundDiv_one]
  exact if_pos hfits

end BinaryFormat

namespace Double

/-! ## The fields -/

theorem isNegative_iff {x : Double} : x.isNegative = true ↔ 2 ^ 63 ≤ x.bits.toNat :=
  decide_eq_true_iff

/-- Without the sign bit, the bits are the exponent field and the fraction field side by side. -/
theorem toNat_bits_mod (x : Double) :
    x.bits.toNat % 2 ^ 63 = x.exponentField * 2 ^ 52 + x.fractionField := by
  have hexp : x.exponentField = x.bits.toNat / 2 ^ 52 % 2048 := rfl
  have hfrac : x.fractionField = x.bits.toNat % 2 ^ 52 := rfl
  rw [hexp, hfrac]
  omega

theorem fractionField_lt (x : Double) : x.fractionField < 2 ^ 52 := Nat.mod_lt _ (by decide)

theorem significand_of_normal {x : Double} (h : x.exponentField ≠ 0) :
    x.significand = x.fractionField + 2 ^ 52 := if_neg h

/-! ## Integers -/

/-- A double that equals an integer: its size is the significand moved by the exponent. -/
theorem integer?_eq_some {x : Double} {n : Int} (h : x.integer? = some n) :
    n = (if x.isNegative then -(n.natAbs : Int) else n.natAbs) ∧
      ((0 ≤ x.exponent ∧ n.natAbs = x.significand * 2 ^ x.exponent.toNat) ∨
        (x.exponent < 0 ∧ x.significand = n.natAbs * 2 ^ (-x.exponent).toNat)) := by
  have hsigned : ∀ size : Nat, (if x.isNegative then -(size : Int) else size) = n →
      n = (if x.isNegative then -(n.natAbs : Int) else n.natAbs) ∧ n.natAbs = size := by
    rintro size rfl
    split <;> simp
  -- a significand that is moved up, or down by as many bits as it has zeros at its end
  by_cases he : 0 ≤ x.exponent
  · rw [integer?, if_pos he] at h
    obtain ⟨hn, hsize⟩ := hsigned _ (Option.some.inj h)
    exact ⟨hn, Or.inl ⟨he, hsize⟩⟩
  · rw [integer?, if_neg he] at h
    by_cases hmod : x.significand % Nat.pow 2 (-x.exponent).toNat = 0
    · simp only [if_pos hmod] at h
      obtain ⟨hn, hsize⟩ := hsigned _ (Option.some.inj h)
      refine ⟨hn, Or.inr ⟨by omega, ?_⟩⟩
      rw [hsize]
      exact (Nat.div_mul_cancel (Nat.dvd_of_mod_eq_zero hmod)).symm
    · simp only [if_neg hmod] at h
      cases h

/-- A double that equals a small integer has a negative exponent: its significand has 53 bits. -/
theorem exponent_neg_of_integer? {x : Double} {n : Int} (h : x.integer? = some n)
    (hlt : n.natAbs < 2 ^ 52) : x.exponent < 0 := by
  obtain ⟨-, ⟨he, hsize⟩ | ⟨he, -⟩⟩ := integer?_eq_some h
  · have hfield : x.exponentField ≠ 0 := by
      intro hzero
      simp [exponent, hzero] at he
    -- with an exponent from zero on, the leading bit alone would be too much
    have hlarge : 2 ^ 52 ≤ x.significand * 2 ^ x.exponent.toNat := by
      rw [significand_of_normal hfield]
      exact Nat.le_trans (Nat.le_add_left _ _) (Nat.le_mul_of_pos_right _ (Nat.two_pow_pos _))
    omega
  · exact he

/-- A double that equals a small integer is finite. -/
theorem isFinite_of_integer? {x : Double} {n : Int} (h : x.integer? = some n)
    (hlt : n.natAbs < 2 ^ 52) : x.isFinite = true := by
  have hneg := exponent_neg_of_integer? h hlt
  simp only [exponent] at hneg
  simp only [isFinite, bne_iff_ne]
  omega

/-- A double that equals a small integer is the one nearest to it. -/
theorem nearest?_of_integer? {x : Double} {n : Int} (h : x.integer? = some n)
    (hlt : n.natAbs < 2 ^ 52) :
    BinaryFormat.double.nearest? n.natAbs 1 = some (x.bits.toNat % 2 ^ 63) := by
  have hfrac := x.fractionField_lt
  have hneg := exponent_neg_of_integer? h hlt
  rw [toNat_bits_mod]
  obtain ⟨-, ⟨he, -⟩ | ⟨-, hsize⟩⟩ := integer?_eq_some h
  · omega
  generalize n.natAbs = size at hsize hlt ⊢
  by_cases hfield : x.exponentField = 0
  · -- below the normal numbers only zero is an integer
    have hexp : x.exponent = -1074 := by simp [exponent, hfield]
    have hsig : x.significand = x.fractionField := by simp [significand, hfield]
    rw [hexp, hsig] at hsize
    have hzero : size = 0 := by
      refine Nat.eq_zero_of_not_pos fun hpos => ?_
      have hlarge : 2 ^ 52 ≤ size * 2 ^ (-(-1074) : Int).toNat :=
        Nat.le_trans (Nat.pow_le_pow_right (by decide) (by decide))
          (Nat.le_mul_of_pos_left _ hpos)
      omega
    rw [hzero, Nat.zero_mul] at hsize
    rw [hzero, hfield, hsize]
    rfl
  · have hexp : x.exponent = (x.exponentField : Int) - 1075 := by
      simp only [exponent]
      omega
    rw [significand_of_normal hfield, hexp] at hsize
    rw [hexp] at hneg
    clear hexp
    -- the significand is the integer moved up to 53 bits, so the exponent tells its length
    generalize x.exponentField = field at hsize hfield hneg ⊢
    generalize x.fractionField = fraction at hsize hfrac ⊢
    generalize hk : (-((field : Int) - 1075)).toNat = k at hsize
    have hne : size ≠ 0 := by
      rintro rfl
      omega
    have hlog : size.log2 + k = 52 := by
      rw [← BinaryFormat.log2_mul_two_pow hne, ← hsize]
      exact (Nat.log2_eq_iff (by omega)).2 ⟨by omega, by omega⟩
    have hshift : 52 - size.log2 = k := by omega
    have hfield' : field = size.log2 + 1022 + 1 := by omega
    rw [BinaryFormat.nearest?_double_one hne hlt, hshift, ← hsize, hfield',
      Nat.succ_mul (size.log2 + 1022), Nat.add_comm (fraction + 2 ^ 52), Nat.add_comm fraction,
      Nat.add_assoc]

/-- A small integer is read as the double that equals it, without its sign. -/
theorem ofDecimal?_of_integer? {x : Double} {n : Int} (h : x.integer? = some n)
    (hlt : n.natAbs < 2 ^ 52) :
    ofDecimal? ⟨false, n.natAbs, 0⟩ = some ⟨UInt64.ofNat (x.bits.toNat % 2 ^ 63)⟩ := by
  have hratio : Decimal.ratio ⟨false, n.natAbs, 0⟩ = (n.natAbs, 1) := by
    simp [Decimal.ratio]
  simp [ofDecimal?, hratio, nearest?_of_integer? h hlt]

/-! ## The sign -/

/-- Negative zero apart, the sign bit of an integer is its sign. -/
theorem isNegative_iff_of_integer? {x : Double} {n : Int} (h : x.integer? = some n)
    (hzero : x.isNegative = true → n ≠ 0) : x.isNegative = true ↔ n < 0 := by
  have hsign := (integer?_eq_some h).1
  cases hneg : x.isNegative with
  | true =>
    have hne := hzero hneg
    rw [hneg, if_pos rfl] at hsign
    exact iff_of_true rfl (by omega)
  | false =>
    rw [hneg, if_neg Bool.false_ne_true] at hsign
    exact iff_of_false Bool.false_ne_true (by omega)

/-- A double with its sign bit set is the negative of the one without. -/
theorem neg_of_bits_sub {x : Double} (h : 2 ^ 63 ≤ x.bits.toNat) :
    neg ⟨UInt64.ofNat (x.bits.toNat - 2 ^ 63)⟩ = x := by
  obtain ⟨bits⟩ := x
  have hhigh := bits.toNat_lt
  have hsize : (UInt64.ofNat (bits.toNat - 2 ^ 63)).toNat = bits.toNat - 2 ^ 63 :=
    UInt64.toNat_ofNat_of_lt' (by change _ < 2 ^ 64; omega)
  have hpos : isNegative ⟨UInt64.ofNat (bits.toNat - 2 ^ 63)⟩ = false := by
    rw [Bool.eq_false_iff, ne_eq, isNegative_iff, hsize]
    omega
  have hsum : (UInt64.ofNat (bits.toNat - 2 ^ 63)).toNat + Nat.pow 2 63 = bits.toNat := by
    rw [hsize]
    exact Nat.sub_add_cancel h
  rw [neg, hpos, if_neg Bool.false_ne_true, hsum, UInt64.ofNat_toNat]

end Double

end DocTree
