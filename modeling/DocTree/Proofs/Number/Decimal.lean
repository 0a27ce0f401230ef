import DocTree.Number.Decimal
import Mathlib.Data.List.TakeDrop
import Mathlib.Data.List.TakeWhile

/-!
# Digits

The digits of a natural number denote it, they begin with a zero only if there are no others, and
digits alone are read as a number without sign, point or exponent.
-/

namespace DocTree

/-! ## Digits -/

/-- A digit is one byte, and its code is between those of `0` and `9`. -/
theorem toNat_octet_of_isDigit {c : Char} (h : c.isDigit = true) :
    (octet c).toNat = c.toNat ∧ 48 ≤ c.toNat ∧ c.toNat ≤ 57 := by
  have hrange : 48 ≤ c.toNat ∧ c.toNat ≤ 57 := by
    simpa [Char.isDigit, UInt32.le_iff_toNat_le] using h
  refine ⟨?_, hrange⟩
  simp only [octet, UInt8.toNat_ofNat']
  omega

namespace Bytes

theorem isDigit_of_mem_toDigits {c : Char} {n : Nat} (h : c ∈ Nat.toDigits 10 n) :
    c.isDigit = true :=
  Nat.isDigit_of_mem_toDigits (by decide) (by decide) h

theorem isDigit_of_mem_ofNat {b : UInt8} {n : Nat} (h : b ∈ ofNat n) :
    Decimal.isDigit b = true := by
  obtain ⟨c, hc, rfl⟩ := List.mem_map.1 h
  obtain ⟨hoctet, hlow, hhigh⟩ := toNat_octet_of_isDigit (isDigit_of_mem_toDigits hc)
  simp only [Decimal.isDigit, UInt8.le_iff_toNat_le, hoctet, Bool.and_eq_true, decide_eq_true_eq]
  exact ⟨hlow, hhigh⟩

theorem ofNat_eq_cons (n : Nat) : ∃ b rest, ofNat n = b :: rest ∧ Decimal.isDigit b = true := by
  cases hs : ofNat n with
  | nil => simp [ofNat] at hs
  | cons b rest => exact ⟨b, rest, rfl, isDigit_of_mem_ofNat (hs ▸ List.mem_cons_self)⟩

/-- Digits as bytes denote what they denote as characters. -/
theorem foldl_octet {cs : List Char} (h : ∀ c ∈ cs, c.isDigit = true) (init : Nat) :
    (cs.map octet).foldl (fun n b => n * 10 + (b.toNat - 48)) init =
      Nat.ofDigitChars 10 cs init := by
  induction cs generalizing init with
  | nil => rfl
  | cons c cs ih =>
    have hoctet := (toNat_octet_of_isDigit (h c List.mem_cons_self)).1
    rw [List.map_cons, List.foldl_cons, ih fun d hd => h d (List.mem_cons_of_mem c hd),
      Nat.ofDigitChars_cons, hoctet, Nat.mul_comm]
    rfl

/-- The digits of a number denote it. -/
theorem ofDigits_ofNat (n : Nat) : Decimal.ofDigits (ofNat n) = n := by
  rw [Decimal.ofDigits, ofNat, foldl_octet fun c hc => isDigit_of_mem_toDigits hc,
    Nat.ofDigitChars_ten_toDigits]

/-- The first digit of a number other than zero is not zero. By induction on the number: all but the
last digit are those of its tenth. -/
theorem head?_toDigits_ne_zero {n : Nat} (h : n ≠ 0) : (Nat.toDigits 10 n).head? ≠ some '0' := by
  induction n using Nat.strongRecOn with
  | ind n ih =>
    rcases Nat.lt_or_ge n 10 with hlt | hge
    · -- a single digit
      have hdigit : ∀ m < 10, m ≠ 0 → Nat.digitChar m ≠ '0' := by decide
      simpa [Nat.toDigits_of_lt_base hlt] using hdigit n hlt h
    · have hfront := ih (n / 10) (by omega) (by omega)
      rw [Nat.toDigits_of_base_le (by decide) hge, List.head?_append]
      cases hd : Nat.toDigits 10 (n / 10) with
      | nil => exact absurd hd Nat.toDigits_ne_nil
      | cons c cs => simpa [hd] using hfront

/-- A number does not begin with a zero in front of other digits. -/
theorem eq_nil_of_ofNat_eq_zero_cons {n : Nat} {rest : Bytes} (h : ofNat n = octet '0' :: rest) :
    rest = [] := by
  rcases Nat.eq_zero_or_pos n with rfl | hpos
  · cases h
    rfl
  · -- the first digit would be a zero in front of others
    obtain ⟨c, cs, hcs, hc, -⟩ := List.map_eq_cons_iff.1 h
    have hdigit : c.isDigit = true := isDigit_of_mem_toDigits (hcs ▸ List.mem_cons_self)
    have hne : c ≠ '0' := by
      have := head?_toDigits_ne_zero (Nat.ne_of_gt hpos)
      simpa [hcs] using this
    have hzero : c.toNat = '0'.toNat := by
      rw [← (toNat_octet_of_isDigit hdigit).1, hc]
      rfl
    exact absurd (Char.toNat_inj.1 hzero) hne

end Bytes

namespace Decimal

theorem ne_of_isDigit {b c : UInt8} (hb : isDigit b = true) (hc : isDigit c = false) : b ≠ c := by
  rintro rfl
  simp [hb] at hc

theorem span_isDigit {digits : Bytes} (h : ∀ b ∈ digits, isDigit b = true) :
    digits.span isDigit = (digits, []) := by
  rw [List.span_eq_takeWhile_dropWhile, List.takeWhile_eq_self_iff.2 h,
    List.dropWhile_eq_nil_iff.2 h]

/-- Digits alone are a number without a sign. -/
theorem parse?_of_digits {digits : Bytes} (hne : digits ≠ []) (h : ∀ b ∈ digits, isDigit b = true) :
    parse? digits = some ⟨false, ofDigits digits, 0⟩ := by
  have hsign : sign digits = (false, digits) := by
    cases digits with
    | nil => rfl
    | cons b rest =>
      have hb := h b List.mem_cons_self
      simp [sign, ne_of_isDigit hb (c := octet '-') rfl, ne_of_isDigit hb (c := octet '+') rfl]
  -- no sign in front, and nothing left behind the digits for a point or an exponent
  simp only [parse?, parseBy?, hsign, span_isDigit h]
  simp [fraction, exponent?, exponentBy?, hne]

end Decimal

end DocTree
