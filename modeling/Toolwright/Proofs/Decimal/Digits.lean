import Mathlib.Algebra.Order.Field.Power
import Mathlib.Data.Nat.Digits.Lemmas
import Mathlib.Data.Rat.Cast.Order
import Mathlib.Tactic.Ring
import Toolwright.Decimal.Shortest

/-!
Digits of natural numbers. Trailing zeros are taken off and counted in the point instead, so the
digits that are left stand for the same value.
-/

namespace Toolwright.Decimal

theorem digitsFrom_eq {fuel n : Nat} (h : n < 2 ^ fuel) (acc : List Nat) :
    digitsFrom fuel n acc = (Nat.digits 10 n).reverse ++ acc := by
  induction fuel generalizing n acc with
  | zero =>
    obtain rfl : n = 0 := by omega
    rfl
  | succ fuel ih =>
    rw [digitsFrom]
    split
    · rename_i zero
      rw [zero]
      rfl
    · rename_i nonzero
      rw [ih (by omega), Nat.digits_def' (by decide) (Nat.pos_of_ne_zero nonzero)]
      simp

theorem digitsOf_eq (n : Nat) : digitsOf n = (Nat.digits 10 n).reverse := by
  rw [digitsOf, digitsFrom_eq Nat.lt_log2_self, List.append_nil]

/-- The number that digits stand for, the greatest place first. -/
def Digits.significand (d : Digits) : Nat := Nat.ofDigits 10 d.digits.reverse

/-- The digits of a value: as many as numbers of the format have, the first of them not zero. -/
structure Digits.Writes (d : Digits) (value : ℚ) : Prop where
  lt_ten : ∀ x ∈ d.digits, x < 10
  first : ∃ x more, d.digits = x :: more ∧ x ≠ 0
  length_le : d.digits.length ≤ 17
  value_eq : (d.significand : ℚ) * 10 ^ (d.point - d.digits.length) = value

theorem Digits.Writes.significand_lt {d : Digits} {value : ℚ} (h : d.Writes value) :
    d.significand < 10 ^ 17 := by
  have all : ∀ x ∈ d.digits.reverse, x < 10 := fun x hx => h.lt_ten x (List.mem_reverse.1 hx)
  refine (Nat.ofDigits_lt_base_pow_length (by decide) all).trans_le ?_
  rw [List.length_reverse]
  exact Nat.pow_le_pow_right (by decide) h.length_le

theorem exists_trimmed {k : Nat} (pos : 0 < k) :
    ∃ z trimmed, k = trimmed * 10 ^ z ∧ trimmed % 10 ≠ 0 ∧
      (Nat.digits 10 k).length = (Nat.digits 10 trimmed).length + z ∧
      (Nat.digits 10 k).dropWhile (· = 0) = Nat.digits 10 trimmed := by
  induction k using Nat.strongRecOn with
  | ind k ih =>
    have split := Nat.digits_def' (b := 10) (by decide) pos
    by_cases zero : k % 10 = 0
    · obtain ⟨z, trimmed, value, last, length, digits⟩ := ih (k / 10) (by omega) (by omega)
      refine ⟨z + 1, trimmed, ?_, last, ?_, ?_⟩
      · rw [pow_succ, ← mul_assoc, ← value]
        omega
      · rw [split, List.length_cons, length, add_assoc]
      · rw [split, List.dropWhile_cons_of_pos (by simpa using zero), digits]
    · refine ⟨0, k, by simp, zero, by simp, ?_⟩
      rw [split, List.dropWhile_cons_of_neg (by simpa using zero)]

theorem writes_trimmed {k n : Nat} (pos : 0 < k) (le : k ≤ 10 ^ n) (few : n ≤ 17) (nonzero : n ≠ 0)
    (p : Int) :
    Digits.Writes ⟨((digitsOf k).reverse.dropWhile (· = 0)).reverse,
      p + (((digitsOf k).length : Int) - n)⟩ (k * 10 ^ (p - n)) := by
  obtain ⟨z, trimmed, value, last, length, digits⟩ := exists_trimmed pos
  have positive : trimmed ≠ 0 := by
    rintro rfl
    exact last rfl
  have below : trimmed < 10 ^ n := by
    refine lt_of_le_of_ne ((Nat.le_of_dvd pos ⟨10 ^ z, value⟩).trans le) ?_
    rintro rfl
    exact last (Nat.mod_eq_zero_of_dvd (dvd_pow_self 10 nonzero))
  rw [digitsOf_eq, List.reverse_reverse, digits, List.length_reverse, length]
  refine ⟨fun x hx => ?_, ?_, ?_, ?_⟩
  · exact Nat.digits_lt_base (by decide) (List.mem_reverse.1 hx)
  · have filled : Nat.digits 10 trimmed ≠ [] := Nat.digits_ne_nil_iff_ne_zero.2 positive
    refine ⟨_, (Nat.digits 10 trimmed).dropLast.reverse, ?_, Nat.getLast_digit_ne_zero 10 positive⟩
    rw [← List.reverse_concat, List.dropLast_append_getLast filled]
  · rw [List.length_reverse]
    exact ((Nat.digits_length_le_iff (by decide) trimmed).2 below).trans few
  · rw [Digits.significand, List.reverse_reverse, Nat.ofDigits_digits, List.length_reverse, value]
    push_cast
    rw [mul_assoc, ← zpow_natCast, ← zpow_add₀ (by norm_num)]
    congr 2
    ring

end Toolwright.Decimal
