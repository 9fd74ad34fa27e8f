import Mathlib.Algebra.Order.Field.Power
import Mathlib.Data.Rat.Cast.Order
import Mathlib.Tactic.Linarith
import Mathlib.Tactic.Ring
import Toolwright.Decimal.Shortest

/-!
The reals that round to a binary number, as rational numbers. Fractions are compared and scaled like
the rational numbers they stand for, and `holds` is true between the ends of the interval and false
outside of them.
-/

namespace Toolwright.Decimal

namespace Ratio

variable {a b : Ratio}

def value (r : Ratio) : ℚ := r.num / r.den

theorem value_scale {base : Nat} (pos : 0 < base) (r : Ratio) (e : Int) :
    (r.scale base e).value = r.value * (base : ℚ) ^ e := by
  have nonzero : (base : ℚ) ≠ 0 := Nat.cast_ne_zero.2 pos.ne'
  cases e with
  | ofNat k =>
    change ((r.num * base ^ k : Nat) : ℚ) / r.den = r.num / r.den * (base : ℚ) ^ (k : Int)
    rw [zpow_natCast, Nat.cast_mul, Nat.cast_pow]
    ring
  | negSucc k =>
    change (r.num : ℚ) / (r.den * base ^ (k + 1) : Nat) = r.num / r.den * (base : ℚ) ^ Int.negSucc k
    rw [zpow_negSucc, Nat.cast_mul, Nat.cast_pow, ← div_div, div_eq_mul_inv (_ / _)]

theorem den_scale_pos {base : Nat} (pos : 0 < base) (h : 0 < a.den) (e : Int) :
    0 < (a.scale base e).den := by
  cases e with
  | ofNat k => exact h
  | negSucc k => exact Nat.mul_pos h (Nat.pow_pos pos)

theorem le_iff (ha : 0 < a.den) (hb : 0 < b.den) : a.le b = true ↔ a.value ≤ b.value := by
  rw [le, decide_eq_true_eq, value, value,
    div_le_div_iff₀ (Nat.cast_pos.2 ha) (Nat.cast_pos.2 hb)]
  exact_mod_cast Iff.rfl

theorem lt_iff (ha : 0 < a.den) (hb : 0 < b.den) : a.lt b = true ↔ a.value < b.value := by
  rw [lt, decide_eq_true_eq, value, value,
    div_lt_div_iff₀ (Nat.cast_pos.2 ha) (Nat.cast_pos.2 hb)]
  exact_mod_cast Iff.rfl

theorem div_le_value (h : 0 < a.den) :
    ((a.num / a.den : Nat) : ℚ) ≤ a.value ∧ a.value < (a.num / a.den : Nat) + 1 := by
  have pos : (0 : ℚ) < a.den := Nat.cast_pos.2 h
  rw [value, le_div_iff₀ pos, div_lt_iff₀ pos]
  have above : a.num < (a.num / a.den + 1) * a.den := Nat.lt_mul_of_div_lt (Nat.lt_succ_self _) h
  exact ⟨by exact_mod_cast Nat.div_mul_le_self _ _, by exact_mod_cast above⟩

end Ratio

theorem value_onGrid (k : Nat) (e : Int) :
    ((⟨k, 1⟩ : Ratio).scale 10 e).value = k * (10 : ℚ) ^ e := by
  rw [Ratio.value_scale (by decide), Ratio.value, Nat.cast_one, div_one]
  rfl

namespace Binary

variable {b : Binary} {x : Ratio}

def value (b : Binary) : ℚ := b.m * 2 ^ b.q

def low (b : Binary) : ℚ := (b.m - if b.narrow then 1 / 4 else 1 / 2) * 2 ^ b.q

def high (b : Binary) : ℚ := (b.m + 1 / 2) * 2 ^ b.q

theorem value_interval (b : Binary) : b.interval.2.1.value = b.value := by
  change ((⟨b.m, 1⟩ : Ratio).scale 2 b.q).value = _
  rw [Ratio.value_scale (by decide), Ratio.value, Nat.cast_one, div_one]
  rfl

theorem high_interval (b : Binary) : b.interval.2.2.value = b.high := by
  change ((⟨2 * b.m + 1, 2⟩ : Ratio).scale 2 b.q).value = _
  rw [Ratio.value_scale (by decide), Ratio.value, high]
  push_cast
  ring

theorem low_interval (pos : 0 < b.m) : b.interval.1.value = b.low := by
  rw [interval, Ratio.value_scale (by decide), Ratio.value, low]
  cases b.narrow with
  | true =>
    have cast : ((4 * b.m - 1 : Nat) : ℚ) = 4 * b.m - 1 := by
      rw [Nat.cast_sub (by omega)]
      push_cast
      rfl
    simp only [if_true, cast]
    push_cast
    ring
  | false =>
    have cast : ((2 * b.m - 1 : Nat) : ℚ) = 2 * b.m - 1 := by
      rw [Nat.cast_sub (by omega)]
      push_cast
      rfl
    simp only [Bool.false_eq_true, if_false, cast]
    push_cast
    ring

theorem den_interval_pos (b : Binary) :
    0 < b.interval.1.den ∧ 0 < b.interval.2.1.den ∧ 0 < b.interval.2.2.den := by
  refine ⟨Ratio.den_scale_pos (by decide) ?_ b.q, Ratio.den_scale_pos (by decide) Nat.one_pos b.q,
    Ratio.den_scale_pos (by decide) Nat.two_pos b.q⟩
  cases b.narrow <;> simp

theorem holds_eq (b : Binary) (x : Ratio) :
    b.holds x = if b.m % 2 = 0 then b.interval.1.le x && x.le b.interval.2.2
      else b.interval.1.lt x && x.lt b.interval.2.2 := rfl

theorem between_of_holds (pos : 0 < b.m) (den : 0 < x.den) (h : b.holds x = true) :
    b.low ≤ x.value ∧ x.value ≤ b.high := by
  obtain ⟨denLow, -, denHigh⟩ := den_interval_pos b
  rw [← low_interval pos, ← high_interval]
  rw [holds_eq] at h
  split at h
  · rw [Bool.and_eq_true, Ratio.le_iff denLow den, Ratio.le_iff den denHigh] at h
    exact h
  · rw [Bool.and_eq_true, Ratio.lt_iff denLow den, Ratio.lt_iff den denHigh] at h
    exact ⟨h.1.le, h.2.le⟩

theorem holds_of_between (pos : 0 < b.m) (den : 0 < x.den) (h : b.low < x.value)
    (h' : x.value < b.high) : b.holds x = true := by
  obtain ⟨denLow, -, denHigh⟩ := den_interval_pos b
  rw [← low_interval pos] at h
  rw [← high_interval] at h'
  rw [holds_eq]
  split
  · rw [Bool.and_eq_true, Ratio.le_iff denLow den, Ratio.le_iff den denHigh]
    exact ⟨h.le, h'.le⟩
  · rw [Bool.and_eq_true, Ratio.lt_iff denLow den, Ratio.lt_iff den denHigh]
    exact ⟨h, h'⟩

theorem low_lt_value (b : Binary) : b.low < b.value := by
  have part : (0 : ℚ) < if b.narrow then 1 / 4 else 1 / 2 := by split <;> norm_num
  exact mul_lt_mul_of_pos_right (by linarith) (by positivity)

theorem value_lt_high (b : Binary) : b.value < b.high :=
  mul_lt_mul_of_pos_right (by linarith) (by positivity)

theorem low_pos (pos : 0 < b.m) : 0 < b.low := by
  have one : (1 : ℚ) ≤ b.m := by exact_mod_cast pos
  have part : (if b.narrow then 1 / 4 else 1 / 2 : ℚ) < 1 := by split <;> norm_num
  exact mul_pos (by linarith) (by positivity)

end Binary

end Toolwright.Decimal
