import Mathlib.Algebra.Order.Field.Power
import Mathlib.Data.Nat.Digits.Lemmas
import Mathlib.Data.Nat.Log
import Mathlib.Data.Rat.Cast.Order
import Mathlib.Tactic.Linarith
import Mathlib.Tactic.NormNum
import Mathlib.Tactic.Positivity
import Mathlib.Tactic.Ring
import Toolwright.Proofs.Decimal.Digits
import Toolwright.Proofs.Decimal.Interval
import Toolwright.Proofs.Decimal.Rounding

/-!
The shortest digits of finite numbers. The decimal point is where it should be, so the grid of
seventeen digits is finer than the interval of any number and has a point in it; the search ends
there at the latest. What it ends with are digits of a number that is not above the interval.
-/

namespace Toolwright.Decimal

structure Binary.Finite (b : Binary) : Prop where
  pos : 0 < b.m
  small : b.m < 2 ^ 53
  least : -1074 ≤ b.q
  greatest : b.q ≤ 971
  narrow : b.narrow = true → b.m = 2 ^ 52

section Powers

variable {n a : Nat} {x y : Int}

theorem zpow_pow (base : ℚ) (e : Int) (n : Nat) : (base ^ e) ^ n = base ^ (e * n) := by
  rw [← zpow_natCast, ← zpow_mul]

/-- If `n` bits are between `a` and `a + 1` decimal digits, then powers of ten are less than powers
of two when their exponents differ enough. -/
theorem ten_zpow_le_two_zpow (pos : n ≠ 0) (low : 10 ^ a ≤ 2 ^ n) (high : 2 ^ n ≤ 10 ^ (a + 1))
    (apart : y * n + |x| ≤ x * (a + 1)) : (10 : ℚ) ^ y ≤ 2 ^ x := by
  have low : (10 : ℚ) ^ a ≤ 2 ^ n := by exact_mod_cast low
  have high : (2 : ℚ) ^ n ≤ 10 ^ (a + 1) := by exact_mod_cast high
  refine (pow_le_pow_iff_left₀ (by positivity) (by positivity) pos).1 ?_
  rw [zpow_pow, zpow_pow]
  rcases le_total 0 x with up | down
  · obtain ⟨k, rfl⟩ := Int.eq_ofNat_of_zero_le up
    rw [abs_of_nonneg up] at apart
    calc (10 : ℚ) ^ (y * n) ≤ 10 ^ ((a : Int) * k) :=
          zpow_le_zpow_right₀ (by norm_num) (by linarith)
      _ = (10 ^ a) ^ k := by rw [zpow_mul, zpow_natCast, zpow_natCast]
      _ ≤ (2 ^ n) ^ k := pow_le_pow_left₀ (by positivity) low k
      _ = 2 ^ ((k : Int) * n) := by rw [mul_comm, zpow_mul, zpow_natCast, zpow_natCast]
  · obtain ⟨k, rfl⟩ := Int.exists_eq_neg_ofNat down
    rw [abs_of_nonpos down] at apart
    calc (10 : ℚ) ^ (y * n) ≤ 10 ^ (-(((a + 1 : Nat) : Int) * k)) :=
          zpow_le_zpow_right₀ (by norm_num) (by push_cast; linarith)
      _ = ((10 ^ (a + 1)) ^ k)⁻¹ := by rw [zpow_neg, zpow_mul, zpow_natCast, zpow_natCast]
      _ ≤ ((2 ^ n) ^ k)⁻¹ :=
          inv_anti₀ (by positivity) (pow_le_pow_left₀ (by positivity) high k)
      _ = 2 ^ (-(k : Int) * n) := by
          rw [neg_mul, zpow_neg, mul_comm, zpow_mul, zpow_natCast, zpow_natCast]

theorem two_zpow_le_ten_zpow (pos : n ≠ 0) (low : 10 ^ a ≤ 2 ^ n) (high : 2 ^ n ≤ 10 ^ (a + 1))
    (apart : x * (a + 1) + |x| ≤ y * n) : (2 : ℚ) ^ x ≤ 10 ^ y := by
  have inverse := ten_zpow_le_two_zpow (x := -x) (y := -y) pos low high (by rw [abs_neg]; linarith)
  rw [zpow_neg, zpow_neg] at inverse
  exact (inv_le_inv₀ (by positivity) (by positivity)).1 inverse

end Powers

theorem point_estimate {bits : Int} (least : -1074 ≤ bits) (greatest : bits ≤ 1023) :
    (10 : ℚ) ^ (bits * 30103 / 100000 - 2) ≤ 2 ^ bits ∧
      (2 : ℚ) ^ (bits + 1) ≤ 10 ^ (bits * 30103 / 100000 + 3) := by
  have low : 10 ^ 30102 ≤ 2 ^ 100000 := by decide +kernel
  have high : 2 ^ 100000 ≤ 10 ^ (30102 + 1) := by decide +kernel
  have size : |bits| ≤ 1074 := abs_le.2 ⟨least, by omega⟩
  have size' : |bits + 1| ≤ 1074 := abs_le.2 ⟨by omega, by omega⟩
  exact ⟨ten_zpow_le_two_zpow (by decide) low high (by push_cast; omega),
    two_zpow_le_ten_zpow (by decide) low high (by push_cast; omega)⟩

theorem lt_power_iff {value : Ratio} (den : 0 < value.den) (p : Int) :
    value.lt ((⟨1, 1⟩ : Ratio).scale 10 p) = true ↔ value.value < 10 ^ p := by
  rw [Ratio.lt_iff den (Ratio.den_scale_pos (by decide) Nat.one_pos p), value_onGrid, Nat.cast_one,
    one_mul]

theorem pointFrom_spec {value : Ratio} (den : 0 < value.den) (fuel : Nat) (p : Int)
    (h : value.value < 10 ^ (p + fuel)) :
    p ≤ pointFrom value fuel p ∧ pointFrom value fuel p ≤ p + fuel ∧
      value.value < 10 ^ pointFrom value fuel p ∧
      (pointFrom value fuel p = p ∨ 10 ^ (pointFrom value fuel p - 1) ≤ value.value) := by
  induction fuel generalizing p with
  | zero =>
    rw [Nat.cast_zero, add_zero] at h
    exact ⟨le_rfl, by simp [pointFrom], h, .inl rfl⟩
  | succ fuel ih =>
    rw [pointFrom]
    split
    · rename_i below
      exact ⟨le_rfl, by omega, (lt_power_iff den p).1 below, .inl rfl⟩
    · rename_i above
      have least : 10 ^ p ≤ value.value := not_lt.1 (mt (lt_power_iff den p).2 above)
      obtain ⟨start, stop, less, last⟩ := ih (p + 1)
        (by rwa [show p + 1 + (fuel : Int) = p + (fuel + 1 : Nat) by push_cast; ring])
      refine ⟨by omega, by push_cast; omega, less, .inr ?_⟩
      rcases last with same | last
      · rwa [same, add_sub_cancel_right]
      · exact last

namespace Binary

variable {b : Binary}

theorem Finite.point_spec (h : b.Finite) :
    10 ^ (b.point - 1) ≤ b.value ∧ b.value < 10 ^ b.point ∧ -330 ≤ b.point ∧ b.point ≤ 320 := by
  obtain ⟨pos, small, least, greatest, -⟩ := h
  have log : b.m.log2 < 53 := (Nat.log2_lt pos.ne').2 small
  have atLeast : (2 : ℚ) ^ (b.m.log2 + b.q) ≤ b.value := by
    rw [zpow_add₀ two_ne_zero, zpow_natCast]
    exact mul_le_mul_of_nonneg_right (by exact_mod_cast Nat.log2_self_le pos.ne') (by positivity)
  have below : b.value < (2 : ℚ) ^ (b.m.log2 + b.q + 1) := by
    rw [show (b.m.log2 : Int) + b.q + 1 = ((b.m.log2 + 1 : Nat) : Int) + b.q by push_cast; ring,
      zpow_add₀ two_ne_zero, zpow_natCast]
    exact mul_lt_mul_of_pos_right (by exact_mod_cast Nat.lt_log2_self) (by positivity)
  generalize bits : (b.m.log2 : Int) + b.q = e at atLeast below
  obtain ⟨estimate, estimate'⟩ := point_estimate (show -1074 ≤ e by omega) (by omega)
  have found := pointFrom_spec b.den_interval_pos.2.1 4 (e * 30103 / 100000 - 1)
    (by
      rw [value_interval, show e * 30103 / 100000 - 1 + ((4 : Nat) : Int) = e * 30103 / 100000 + 3
        by omega]
      exact below.trans_le estimate')
  have point : b.point = pointFrom b.interval.2.1 4 (e * 30103 / 100000 - 1) := by rw [← bits]; rfl
  rw [← point, value_interval] at found
  obtain ⟨start, stop, less, last⟩ := found
  refine ⟨?_, less, by omega, by omega⟩
  rcases last with same | last
  · rw [same, show e * 30103 / 100000 - 1 - 1 = e * 30103 / 100000 - 2 by ring]
    exact estimate.trans atLeast
  · exact last

def stepsBelow (b : Binary) (p : Int) (n : Nat) : Nat :=
  let scaled := b.interval.2.1.scale 10 ((n : Int) - p)
  scaled.num / scaled.den

def fits (b : Binary) (p : Int) (n k : Nat) : Bool := b.holds ((⟨k, 1⟩ : Ratio).scale 10 (p - n))

theorem stepsBelow_spec (b : Binary) (p : Int) (n : Nat) :
    (b.stepsBelow p n : ℚ) ≤ b.value * 10 ^ ((n : Int) - p) ∧
      b.value * 10 ^ ((n : Int) - p) < b.stepsBelow p n + 1 := by
  have den := Ratio.den_scale_pos (show 0 < 10 by decide) b.den_interval_pos.2.1 ((n : Int) - p)
  have cut := Ratio.div_le_value den
  rw [Ratio.value_scale (by decide), value_interval] at cut
  exact_mod_cast cut

theorem onGrid?_eq (b : Binary) (p : Int) (n : Nat) :
    ∃ lower : Bool, b.onGrid? p n =
      match b.fits p n (b.stepsBelow p n), b.fits p n (b.stepsBelow p n + 1) with
      | false, false => none
      | true, false => some (b.stepsBelow p n)
      | false, true => some (b.stepsBelow p n + 1)
      | true, true => if lower then some (b.stepsBelow p n) else some (b.stepsBelow p n + 1) := by
  let point (k : Nat) : Ratio := (⟨k, 1⟩ : Ratio).scale 10 (p - n)
  let toLow := b.interval.2.1.distance (point (b.stepsBelow p n))
  let toHigh := b.interval.2.1.distance (point (b.stepsBelow p n + 1))
  refine ⟨toLow.lt toHigh || !toHigh.lt toLow && b.stepsBelow p n % 2 == 0, ?_⟩
  change (match b.fits p n (b.stepsBelow p n), b.fits p n (b.stepsBelow p n + 1) with
    | false, false => none
    | true, false => some (b.stepsBelow p n)
    | false, true => some (b.stepsBelow p n + 1)
    | true, true => if toLow.lt toHigh then some (b.stepsBelow p n)
      else if toHigh.lt toLow then some (b.stepsBelow p n + 1)
      else if b.stepsBelow p n % 2 = 0 then some (b.stepsBelow p n)
      else some (b.stepsBelow p n + 1)) = _
  cases toLow.lt toHigh <;> cases toHigh.lt toLow <;> by_cases even : b.stepsBelow p n % 2 = 0 <;>
    simp [even]

theorem onGrid?_spec (b : Binary) (p : Int) (n : Nat) :
    (b.onGrid? p n = none ∧ b.fits p n (b.stepsBelow p n) = false ∧
        b.fits p n (b.stepsBelow p n + 1) = false) ∨
      ∃ k, b.onGrid? p n = some k ∧ b.fits p n k = true ∧ k ≤ b.stepsBelow p n + 1 := by
  obtain ⟨lower, same⟩ := onGrid?_eq b p n
  rw [same]
  cases below : b.fits p n (b.stepsBelow p n) with
  | false =>
    cases above : b.fits p n (b.stepsBelow p n + 1) with
    | false => exact .inl ⟨rfl, rfl, rfl⟩
    | true => exact .inr ⟨_, rfl, above, le_rfl⟩
  | true =>
    cases above : b.fits p n (b.stepsBelow p n + 1) with
    | false => exact .inr ⟨_, rfl, below, Nat.le_succ _⟩
    | true =>
      cases lower with
      | true => exact .inr ⟨_, rfl, below, Nat.le_succ _⟩
      | false => exact .inr ⟨_, rfl, above, le_rfl⟩

theorem Finite.step_lt (h : b.Finite) : (10 : ℚ) ^ (b.point - 17) < b.high - b.low := by
  have fine : (10 : ℚ) ^ (b.point - 17) * 10 ^ 16 ≤ b.value := by
    refine le_trans (le_of_eq ?_) h.point_spec.1
    rw [← zpow_natCast, ← zpow_add₀ (by norm_num)]
    congr 1
    push_cast
    ring
  have unit : (0 : ℚ) < 2 ^ b.q := by positivity
  have wide : b.value < 10 ^ 16 * (b.high - b.low) := by
    rw [value, high, low, ← sub_mul, ← mul_assoc]
    refine mul_lt_mul_of_pos_right ?_ unit
    cases narrow : b.narrow with
    | true =>
      rw [h.narrow narrow]
      norm_num
    | false =>
      have small : (b.m : ℚ) < 2 ^ 53 := by exact_mod_cast h.small
      norm_num at small ⊢
      linarith
  nlinarith

theorem fits_of_between {p : Int} {n k : Nat} (pos : 0 < b.m) (low : b.low < k * 10 ^ (p - n))
    (high : k * 10 ^ (p - n) < b.high) : b.fits p n k = true := by
  refine holds_of_between pos (Ratio.den_scale_pos (by decide) Nat.one_pos _) ?_ ?_
  · rwa [value_onGrid]
  · rwa [value_onGrid]

theorem between_of_fits {p : Int} {n k : Nat} (pos : 0 < b.m) (h : b.fits p n k = true) :
    b.low ≤ k * 10 ^ (p - n) ∧ (k : ℚ) * 10 ^ (p - n) ≤ b.high := by
  have between := between_of_holds pos (Ratio.den_scale_pos (by decide) Nat.one_pos _) h
  rwa [value_onGrid] at between

theorem stepsBelow_mul (b : Binary) (p : Int) (n : Nat) :
    (b.stepsBelow p n : ℚ) * 10 ^ (p - n) ≤ b.value ∧
      b.value < (b.stepsBelow p n + 1 : Nat) * 10 ^ (p - n) := by
  obtain ⟨below, above⟩ := stepsBelow_spec b p n
  have step : (0 : ℚ) < 10 ^ (p - n) := by positivity
  have back : b.value * 10 ^ ((n : Int) - p) * 10 ^ (p - n) = b.value := by
    rw [mul_assoc, ← zpow_add₀ (by norm_num), sub_add_sub_cancel, sub_self, zpow_zero, mul_one]
  push_cast
  exact ⟨back ▸ mul_le_mul_of_nonneg_right below step.le,
    lt_of_eq_of_lt back.symm (mul_lt_mul_of_pos_right above step)⟩

theorem Finite.onGrid?_seventeen (h : b.Finite) : b.onGrid? b.point 17 ≠ none := by
  intro missing
  rcases onGrid?_spec b b.point 17 with ⟨-, lower, upper⟩ | ⟨k, found, -⟩
  · obtain ⟨below, above⟩ := stepsBelow_mul b b.point 17
    generalize b.stepsBelow b.point 17 = k at *
    have lowest : (k : ℚ) * 10 ^ (b.point - (17 : Nat)) ≤ b.low := by
      by_contra inside
      have fits := fits_of_between h.pos (not_le.1 inside) (below.trans_lt b.value_lt_high)
      exact Bool.false_ne_true (lower.symm.trans fits)
    have highest : b.high ≤ (k + 1 : Nat) * 10 ^ (b.point - (17 : Nat)) := by
      by_contra inside
      have fits := fits_of_between h.pos (b.low_lt_value.trans above) (not_le.1 inside)
      exact Bool.false_ne_true (upper.symm.trans fits)
    -- both neighbours would lie outside, and they are closer to each other than the ends are
    have step := h.step_lt
    push_cast at lowest highest
    linarith
  · rw [missing] at found
    cases found

theorem search_spec {p : Int} (last : b.onGrid? p 17 ≠ none) {fuel n : Nat}
    (total : fuel + n = 18) (few : n ≤ 17) :
    ∃ n' k, n ≤ n' ∧ n' ≤ 17 ∧ b.onGrid? p n' = some k ∧
      search b p fuel n = ⟨((digitsOf k).reverse.dropWhile (· = 0)).reverse,
        p + (((digitsOf k).length : Int) - n')⟩ := by
  induction fuel generalizing n with
  | zero => omega
  | succ fuel ih =>
    rw [search]
    cases found : b.onGrid? p n with
    | some k => exact ⟨n, k, le_rfl, few, found, rfl⟩
    | none =>
      have more : n ≠ 17 := by
        rintro rfl
        exact last found
      obtain ⟨n', k, le, le', found', same⟩ := ih (n := n + 1) (by omega) (by omega)
      exact ⟨n', k, by omega, le', found', same⟩

/-- The shortest digits of a finite number stand for a value between the ends of its interval. -/
theorem Finite.shortest_spec (h : b.Finite) :
    ∃ value, (shortest b).Writes value ∧ b.low ≤ value ∧ value ≤ b.high ∧
      |(shortest b).point| ≤ 400 := by
  obtain ⟨n, k, nonzero, few, found, same⟩ :=
    search_spec h.onGrid?_seventeen (show 17 + 1 = 18 from rfl) (by decide)
  obtain ⟨fits, steps⟩ : b.fits b.point n k = true ∧ k ≤ b.stepsBelow b.point n + 1 := by
    rcases onGrid?_spec b b.point n with ⟨missing, -⟩ | ⟨k', found', spec⟩
    · rw [found] at missing
      cases missing
    · rw [found] at found'
      cases found'
      exact spec
  obtain ⟨low, high⟩ := between_of_fits h.pos fits
  obtain ⟨-, less, least, greatest⟩ := h.point_spec
  have pos : 0 < k := by
    rcases Nat.eq_zero_or_pos k with rfl | pos
    · rw [Nat.cast_zero, zero_mul] at low
      exact absurd (low_pos h.pos) (not_lt.2 low)
    · exact pos
  -- the value is below the next power of ten, and the grid point is a step above it at most
  have le : k ≤ 10 ^ n := by
    have below : (b.stepsBelow b.point n : ℚ) < 10 ^ n := by
      calc (b.stepsBelow b.point n : ℚ) ≤ b.value * 10 ^ ((n : Int) - b.point) :=
            (stepsBelow_spec b b.point n).1
        _ < 10 ^ b.point * 10 ^ ((n : Int) - b.point) :=
            mul_lt_mul_of_pos_right less (by positivity)
        _ = 10 ^ n := by rw [← zpow_add₀ (by norm_num), add_sub_cancel, zpow_natCast]
    have : b.stepsBelow b.point n < 10 ^ n := by exact_mod_cast below
    omega
  have length : 1 ≤ (digitsOf k).length ∧ (digitsOf k).length ≤ n + 1 := by
    rw [digitsOf_eq, List.length_reverse, Nat.digits_length_le_iff (by decide)]
    refine ⟨List.length_pos_iff.2 (Nat.digits_ne_nil_iff_ne_zero.2 pos.ne'), ?_⟩
    exact le.trans_lt (Nat.pow_lt_pow_right (by decide) (Nat.lt_succ_self n))
  refine ⟨k * 10 ^ (b.point - n), ?_, low, high, ?_⟩
  · rw [shortest, same]
    exact writes_trimmed pos le few (by omega) b.point
  · rw [shortest, same, abs_le]
    constructor <;> simp only <;> omega

end Binary

open Float.Model Float.Model.UnpackedFloat

theorem exponent_ne_of_isFinite {x : Float} (h : x.isFinite = true) :
    ((x.toBits >>> 52) &&& 0x7FF).toNat ≠ 2047 := by
  intro all
  have ones : @unpackExponent Format.binary64 x.toBits.toBitVec = -1#11 := by
    refine BitVec.eq_of_toNat_eq ?_
    have eleven (n : Nat) : n &&& 2047 = n % 2048 := Nat.and_two_pow_sub_one_eq_mod n 11
    simpa [unpackExponent, eleven] using all
  have infinite : x.isFinite = false := by
    change (UnpackedFloat.unpack Format.binary64 x.toBits.toBitVec).isFinite = false
    rw [unpack_of_ones ones]
    split <;> rfl
  rw [h] at infinite
  cases infinite

theorem Binary.finite_of_isFinite {x : Float} (h : x.isFinite = true) {b : Binary}
    (magnitude : Binary.ofBits? x.toBits = some b) : b.Finite := by
  have notOnes := exponent_ne_of_isFinite h
  have fraction : (x.toBits &&& 0xFFFFFFFFFFFFF).toNat < 2 ^ 52 := by
    rw [UInt64.toNat_and]
    exact Nat.and_lt_two_pow _ (by decide)
  have exponent : ((x.toBits >>> 52) &&& 0x7FF).toNat < 2 ^ 11 := by
    rw [UInt64.toNat_and]
    exact Nat.and_lt_two_pow _ (by decide)
  unfold ofBits? at magnitude
  generalize ((x.toBits >>> 52) &&& 0x7FF).toNat = e at *
  generalize (x.toBits &&& 0xFFFFFFFFFFFFF).toNat = f at *
  simp only at magnitude
  split at magnitude
  · split at magnitude
    · cases magnitude
    · cases magnitude
      exact ⟨by simp only; omega, by simp only; omega, by simp, by simp, by simp⟩
  · cases magnitude
    refine ⟨by simp, by simp only; omega, by simp only; omega, by simp only; omega,
      fun narrow => ?_⟩
    simp only [Bool.and_eq_true, beq_iff_eq] at narrow
    simp [narrow.1]

end Toolwright.Decimal
