import Mathlib.Algebra.Order.Field.Power
import Mathlib.Data.Nat.Log
import Mathlib.Data.Rat.Cast.Order
import Mathlib.Tactic.Linarith
import Mathlib.Tactic.NormNum
import Mathlib.Tactic.Positivity
import Mathlib.Tactic.Ring

/-!
Upper bounds of rounded numbers. A positive number of the binary format is a mantissa of 53 bits at
some power of two. What is rounded to it is less by a unit of its last bit at most, in whichever
direction it was rounded; so a product whose factors are far enough below the greatest number does
not overflow.
-/

namespace Toolwright.Decimal

open Float.Model Float.Model.UnpackedFloat

/-- The least number that is too great even for a mantissa that is rounded up. -/
def overflowLimit : ℚ := (2 ^ 53 - 1) * 2 ^ 971

theorem overflowLimit_eq : overflowLimit = ((2 ^ 53 - 1) * 2 ^ 971 : Nat) := by
  rw [overflowLimit, Nat.cast_mul, Nat.cast_pow]
  norm_num

theorem overflowLimit_le : overflowLimit ≤ 2 ^ (1024 : Int) := by
  calc overflowLimit ≤ 2 ^ 53 * 2 ^ 971 :=
        mul_le_mul_of_nonneg_right (by norm_num) (by positivity)
    _ = 2 ^ (53 + 971) := (pow_add _ _ _).symm
    _ = 2 ^ (1024 : Int) := rfl

/-- A mantissa and exponent as numbers of the format have them, subnormal ones apart. -/
structure Normal (m : Nat) (e : Int) : Prop where
  low : 2 ^ 52 ≤ m
  high : m < 2 ^ 53
  least : -1074 ≤ e
  greatest : e ≤ 971

theorem Normal.log2 {m : Nat} {e : Int} (h : Normal m e) : m.log2 = 52 :=
  (Nat.log2_eq_iff (by have := h.low; omega)).2 ⟨h.low, h.high⟩

theorem toNat_append_one (f : BitVec 52) : (1#1 ++ f).toNat = 2 ^ 52 + f.toNat := by
  rw [BitVec.toNat_append, ← Nat.shiftLeft_add_eq_or_of_lt f.isLt]
  rfl

theorem sign_packComponents (s : Sign) (e : BitVec 11) (m : BitVec 52) :
    Sign.ofBitVec (unpackSign (packComponents Format.binary64 s e m)) = s := by
  have top : unpackSign (packComponents Format.binary64 s e m) = s.toBitVec := by
    change (s.toBitVec ++ e ++ m).extractLsb' 63 1 = s.toBitVec
    rw [BitVec.extractLsb'_append_eq_of_le (by decide),
      BitVec.extractLsb'_append_eq_of_le (by decide)]
    exact BitVec.extractLsb'_eq_self
  rw [top]
  cases s <;> rfl

section Unpack

variable {b : BitVec Format.binary64.numBits}

theorem unpack_of_ones (ones : unpackExponent b = -1#11) :
    UnpackedFloat.unpack Format.binary64 b =
      if unpackMantissa b = 0#52 then .infinity (Sign.ofBitVec (unpackSign b))
      else .notANumber :=
  if_pos ones

theorem unpack_of_zeros (zeros : unpackExponent b = 0#11) :
    UnpackedFloat.unpack Format.binary64 b = .zero (Sign.ofBitVec (unpackSign b)) ∨
      ∃ pos, UnpackedFloat.unpack Format.binary64 b =
        .finite (Sign.ofBitVec (unpackSign b)) (unpackMantissa b).toNat
          ((unpackExponent b).toNat - 1075 + 1) pos := by
  have notOnes : unpackExponent b ≠ -1#11 := by
    rw [zeros]
    decide
  by_cases zero : unpackMantissa b = 0#52
  · exact .inl ((if_neg notOnes).trans ((if_pos zeros).trans (dif_pos zero)))
  · exact .inr ⟨_, (if_neg notOnes).trans ((if_pos zeros).trans (dif_neg zero))⟩

theorem unpack_of_normal (notOnes : unpackExponent b ≠ -1#11)
    (notZeros : unpackExponent b ≠ 0#11) :
    ∃ pos, UnpackedFloat.unpack Format.binary64 b =
      .finite (Sign.ofBitVec (unpackSign b)) (1#1 ++ unpackMantissa b).toNat
        ((unpackExponent b).toNat - 1075) pos :=
  ⟨_, (if_neg notOnes).trans (if_neg notZeros)⟩

end Unpack

theorem unpack_pack {s : Sign} {m : Nat} {e : Int} (pos : 0 < m) (h : Normal m e) :
    (Float.Model.pack (.finite s m e pos)).unpack = .finite s m e pos := by
  obtain ⟨low, high, least, greatest⟩ := id h
  let biased := (e + 1023 + 52).toNat
  have fits : ¬ 2 ^ 11 ≤ biased + 1 := by omega
  have exponent : (BitVec.ofNat 11 biased).toNat = biased := by
    rw [BitVec.toNat_ofNat, Nat.mod_eq_of_lt (by omega)]
  have notZero : BitVec.ofNat 11 biased ≠ 0#11 := by
    intro zero
    have none : biased = 0 := exponent.symm.trans (congrArg BitVec.toNat zero)
    omega
  have notOnes : BitVec.ofNat 11 biased ≠ -1#11 := by
    intro ones
    have all : biased = 2047 := exponent.symm.trans (congrArg BitVec.toNat ones)
    omega
  have mantissa : (1#1 ++ BitVec.ofNat 52 m).toNat = m := by
    rw [toNat_append_one, BitVec.toNat_ofNat]
    omega
  have unbiased : (biased : Int) - 1075 = e := by omega
  have packed : UnpackedFloat.pack Format.binary64 (.finite s m e pos) =
      packComponents Format.binary64 s (BitVec.ofNat 11 biased) (BitVec.ofNat 52 m) := by
    change (if 2 ^ 11 ≤ biased + 1 then _ else if m.log2 + 1 = 53 then _ else _) = _
    rw [if_neg fits, if_pos (by rw [h.log2])]
    rfl
  change UnpackedFloat.unpack Format.binary64 (UnpackedFloat.pack Format.binary64 _) = _
  obtain ⟨_, unpacked⟩ := unpack_of_normal
    (b := packComponents Format.binary64 s (BitVec.ofNat 11 biased) (BitVec.ofNat 52 m))
    (by rwa [unpackExponent_packComponents]) (by rwa [unpackExponent_packComponents])
  rw [packed, unpacked, finite.injEq, unpackExponent_packComponents, unpackMantissa_packComponents,
    exponent, mantissa]
  exact ⟨sign_packComponents _ _ _, rfl, unbiased⟩

theorem mantissa_shiftRight (em : ExtendedMantissa) (k : Nat) :
    (em >>> k).mantissa = em.mantissa / 2 ^ k := by
  induction k with
  | zero => exact (Nat.div_one _).symm
  | succ k ih =>
    change (em >>> k).mantissa / 2 = _
    rw [ih, Nat.div_div_eq_div_mul, Nat.pow_succ]

theorem roundedMantissa_bounds (em : ExtendedMantissa) :
    em.mantissa ≤ em.roundedMantissa ∧ em.roundedMantissa ≤ em.mantissa + 1 := by
  obtain ⟨m, round, sticky⟩ := em
  have even : m + m % 2 ≤ m + 1 := by omega
  cases round <;> cases sticky <;>
    simp [ExtendedMantissa.roundedMantissa, ExtendedMantissa.accuracy,
      Accuracy.roundToNearestEven, even]

theorem roundWithAccuracy_eq {s : Sign} {m : Nat} {e e₁ e₂ : Int} {a : Accuracy}
    {em em₂ : ExtendedMantissa}
    (first : shiftToTargetExponent Format.binary64 m e a = (em, e₁))
    (second : shiftToTargetExponent Format.binary64 em.roundedMantissa e₁ .exact = (em₂, e₂)) :
    (em₂.mantissa = 0 ∧ roundWithAccuracy Format.binary64 s m e a = .zero s) ∨
      ∃ pos, roundWithAccuracy Format.binary64 s m e a = .finite s em₂.mantissa e₂ pos := by
  obtain ⟨rfl, rfl⟩ := Prod.ext_iff.1 first
  obtain ⟨rfl, rfl⟩ := Prod.ext_iff.1 second
  exact (Decidable.em _).imp (fun zero => ⟨zero, dif_pos zero⟩) fun some => ⟨_, dif_neg some⟩

theorem shiftToTargetExponent_normal {m : Nat} {e : Int} (log : m.log2 = 52) (least : -1074 ≤ e) :
    shiftToTargetExponent Format.binary64 m e .exact = (⟨m, false, false⟩, e) := by
  have target : Format.binary64.targetExponent (totalExponent m e) = e := by
    change max ((m.log2 : Int) + 1 + e - 53) (-1074) = e
    omega
  rw [shiftToTargetExponent, target, shiftToExponent, Int.sub_self]
  exact congrArg (Prod.mk _) (Int.add_zero e)

theorem shiftToTargetExponent_carry {e : Int} (least : -1074 ≤ e) :
    shiftToTargetExponent Format.binary64 (2 ^ 53) e .exact = (⟨2 ^ 52, false, false⟩, e + 1) := by
  have target : Format.binary64.targetExponent (totalExponent (2 ^ 53) e) = e + 1 := by
    change max (((2 ^ 53 : Nat).log2 : Int) + 1 + e - 53) (-1074) = e + 1
    rw [Nat.log2_two_pow]
    omega
  rw [shiftToTargetExponent, target, shiftToExponent, show e + 1 - e = 1 by omega]
  rfl

theorem leading_bits {m k : Nat} (log : m.log2 = 52 + k) :
    2 ^ 52 ≤ m / 2 ^ k ∧ m / 2 ^ k < 2 ^ 53 := by
  have nonzero : m ≠ 0 := by
    rintro rfl
    rw [Nat.log2_zero] at log
    omega
  rw [Nat.le_div_iff_mul_le (Nat.two_pow_pos k), Nat.div_lt_iff_lt_mul (Nat.two_pow_pos k),
    ← Nat.pow_add, ← Nat.pow_add, ← log, show 53 + k = m.log2 + 1 by omega]
  exact ⟨Nat.log2_self_le nonzero, Nat.lt_log2_self⟩

theorem roundWithAccuracy_exact (s : Sign) {m k : Nat} {e : Int} (log : m.log2 = 52 + k)
    (least : -1074 ≤ e) :
    ∃ r, 2 ^ 52 ≤ r ∧ r ≤ m / 2 ^ k + 1 ∧
      ((r < 2 ^ 53 ∧ ∃ pos,
          roundWithAccuracy Format.binary64 s m e .exact = .finite s r (e + k) pos) ∨
        (r = 2 ^ 53 ∧ ∃ pos, roundWithAccuracy Format.binary64 s m e .exact =
          .finite s (2 ^ 52) (e + k + 1) pos)) := by
  obtain ⟨low, high⟩ := leading_bits log
  let em : ExtendedMantissa := (⟨m, false, false⟩ : ExtendedMantissa) >>> k
  have leading : em.mantissa = m / 2 ^ k := mantissa_shiftRight _ k
  obtain ⟨atLeast, atMost⟩ := leading ▸ roundedMantissa_bounds em
  have first : shiftToTargetExponent Format.binary64 m e .exact = (em, e + k) := by
    have shift : (Format.binary64.targetExponent (totalExponent m e) - e).toNat = k := by
      change (max ((m.log2 : Int) + 1 + e - 53) (-1074) - e).toNat = k
      omega
    rw [shiftToTargetExponent, shiftToExponent, shift]
    rfl
  have least : -1074 ≤ e + k := by omega
  refine ⟨em.roundedMantissa, by omega, atMost, ?_⟩
  by_cases carry : em.roundedMantissa < 2 ^ 53
  · have log : em.roundedMantissa.log2 = 52 := (Nat.log2_eq_iff (by omega)).2 ⟨by omega, carry⟩
    rcases roundWithAccuracy_eq first (shiftToTargetExponent_normal log least) with
      ⟨zero, -⟩ | rounded
    · exact absurd zero (by dsimp only; omega)
    · exact .inl ⟨carry, rounded⟩
  · have all : em.roundedMantissa = 2 ^ 53 := by omega
    rcases roundWithAccuracy_eq first (all.symm ▸ shiftToTargetExponent_carry least) with
      ⟨zero, -⟩ | rounded
    · exact absurd zero (by decide)
    · exact .inr ⟨all, rounded⟩

/-- What a number that is not too great is rounded to is greater by one part in 2 ^ 52 at most. -/
theorem exists_rounded (s : Sign) {m : Nat} {e : Int} (wide : 52 ≤ m.log2) (least : -1074 ≤ e)
    (small : (m : ℚ) * 2 ^ e < overflowLimit) :
    ∃ m' e' pos, roundWithAccuracy Format.binary64 s m e .exact = .finite s m' e' pos ∧
      Normal m' e' ∧ e ≤ e' ∧ (m' : ℚ) * 2 ^ e' ≤ (1 + 1 / 2 ^ 52) * (m * 2 ^ e) := by
  obtain ⟨k, log⟩ := Nat.exists_eq_add_of_le wide
  obtain ⟨low, high⟩ := leading_bits log
  obtain ⟨r, atLeast, atMost, rounded⟩ := roundWithAccuracy_exact s log least
  have unit : (0 : ℚ) < 2 ^ (e + k) := by positivity
  -- what is cut off makes the number smaller, so its leading bits keep below the bound as well
  have cut : ((m / 2 ^ k : Nat) : ℚ) * 2 ^ (e + k) ≤ m * 2 ^ e := by
    have below : ((m / 2 ^ k : Nat) : ℚ) * 2 ^ k ≤ m := by exact_mod_cast Nat.div_mul_le_self m _
    rw [zpow_add₀ two_ne_zero, zpow_natCast, mul_comm (2 ^ e : ℚ), ← mul_assoc]
    exact mul_le_mul_of_nonneg_right below (by positivity)
  have value : (r : ℚ) * 2 ^ (e + k) ≤ (1 + 1 / 2 ^ 52) * (m * 2 ^ e) := by
    have ulp : (r : ℚ) ≤ (1 + 1 / 2 ^ 52) * (m / 2 ^ k : Nat) := by
      have one : (r : ℚ) ≤ (m / 2 ^ k : Nat) + 1 := by exact_mod_cast atMost
      have many : (2 ^ 52 : ℚ) ≤ (m / 2 ^ k : Nat) := by exact_mod_cast low
      linarith
    calc (r : ℚ) * 2 ^ (e + k)
        ≤ (1 + 1 / 2 ^ 52) * (m / 2 ^ k : Nat) * 2 ^ (e + k) :=
          mul_le_mul_of_nonneg_right ulp unit.le
      _ = (1 + 1 / 2 ^ 52) * ((m / 2 ^ k : Nat) * 2 ^ (e + k)) := mul_assoc _ _ _
      _ ≤ _ := mul_le_mul_of_nonneg_left cut (by norm_num)
  have exponent : e + k ≤ 971 := by
    have power : (2 : ℚ) ^ (52 + (e + k)) < 2 ^ (1024 : Int) := by
      calc (2 : ℚ) ^ (52 + (e + k)) = 2 ^ 52 * 2 ^ (e + k) := by
            rw [zpow_add₀ two_ne_zero]
            rfl
        _ ≤ (m / 2 ^ k : Nat) * 2 ^ (e + k) :=
            mul_le_mul_of_nonneg_right (by exact_mod_cast low) unit.le
        _ ≤ m * 2 ^ e := cut
        _ < overflowLimit := small
        _ ≤ 2 ^ (1024 : Int) := overflowLimit_le
    have := (zpow_lt_zpow_iff_right₀ (by norm_num : (1 : ℚ) < 2)).1 power
    omega
  rcases rounded with ⟨fits, pos, same⟩ | ⟨carry, pos, same⟩
  · exact ⟨r, e + k, pos, same, ⟨atLeast, fits, by omega, exponent⟩, by omega, value⟩
  -- a carry at the greatest exponent would need more than the bound allows
  · have below : e + k ≠ 971 := by
      intro top
      have least : (2 ^ 53 - 1 : ℚ) ≤ (m / 2 ^ k : Nat) := by
        have one : (r : ℚ) ≤ (m / 2 ^ k : Nat) + 1 := by exact_mod_cast atMost
        rw [carry] at one
        push_cast at one
        linarith
      have great : overflowLimit ≤ m * 2 ^ e := by
        refine le_trans ?_ (top ▸ cut)
        exact mul_le_mul_of_nonneg_right least (by norm_num)
      exact absurd small (not_lt.2 great)
    refine ⟨2 ^ 52, e + k + 1, pos, same, ⟨le_rfl, by norm_num, by omega, by omega⟩, by omega, ?_⟩
    rw [carry] at value
    refine le_trans (le_of_eq ?_) value
    rw [zpow_add_one₀ two_ne_zero]
    push_cast
    ring

/-- The number is positive and at most `bound`, and no bit of it stands for less than 2 ^ -53. -/
def AtMost (x : Float) (bound : ℚ) : Prop :=
  ∃ m e pos, x.toModel.unpack = .finite .positive m e pos ∧ Normal m e ∧ -53 ≤ e ∧
    (m : ℚ) * 2 ^ e ≤ bound

theorem atMost_rounded {m : Nat} {e : Int} (wide : 52 ≤ m.log2) (least : -53 ≤ e)
    (small : (m : ℚ) * 2 ^ e < overflowLimit) :
    AtMost ⟨Float.Model.pack (roundWithAccuracy Format.binary64 .positive m e .exact)⟩
      ((1 + 1 / 2 ^ 52) * (m * 2 ^ e)) := by
  obtain ⟨m', e', pos, same, normal, le, value⟩ :=
    exists_rounded .positive wide (by omega) small
  exact ⟨m', e', pos, by rw [same, unpack_pack pos normal], normal, by omega, value⟩

theorem AtMost.isInf_mul {x y : Float} {a b : ℚ} (hx : AtMost x a) (hy : AtMost y b)
    (small : a * b < overflowLimit) : (x * y).isInf = false := by
  obtain ⟨m, e, pos, unpacked, normal, least, le⟩ := hx
  obtain ⟨n, f, pos', unpacked', normal', least', le'⟩ := hy
  have wide : 52 ≤ (m * n).log2 := by
    rw [Nat.le_log2 (Nat.mul_pos pos pos').ne']
    calc 2 ^ 52 ≤ m := normal.low
      _ ≤ m * n := Nat.le_mul_of_pos_right m pos'
  have product : ((m * n : Nat) : ℚ) * 2 ^ (e + f) < overflowLimit := by
    refine lt_of_le_of_lt ?_ small
    calc ((m * n : Nat) : ℚ) * 2 ^ (e + f) = m * 2 ^ e * (n * 2 ^ f) := by
          rw [zpow_add₀ two_ne_zero]
          push_cast
          ring
      _ ≤ a * b := mul_le_mul le le' (by positivity) (le_trans (by positivity) le)
  obtain ⟨m', e', pos'', same, normal'', -, -⟩ :=
    exists_rounded (.positive * .positive) wide (by omega) product
  change (Float.Model.pack (UnpackedFloat.mul Format.binary64 x.toModel.unpack
    y.toModel.unpack)).unpack.isInf = false
  rw [unpacked, unpacked']
  change (Float.Model.pack (roundWithAccuracy Format.binary64 (.positive * .positive) (m * n)
    (e + f) .exact)).unpack.isInf = false
  rw [same, unpack_pack pos'' normal'']
  rfl

theorem atMost_toFloat {n : UInt64} (pos : 0 < n.toNat) :
    AtMost n.toFloat ((1 + 1 / 2 ^ 52) * n.toNat) := by
  have bits : n.toNat.log2 < 64 := (Nat.log2_lt pos.ne').2 n.toNat_lt
  let shift := 52 - n.toNat.log2
  have same : n.toFloat = ⟨Float.Model.pack (roundWithAccuracy Format.binary64 .positive
      (n.toNat <<< shift) (-shift) .exact)⟩ := by
    have amount : (-Format.binary64.targetExponent (totalExponent n.toNat 0)).toNat = shift := by
      change (-max ((n.toNat.log2 : Int) + 1 + 0 - 53) (-1074)).toNat = 52 - n.toNat.log2
      omega
    have greater : compare (n.toNat : Int) 0 = .gt := Int.compare_eq_gt.2 (by omega)
    change Float.ofModel
      (Float.Model.pack (UnpackedFloat.normalize Format.binary64 n.toNat 0 .positive)) = _
    rw [UnpackedFloat.normalize, greater]
    change Float.ofModel
      (Float.Model.pack (UnpackedFloat.round Format.binary64 .positive n.toNat 0)) = _
    simp only [UnpackedFloat.round, decreaseExponent, Int.zero_sub, amount]
  have value : ((n.toNat <<< shift : Nat) : ℚ) * 2 ^ (-shift : Int) = n.toNat := by
    rw [Nat.shiftLeft_eq, zpow_neg, zpow_natCast]
    push_cast
    rw [mul_assoc, mul_inv_cancel₀ (by positivity), mul_one]
  have wide : 52 ≤ (n.toNat <<< shift).log2 := by
    have shifted : n.toNat <<< shift ≠ 0 := by
      rw [Nat.shiftLeft_eq]
      exact (Nat.mul_pos pos (Nat.two_pow_pos shift)).ne'
    rw [Nat.le_log2 shifted, Nat.shiftLeft_eq]
    calc 2 ^ 52 ≤ 2 ^ (n.toNat.log2 + shift) := Nat.pow_le_pow_right (by decide) (by omega)
      _ = 2 ^ n.toNat.log2 * 2 ^ shift := Nat.pow_add _ _ _
      _ ≤ n.toNat * 2 ^ shift := Nat.mul_le_mul_right _ (Nat.log2_self_le pos.ne')
  have small : (n.toNat : ℚ) < overflowLimit := by
    rw [overflowLimit_eq, Nat.cast_lt]
    exact n.toNat_lt.trans (by decide +kernel)
  have rounded := atMost_rounded wide (show -53 ≤ -(shift : Int) by omega) (value.symm ▸ small)
  rwa [value, ← same] at rounded

end Toolwright.Decimal
