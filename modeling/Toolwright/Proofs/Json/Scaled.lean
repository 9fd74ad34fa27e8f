import Toolwright.Json.Reader
import Toolwright.Proofs.Decimal.Rounding

/-!
Products of significands and powers of ten that are numbers. Where the exponent is negative there
is nothing that could overflow; where it is not, two factors and their product are rounded, so the
product is finite when it stays three roundings below the greatest number.
-/

namespace Toolwright.Json.Reader

open Decimal Float.Model Float.Model.UnpackedFloat

/-- The number is positive and normal, and its value is a natural number. -/
def isExactly (n : Nat) : UnpackedFloat → Bool
  | .finite .positive m e _ =>
    2 ^ 52 ≤ m && m < 2 ^ 53 && -52 ≤ e && e ≤ 971 && m * 2 ^ (e + 52).toNat == n * 2 ^ 52
  | _ => false

theorem powerOfTen_exact : ∀ n < 23, isExactly (10 ^ n) (powerOfTen n).toModel.unpack = true := by
  decide +kernel

theorem atMost_of_isExactly {x : Float} {n : Nat} (h : isExactly n x.toModel.unpack = true) :
    AtMost x n := by
  unfold isExactly at h
  split at h
  · rename_i m e pos unpacked
    simp only [Bool.and_eq_true, decide_eq_true_eq, beq_iff_eq] at h
    obtain ⟨⟨⟨⟨low, high⟩, least⟩, greatest⟩, value⟩ := h
    refine ⟨m, e, pos, unpacked, ⟨low, high, by omega, greatest⟩, by omega, le_of_eq ?_⟩
    obtain ⟨k, rfl⟩ : ∃ k : Nat, e = k - 52 := ⟨(e + 52).toNat, by omega⟩
    rw [sub_add_cancel, Int.toNat_natCast] at value
    rw [zpow_sub₀ two_ne_zero, zpow_natCast, ← mul_div_assoc, div_eq_iff (by positivity)]
    exact_mod_cast value
  · exact absurd h Bool.false_ne_true

theorem atMost_powerOfTen {n : Nat} (h : n ≤ 308) :
    AtMost (powerOfTen n) ((1 + 1 / 2 ^ 52) * 10 ^ n) := by
  by_cases few : n ≤ 22
  · obtain ⟨m, e, pos, unpacked, normal, least, le⟩ :=
      atMost_of_isExactly (powerOfTen_exact n (by omega))
    refine ⟨m, e, pos, unpacked, normal, least, le.trans ?_⟩
    push_cast
    exact le_mul_of_one_le_left (by positivity) (by norm_num)
  · have same : powerOfTen n = ⟨Float.Model.pack (roundWithAccuracy Format.binary64 .positive
        (1 <<< 53 * 10 ^ n) (-53) .exact)⟩ := by
      have many : ¬ (1 < 2 ^ 53 ∧ n ≤ 22) := fun both => few both.2
      rw [powerOfTen, Float.ofScientific, dif_neg many]
      change (⟨Float.Model.pack (UnpackedFloat.ofScientific Format.binary64 1 n)⟩ : Float) = _
      rw [UnpackedFloat.ofScientific, dif_neg one_ne_zero, if_neg (by simp; omega),
        if_neg (by simp; omega), if_pos (by omega)]
      rfl
    have value : ((1 <<< 53 * 10 ^ n : Nat) : ℚ) * 2 ^ (-53 : Int) = 10 ^ n := by
      rw [Nat.shiftLeft_eq, zpow_neg]
      push_cast
      norm_num
      ring
    have wide : 52 ≤ (1 <<< 53 * 10 ^ n).log2 := by
      have pos : 0 < 10 ^ n := Nat.pow_pos (by decide)
      rw [Nat.le_log2 (Nat.mul_pos (by decide) pos).ne']
      exact le_trans (by decide) (Nat.le_mul_of_pos_right (1 <<< 53) pos)
    have small : (10 ^ n : ℚ) < overflowLimit := by
      have below : 10 ^ n < (2 ^ 53 - 1) * 2 ^ 971 := by
        calc 10 ^ n ≤ 10 ^ 308 := Nat.pow_le_pow_right (by decide) h
          _ < (2 ^ 53 - 1) * 2 ^ 971 := by decide +kernel
      rw [overflowLimit_eq]
      exact_mod_cast below
    have rounded := atMost_rounded wide le_rfl (value.symm ▸ small)
    rwa [value, ← same] at rounded

theorem scaleDown_lt (fuel : Nat) (x : Float) {e bound : Int} (nonneg : 0 ≤ bound)
    (h : e < bound) : (scaleDown fuel x e).2 < bound := by
  induction fuel generalizing x e with
  | zero => exact h
  | succ fuel ih =>
    rw [scaleDown]
    split
    · rename_i far
      simp only [Bool.and_eq_true, decide_eq_true_eq] at far
      exact ih _ (by omega)
    · exact h

theorem scaled?_isSome_of_neg (positive : Bool) (significand : Nat) {e : Int} (h : e < 0) :
    (scaled? positive significand e).isSome := by
  have below := scaleDown_lt 4 significand.toUInt64.toFloat le_rfl h
  rw [scaled?, if_neg (by omega)]
  simp only [if_neg (not_le.2 below)]
  split <;> rfl

/-- With another exponent there is a product if it is below the greatest number by a little more
than three units of a last bit. -/
theorem scaled?_isSome_of_small (positive : Bool) {significand n : Nat} (pos : 0 < significand)
    (word : significand < 2 ^ 64)
    (small : (1 + 1 / 2 ^ 52) ^ 2 * (significand * 10 ^ n : ℚ) < overflowLimit) :
    (scaled? positive significand n).isSome := by
  have few : n ≤ 308 := by
    by_contra many
    have large : (2 ^ 53 - 1) * 2 ^ 971 < significand * 10 ^ n := by
      calc (2 ^ 53 - 1) * 2 ^ 971 < 10 ^ 309 := by decide +kernel
        _ ≤ 10 ^ n := Nat.pow_le_pow_right (by decide) (by omega)
        _ ≤ significand * 10 ^ n := Nat.le_mul_of_pos_left _ pos
    have above : overflowLimit < significand * 10 ^ n := by
      rw [overflowLimit_eq]
      exact_mod_cast large
    have greater : (significand * 10 ^ n : ℚ) ≤ (1 + 1 / 2 ^ 52) ^ 2 * (significand * 10 ^ n) :=
      le_mul_of_one_le_left (by positivity) (by norm_num)
    exact absurd (above.trans_le greater) (not_lt.2 small.le)
  have toNat : significand.toUInt64.toNat = significand := Nat.mod_eq_of_lt word
  have finite := (atMost_toFloat (n := significand.toUInt64) (by omega)).isInf_mul
    (atMost_powerOfTen few) (by rw [toNat]; linarith)
  have still : scaleDown 4 significand.toUInt64.toFloat (n : Int) =
      (significand.toUInt64.toFloat, (n : Int)) := by
    have near : decide ((n : Int) < -308) = false := decide_eq_false (by omega)
    simp [scaleDown, near]
  rw [scaled?, if_neg (by omega)]
  simp only [still, if_pos (Int.natCast_nonneg n), Int.natAbs_natCast, finite]
  rfl

end Toolwright.Json.Reader
