import Toolwright.Proofs.Decimal.Rounding

/-!
Numbers that stay finite. A finite number has a mantissa below 2 ^ 53 and an exponent of at most
971. A quotient by a number that is not far below one has an exponent that is only a little greater
than that of the dividend, and a product that is no infinity is finite.
-/

namespace Toolwright.Decimal

open Float.Model Float.Model.UnpackedFloat

/-- Zero, or a mantissa of at most 53 bits with an exponent of at most `k`. -/
def Bounded (k : Int) : UnpackedFloat → Prop
  | .zero _ => True
  | .finite _ m e _ => m < 2 ^ 53 ∧ e ≤ k
  | _ => False

theorem Bounded.mono {k l : Int} {x : UnpackedFloat} (h : Bounded k x) (le : k ≤ l) :
    Bounded l x := by
  cases x with
  | infinity s => exact h
  | notANumber => exact h
  | zero s => trivial
  | finite s m e pos => exact ⟨h.1, h.2.trans le⟩

theorem Bounded.isFinite {k : Int} {x : Float} (h : Bounded k x.toModel.unpack) :
    x.isFinite = true := by
  change x.toModel.unpack.isFinite = true
  cases unpacked : x.toModel.unpack <;> rw [unpacked] at h
  · exact h.elim
  · exact h.elim
  · rfl
  · rfl

theorem Bounded.neg {k : Int} {x : UnpackedFloat} (h : Bounded k x) : Bounded k x.neg := by
  cases x <;> exact h

theorem bounded_unpack {k : Int} {b : BitVec Format.binary64.numBits}
    (finite : unpackExponent b ≠ -1#11) (least : -1074 ≤ k)
    (le : ((unpackExponent b).toNat : Int) - 1075 ≤ k) :
    Bounded k (UnpackedFloat.unpack Format.binary64 b) := by
  by_cases zeros : unpackExponent b = 0#11
  · rcases unpack_of_zeros zeros with zero | ⟨_, unpacked⟩
    · rw [zero]
      trivial
    · rw [unpacked, zeros]
      exact ⟨(unpackMantissa b).isLt.trans (by decide), least⟩
  · obtain ⟨_, unpacked⟩ := unpack_of_normal finite zeros
    rw [unpacked]
    exact ⟨(1#1 ++ unpackMantissa b).isLt, le⟩

theorem bounded_packComponents {k : Int} (s : Sign) {exponent : BitVec 11} (mantissa : BitVec 52)
    (finite : exponent ≠ -1#11) (least : -1074 ≤ k) (le : (exponent.toNat : Int) - 1075 ≤ k) :
    Bounded k (UnpackedFloat.unpack Format.binary64
      (packComponents Format.binary64 s exponent mantissa)) :=
  bounded_unpack (by rwa [unpackExponent_packComponents]) least
    (by rwa [unpackExponent_packComponents])

theorem bounded_pack {k : Int} {x : UnpackedFloat} (h : Bounded k x) (least : -1074 ≤ k)
    (greatest : k ≤ 971) : Bounded k (Float.Model.pack x).unpack := by
  change Bounded k (UnpackedFloat.unpack Format.binary64 (UnpackedFloat.pack Format.binary64 x))
  cases x with
  | infinity s => exact h.elim
  | notANumber => exact h.elim
  | zero s => exact bounded_packComponents s 0 (by decide) least (by simpa using by omega)
  | finite s m e pos =>
    let biased := (e + 1023 + 52).toNat
    have fits : ¬ 2 ^ 11 ≤ biased + 1 := by
      have := h.2
      omega
    change Bounded k (UnpackedFloat.unpack Format.binary64
      (if 2 ^ 11 ≤ biased + 1 then _ else if m.log2 + 1 = 53 then _ else _))
    rw [if_neg fits]
    have exponent : (BitVec.ofNat 11 biased).toNat = biased := by
      rw [BitVec.toNat_ofNat, Nat.mod_eq_of_lt (by omega)]
    split
    · refine bounded_packComponents s _ ?_ least ?_
      · intro ones
        have all : biased = 2047 := exponent.symm.trans (congrArg BitVec.toNat ones)
        omega
      · change ((BitVec.ofNat 11 biased).toNat : Int) - 1075 ≤ k
        have := h.2
        omega
    · exact bounded_packComponents s _ (by decide) least (by simpa using by omega)

theorem bounded_pack_of_isInf {k : Int} {x : UnpackedFloat} (h : Bounded k x)
    (noInf : (Float.Model.pack x).unpack.isInf = false) :
    Bounded 971 (Float.Model.pack x).unpack := by
  refine bounded_pack ?_ (by decide) le_rfl
  cases x with
  | infinity s => exact h.elim
  | notANumber => exact h.elim
  | zero s => trivial
  | finite s m e pos =>
    refine ⟨h.1, not_lt.1 fun great => ?_⟩
    have beyond : 2 ^ 11 ≤ (e + 1023 + 52).toNat + 1 := by omega
    have packed : UnpackedFloat.pack Format.binary64 (.finite s m e pos) =
        packComponents Format.binary64 s (-1#11) 0#52 := if_pos beyond
    change (UnpackedFloat.unpack Format.binary64
      (UnpackedFloat.pack Format.binary64 _)).isInf = false at noInf
    rw [packed, unpack_of_ones unpackExponent_packComponents, unpackMantissa_packComponents,
      if_pos rfl] at noInf
    cases noInf

theorem ofMantissaAndAccuracy_mantissa (m : Nat) (a : Accuracy) :
    (ExtendedMantissa.ofMantissaAndAccuracy m a).mantissa = m := by
  rcases a with _ | (_ | _ | _) <;> rfl

theorem shiftToTargetExponent_bounds (m : Nat) (e : Int) (a : Accuracy) :
    (shiftToTargetExponent Format.binary64 m e a).1.mantissa < 2 ^ 53 ∧
      (shiftToTargetExponent Format.binary64 m e a).2 = max e (max (m.log2 + e - 52) (-1074)) := by
  let k := (Format.binary64.targetExponent (totalExponent m e) - e).toNat
  have shift : k = (max ((m.log2 : Int) + 1 + e - 53) (-1074) - e).toNat := rfl
  constructor
  · change (ExtendedMantissa.ofMantissaAndAccuracy m a >>> k).mantissa < 2 ^ 53
    rw [mantissa_shiftRight, ofMantissaAndAccuracy_mantissa,
      Nat.div_lt_iff_lt_mul (Nat.two_pow_pos k), ← Nat.pow_add]
    exact Nat.lt_log2_self.trans_le (Nat.pow_le_pow_right (by decide) (by omega))
  · change e + (k : Int) = _
    omega

theorem bounded_roundWithAccuracy {k : Int} (s : Sign) {m : Nat} {e : Int} (a : Accuracy)
    (exponent : e < k) (last : m.log2 + e - 52 < k) (least : -1074 < k) :
    Bounded k (roundWithAccuracy Format.binary64 s m e a) := by
  obtain ⟨small, shifted⟩ := shiftToTargetExponent_bounds m e a
  rcases first : shiftToTargetExponent Format.binary64 m e a with ⟨em, e₁⟩
  rw [first] at small shifted
  dsimp only at small shifted
  have atMost := (roundedMantissa_bounds em).2
  have bits : em.roundedMantissa.log2 ≤ 53 := by
    by_cases zero : em.roundedMantissa = 0
    · simp [zero]
    · exact Nat.lt_succ_iff.1 ((Nat.log2_lt zero).2 (by omega))
  obtain ⟨small₂, shifted₂⟩ := shiftToTargetExponent_bounds em.roundedMantissa e₁ .exact
  rcases second : shiftToTargetExponent Format.binary64 em.roundedMantissa e₁ .exact with ⟨em₂, e₂⟩
  rw [second] at small₂ shifted₂
  rcases roundWithAccuracy_eq (s := s) first second with ⟨-, zero⟩ | ⟨_, rounded⟩
  · rw [zero]
    trivial
  · rw [rounded]
    exact ⟨small₂, by omega⟩

theorem Bounded.exists_mul {k l : Int} {x y : UnpackedFloat} (hx : Bounded k x)
    (hy : Bounded l y) : ∃ i, Bounded i (UnpackedFloat.mul Format.binary64 x y) := by
  cases x with
  | infinity s => exact hx.elim
  | notANumber => exact hx.elim
  | zero s =>
    cases y with
    | infinity t => exact hy.elim
    | notANumber => exact hy.elim
    | zero t => exact ⟨0, trivial⟩
    | finite t n f pos => exact ⟨0, trivial⟩
  | finite s m e pos =>
    cases y with
    | infinity t => exact hy.elim
    | notANumber => exact hy.elim
    | zero t => exact ⟨0, trivial⟩
    | finite t n f pos' =>
      let i := max (e + f) (max ((m * n).log2 + (e + f) - 52) (-1074)) + 1
      exact ⟨i, bounded_roundWithAccuracy _ .exact (by omega) (by omega) (by omega)⟩

theorem bounded_mul {k l : Int} {x y : Float} (hx : Bounded k x.toModel.unpack)
    (hy : Bounded l y.toModel.unpack) (noInf : (x * y).isInf = false) :
    Bounded 971 (x * y).toModel.unpack := by
  obtain ⟨i, product⟩ := hx.exists_mul hy
  exact bounded_pack_of_isInf product noInf

theorem bounded_neg {k : Int} {x : Float} (h : Bounded k x.toModel.unpack) (least : -1074 ≤ k)
    (greatest : k ≤ 971) : Bounded k (-x).toModel.unpack :=
  bounded_pack h.neg least greatest

theorem divCore_bounds (m n : Nat) (e f : Int) :
    (divCore Format.binary64 m e n f).2.1 ≤ e - f ∧
      ((divCore Format.binary64 m e n f).1.log2 : Int) + (divCore Format.binary64 m e n f).2.1 ≤
        m.log2 + (e - f) := by
  let target := min (e - f)
    (Format.binary64.targetExponent (totalExponent m e - totalExponent n f))
  have le : target ≤ e - f := Int.min_le_left _ _
  obtain ⟨shift, amount⟩ : ∃ shift : Nat, e - f - target = shift :=
    ⟨(e - f - target).toNat, by omega⟩
  have quotient : (divCore Format.binary64 m e n f).1 = m <<< shift / n := by
    change m <<< (e - f - target).toNat / n = _
    rw [amount, Int.toNat_natCast]
  refine ⟨le, ?_⟩
  change _ + target ≤ _
  rw [quotient]
  have bits : (m <<< shift / n).log2 ≤ m.log2 + shift := by
    by_cases zero : m <<< shift / n = 0
    · simp [zero]
    · refine Nat.lt_succ_iff.1 ((Nat.log2_lt zero).2 ?_)
      calc m <<< shift / n ≤ m * 2 ^ shift := Nat.shiftLeft_eq m shift ▸ Nat.div_le_self _ _
        _ < 2 ^ (m.log2 + 1) * 2 ^ shift :=
          Nat.mul_lt_mul_of_pos_right Nat.lt_log2_self (Nat.two_pow_pos shift)
        _ = 2 ^ (m.log2 + shift + 1) := by rw [← Nat.pow_add]; congr 1; omega
  omega

theorem bounded_div {k : Int} {x y : Float} {n : Nat} {f : Int} {pos : 0 < n}
    (hx : Bounded k x.toModel.unpack) (hy : y.toModel.unpack = .finite .positive n f pos)
    (last : -53 ≤ f) (least : -1128 < k) (greatest : k + 54 ≤ 971) :
    Bounded (k + 54) (x / y).toModel.unpack := by
  refine bounded_pack ?_ (by omega) greatest
  rw [hy]
  cases unpacked : x.toModel.unpack with
  | infinity s => exact (unpacked ▸ hx : Bounded k (.infinity s)).elim
  | notANumber => exact (unpacked ▸ hx : Bounded k .notANumber).elim
  | zero s => trivial
  | finite s m e pos' =>
    obtain ⟨small, le⟩ : m < 2 ^ 53 ∧ e ≤ k := (unpacked ▸ hx : Bounded k (.finite s m e pos'))
    have bits : m.log2 < 53 := (Nat.log2_lt pos'.ne').2 small
    obtain ⟨exponent, quotient⟩ := divCore_bounds m n e f
    change Bounded (k + 54) (roundWithAccuracy Format.binary64 _ (divCore Format.binary64 m e n f).1
      (divCore Format.binary64 m e n f).2.1 (divCore Format.binary64 m e n f).2.2)
    generalize divCore Format.binary64 m e n f = divided at exponent quotient
    exact bounded_roundWithAccuracy _ _ (by omega) (by omega) (by omega)

theorem bounded_toFloat (n : UInt64) : Bounded 12 n.toFloat.toModel.unpack := by
  rcases Nat.eq_zero_or_pos n.toNat with zero | pos
  · obtain rfl : n = 0 := UInt64.toNat_inj.1 zero
    have unpacked : (0 : UInt64).toFloat.toModel.unpack = .zero .positive := rfl
    rw [unpacked]
    trivial
  · obtain ⟨m, e, pos', unpacked, normal, -, le⟩ := atMost_toFloat pos
    rw [unpacked]
    refine ⟨normal.high, ?_⟩
    have power : (2 : ℚ) ^ (52 + e) < 2 ^ (65 : Int) := by
      calc (2 : ℚ) ^ (52 + e) = 2 ^ 52 * 2 ^ e := by
            rw [zpow_add₀ two_ne_zero]
            rfl
        _ ≤ m * 2 ^ e :=
            mul_le_mul_of_nonneg_right (by exact_mod_cast normal.low) (by positivity)
        _ ≤ (1 + 1 / 2 ^ 52) * n.toNat := le
        _ ≤ (1 + 1 / 2 ^ 52) * 2 ^ 64 :=
            mul_le_mul_of_nonneg_left (by exact_mod_cast n.toNat_lt.le) (by norm_num)
        _ < 2 ^ (65 : Int) := by norm_num
    have := (zpow_lt_zpow_iff_right₀ (by norm_num : (1 : ℚ) < 2)).1 power
    omega

end Toolwright.Decimal
