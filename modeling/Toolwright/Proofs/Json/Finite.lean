import Toolwright.Proofs.Decimal.Finite
import Toolwright.Proofs.Json.Scalar
import Toolwright.Proofs.Json.Scaled

/-!
Numbers that are read are finite. A significand of 64 bits stays finite when it is divided by a
power of ten, however often, and an infinite product is refused; so every way in which a number can
end gives a finite one, whatever its digits are.
-/

namespace Toolwright.Json.Reader

open Decimal Float.Model Float.Model.UnpackedFloat

theorem bounded_div_powerOfTen {k : Int} {x : Float} {n : Nat} (hx : Bounded k x.toModel.unpack)
    (few : n ≤ 308) (least : -1128 < k) (greatest : k + 54 ≤ 971) :
    Bounded (k + 54) (x / powerOfTen n).toModel.unpack := by
  obtain ⟨m, e, pos, unpacked, -, last, -⟩ := atMost_powerOfTen few
  exact bounded_div hx unpacked last least greatest

theorem bounded_powerOfTen {n : Nat} (few : n ≤ 308) :
    Bounded 971 (powerOfTen n).toModel.unpack := by
  obtain ⟨m, e, pos, unpacked, normal, -, -⟩ := atMost_powerOfTen few
  rw [unpacked]
  exact ⟨normal.high, normal.greatest⟩

theorem bounded_scaleDown (fuel : Nat) {k : Int} {x : Float} (e : Int)
    (hx : Bounded k x.toModel.unpack) (least : -1128 < k) (greatest : k + 54 * fuel ≤ 971) :
    Bounded (k + 54 * fuel) (scaleDown fuel x e).1.toModel.unpack := by
  induction fuel generalizing k x e with
  | zero => exact hx.mono (by omega)
  | succ fuel ih =>
    rw [scaleDown]
    split
    · have divided := bounded_div_powerOfTen hx (le_refl 308) least (by omega)
      exact (ih (e + 308) divided (by omega) (by omega)).mono (by omega)
    · exact hx.mono (by omega)

theorem bounded_signed (positive : Bool) {x : Float} (h : Bounded 971 x.toModel.unpack) :
    Bounded 971 (signed positive x).toModel.unpack := by
  cases positive with
  | true => exact h
  | false => exact bounded_neg h (by decide) le_rfl

theorem bounded_scaled {positive : Bool} {significand : Nat} {exponent : Int} {x : Float}
    (h : scaled? positive significand exponent = some x) : Bounded 971 x.toModel.unpack := by
  have word := bounded_toFloat significand.toUInt64
  rw [scaled?] at h
  split at h
  · split at h
    · cases h
      exact bounded_signed positive (word.mono (by decide))
    · cases h
  · rename_i near
    have scaled := bounded_scaleDown 4 exponent word (by decide) (by decide)
    have few := scaleDown_lt 4 significand.toUInt64.toFloat (by decide)
      (Int.lt_add_one_of_le (not_lt.1 near))
    generalize scaleDown 4 significand.toUInt64.toFloat exponent = last at h scaled few
    obtain ⟨y, e⟩ := last
    simp only at h scaled few
    split at h
    · split at h
      · cases h
      · rename_i noInf
        cases h
        exact bounded_signed positive
          (bounded_mul scaled (bounded_powerOfTen (by omega)) (Bool.not_eq_true _ ▸ noInf))
    · split at h
      · cases h
        exact bounded_signed positive (scaled.mono (by decide))
      · cases h
        have divided := bounded_div_powerOfTen scaled (n := e.natAbs) (by omega) (by decide)
          (by decide)
        exact bounded_signed positive (divided.mono (by decide))

variable {positive : Bool} {significand : Nat} {s rest : List Char} {n : Number}

theorem isFinite_of_scaledAt {exponent : Int}
    (h : scaledAt positive significand exponent s = .ok (n, rest)) : n.IsFinite := by
  unfold scaledAt at h
  split at h
  · rename_i product
    cases h
    exact (bounded_scaled product).isFinite
  · cases h

theorem isFinite_of_exponentDigits {base : Int} {up : Bool} {k : Nat}
    (h : exponentDigits positive significand base up k s = .ok (n, rest)) : n.IsFinite := by
  induction s generalizing k with
  | nil => exact isFinite_of_scaledAt h
  | cons c s ih =>
    unfold exponentDigits at h
    split at h
    · simp only at h
      split at h
      · exact ih h
      · split at h
        · cases h
        · cases h
          have zero : Bounded 971 (0.0 : Float).toModel.unpack := trivial
          exact (bounded_signed positive zero).isFinite
    · exact isFinite_of_scaledAt h

theorem isFinite_of_exponentPart {base : Int}
    (h : exponentPart positive significand base s = .ok (n, rest)) : n.IsFinite := by
  unfold exponentPart at h
  simp only at h
  split at h
  · cases h
  · split at h
    · exact isFinite_of_exponentDigits h
    · cases h

theorem isFinite_of_afterFraction {exponent : Int}
    (h : afterFraction positive significand exponent s = .ok (n, rest)) : n.IsFinite := by
  unfold afterFraction at h
  split at h
  · exact isFinite_of_exponentPart h
  · exact isFinite_of_exponentPart h
  · exact isFinite_of_scaledAt h

theorem isFinite_of_fractionDigits {base : Int} {seen : Nat}
    (h : fractionDigits positive significand base seen s = .ok (n, rest)) : n.IsFinite := by
  induction s generalizing significand seen with
  | nil =>
    unfold fractionDigits at h
    split at h
    · cases h
    · exact isFinite_of_afterFraction h
  | cons c s ih =>
    unfold fractionDigits at h
    split at h
    · split at h
      · exact ih h
      · exact isFinite_of_afterFraction h
    · split at h
      · cases h
      · exact isFinite_of_afterFraction h

theorem isFinite_of_longDigits {extra : Nat}
    (h : longDigits positive significand extra s = .ok (n, rest)) : n.IsFinite := by
  induction s generalizing extra with
  | nil => exact isFinite_of_scaledAt h
  | cons c s ih =>
    unfold longDigits at h
    split at h
    · exact isFinite_of_fractionDigits h
    · exact isFinite_of_exponentPart h
    · exact isFinite_of_exponentPart h
    · exact isFinite_of_scaledAt h
    · rename_i same
      cases same
      split at h
      · exact ih h
      · exact isFinite_of_scaledAt h

theorem isFinite_whole (positive : Bool) (significand : Nat) :
    (whole positive significand).IsFinite := by
  unfold whole
  split
  · trivial
  · split
    · trivial
    · exact (bounded_neg (bounded_toFloat significand.toUInt64) (by decide) (by decide)).isFinite

theorem isFinite_of_afterInteger
    (h : afterInteger positive significand s = .ok (n, rest)) : n.IsFinite := by
  unfold afterInteger at h
  split at h
  · exact isFinite_of_fractionDigits h
  · exact isFinite_of_exponentPart h
  · exact isFinite_of_exponentPart h
  · cases h
    exact isFinite_whole positive significand

theorem isFinite_of_integerDigits
    (h : integerDigits positive significand s = .ok (n, rest)) : n.IsFinite := by
  induction s generalizing significand with
  | nil =>
    cases h
    exact isFinite_whole positive significand
  | cons c s ih =>
    unfold integerDigits at h
    split at h
    · split at h
      · exact ih h
      · exact isFinite_of_longDigits h
    · exact isFinite_of_afterInteger h

theorem isFinite_of_number (h : number positive s = .ok (n, rest)) : n.IsFinite := by
  unfold number at h
  split at h
  · cases h
  · split at h
    · split at h
      · cases h
      · exact isFinite_of_afterInteger h
    · exact isFinite_of_afterInteger h
  · split at h
    · exact isFinite_of_integerDigits h
    · cases h

end Toolwright.Json.Reader
