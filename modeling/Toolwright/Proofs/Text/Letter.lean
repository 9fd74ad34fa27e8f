/-!
Letters and digits of ASCII. Each class of characters is an interval of codes, the intervals are
apart, and a change of case is a move from one interval of letters to the other.
-/

namespace Toolwright.Text

variable {c : Char}

theorem isAlpha_iff : c.isAlpha = true ↔ c.isUpper = true ∨ c.isLower = true :=
  Bool.or_eq_true_iff

theorem isAlphanum_iff :
    c.isAlphanum = true ↔ c.isUpper = true ∨ c.isLower = true ∨ c.isDigit = true := by
  rw [Char.isAlphanum, Bool.or_eq_true_iff, isAlpha_iff, or_assoc]

theorem isUpper_iff : c.isUpper = true ↔ 65 ≤ c.toNat ∧ c.toNat ≤ 90 :=
  decide_eq_true_iff

theorem isLower_iff : c.isLower = true ↔ 97 ≤ c.toNat ∧ c.toNat ≤ 122 :=
  Bool.and_eq_true_iff.trans (and_congr decide_eq_true_iff decide_eq_true_iff)

theorem isDigit_of_isAlpha (h : c.isAlpha = true) : c.isDigit = false := by
  rw [Bool.eq_false_iff, ne_eq, Char.isDigit_iff_toNat]
  rcases isAlpha_iff.1 h with upper | lower
  · exact fun digit => absurd (Nat.le_trans (isUpper_iff.1 upper).1 digit.2) (by decide)
  · exact fun digit => absurd (Nat.le_trans (isLower_iff.1 lower).1 digit.2) (by decide)

theorem isDigit_of_isUpper (h : c.isUpper = true) : c.isDigit = false :=
  isDigit_of_isAlpha (isAlpha_iff.2 (.inl h))

theorem isLower_of_isUpper (h : c.isUpper = true) : c.isLower = false := by
  rw [Bool.eq_false_iff, ne_eq, isLower_iff]
  exact fun lower => absurd (Nat.le_trans lower.1 (isUpper_iff.1 h).2) (by decide)

theorem toLower_eq_self (h : c.isUpper = false) : c.toLower = c :=
  dif_neg (of_decide_eq_false h)

theorem toUpper_eq_self (h : c.isLower = false) : c.toUpper = c :=
  dif_neg fun inside => Bool.eq_false_iff.1 h (isLower_iff.2 inside)

theorem isLower_toLower (h : c.isUpper = true) : c.toLower.isLower = true := by
  obtain ⟨least, greatest⟩ := isUpper_iff.1 h
  have moved : c.toLower.toNat = (c.toNat + 32) % 2 ^ 32 :=
    (congrArg Char.toNat (dif_pos (of_decide_eq_true h))).trans
      (UInt32.toNat_add c.val ('a'.val - 'A'.val))
  exact isLower_iff.2 (by omega)

theorem isUpper_toUpper (h : c.isLower = true) : c.toUpper.isUpper = true := by
  obtain ⟨least, greatest⟩ := isLower_iff.1 h
  have moved : c.toUpper.toNat = (c.toNat + 4294967264) % 2 ^ 32 :=
    (congrArg Char.toNat (dif_pos (isLower_iff.1 h))).trans
      (UInt32.toNat_add c.val ('A'.val - 'a'.val))
  exact isUpper_iff.2 (by omega)

theorem isAlphanum_toUpper (h : c.isAlphanum = true) : c.toUpper.isAlphanum = true := by
  cases lower : c.isLower with
  | true => exact isAlphanum_iff.2 (.inl (isUpper_toUpper lower))
  | false => rwa [toUpper_eq_self lower]

theorem isUpper_toUpper_of_isAlphanum (h : c.isAlphanum = true)
    (other : c.toUpper.isDigit = false) : c.toUpper.isUpper = true := by
  cases lower : c.isLower with
  | true => exact isUpper_toUpper lower
  | false =>
    rw [toUpper_eq_self lower] at other ⊢
    simpa [lower, other] using isAlphanum_iff.1 h

end Toolwright.Text
