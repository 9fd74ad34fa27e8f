import Toolwright.Proofs.Decimal.Shortest
import Toolwright.Proofs.Json.Scalar
import Toolwright.Proofs.Json.Scaled

/-!
The texts of finite numbers are read as numbers. The digits of a positional number and those of a
mantissa are gathered within 64 bits, and what they are scaled by is negative unless the number has
an exponent; then the digits stand for a value that rounds to the number, and the product of the
two does not overflow. What is read need not be what was written.
-/

namespace Toolwright.Json

open Decimal Reader

theorem isDigit_digitChar {d : Nat} (h : d < 10) : (digitChar d).isDigit = true := by
  revert d
  decide

theorem toNat_digitChar {d : Nat} (h : d < 10) : (digitChar d).toNat - '0'.toNat = d := by
  revert d
  decide

theorem isDigit_of_mem_digitChars {ds : List Nat} (h : ∀ d ∈ ds, d < 10) :
    ∀ c ∈ digitChars ds, c.isDigit = true := by
  intro c hc
  obtain ⟨d, hd, rfl⟩ := List.mem_map.1 hc
  exact isDigit_digitChar (h d hd)

theorem ofDigitChars_digitChars {ds : List Nat} (h : ∀ d ∈ ds, d < 10) (n : Nat) :
    Nat.ofDigitChars 10 (digitChars ds) n = n * 10 ^ ds.length + Nat.ofDigits 10 ds.reverse := by
  induction ds generalizing n with
  | nil => simp [digitChars]
  | cons d ds ih =>
    rw [digitChars, List.map_cons, Nat.ofDigitChars_cons, toNat_digitChar (h d (by simp)),
      ← digitChars, ih fun x hx => h x (by simp [hx]), List.reverse_cons, Nat.ofDigits_append,
      Nat.ofDigits_singleton, List.length_reverse, List.length_cons, pow_succ]
    ring

def EndsDigits (rest : List Char) : Prop := ∃ c more, rest = c :: more ∧ Reader.isDigit c = false

theorem EndsValue.endsDigits {rest : List Char} (h : EndsValue rest) : EndsDigits rest := by
  obtain ⟨c, more, rfl, rfl | rfl⟩ := h
  · exact ⟨_, _, rfl, rfl⟩
  · exact ⟨_, _, rfl, rfl⟩

theorem fractionDigits_append (positive : Bool) (base : Int) {digits rest : List Char}
    (hd : ∀ c ∈ digits, c.isDigit) {n seen : Nat} (some : seen + digits.length ≠ 0)
    (hn : Nat.ofDigitChars 10 digits n ≤ 0xFFFFFFFFFFFFFFFF) (ends : EndsDigits rest) :
    fractionDigits positive n base seen (digits ++ rest) =
      afterFraction positive (Nat.ofDigitChars 10 digits n) (base - (seen + digits.length : Nat))
        rest := by
  induction digits generalizing n seen with
  | nil =>
    obtain ⟨c, more, rfl, other⟩ := ends
    have seen_ne : seen ≠ 0 := by simpa using some
    rw [List.nil_append, fractionDigits, if_neg (by simp [other]), if_neg seen_ne]
    rfl
  | cons c digits ih =>
    have digit : Reader.isDigit c = true := by rw [isDigit_eq]; exact hd c (by simp)
    have step : Nat.ofDigitChars 10 (c :: digits) n =
        Nat.ofDigitChars 10 digits (n * 10 + digitValue c) := by
      rw [Nat.ofDigitChars_cons, Nat.mul_comm]
      rfl
    have grows := le_ofDigitChars digits (n * 10 + digitValue c)
    have room : hasRoom n (digitValue c) = true := by
      simp only [hasRoom, decide_eq_true_eq]
      omega
    rw [List.cons_append, fractionDigits, if_pos digit, if_pos room,
      ih (fun d h => hd d (by simp [h])) (by omega) (by omega), step, List.length_cons,
      Nat.add_right_comm, Nat.add_assoc]

theorem number_digits (positive : Bool) {w : Nat} {ws : List Nat} (hw : ∀ d ∈ w :: ws, d < 10)
    (plain : w = 0 → ws = []) {rest : List Char}
    (hn : Nat.ofDigitChars 10 (digitChars (w :: ws)) 0 ≤ 0xFFFFFFFFFFFFFFFF)
    (ends : EndsDigits rest) :
    Reader.number positive (digitChars (w :: ws) ++ rest) =
      afterInteger positive (Nat.ofDigitChars 10 (digitChars (w :: ws)) 0) rest := by
  obtain ⟨c, more, rfl, other⟩ := ends
  by_cases zero : w = 0
  · obtain rfl := plain zero
    rw [zero]
    change (if Reader.isDigit c then _ else _) = _
    rw [if_neg (by simp [other])]
    rfl
  · have digit : Reader.isDigit (digitChar w) = true := by
      rw [isDigit_eq]
      exact isDigit_digitChar (hw w (by simp))
    have value : digitValue (digitChar w) = w := toNat_digitChar (hw w (by simp))
    have first : digitChar w ≠ '0' := by
      intro same
      have none : w = digitValue '0' := by rw [← value, same]
      exact zero none
    have step : Nat.ofDigitChars 10 (digitChars (w :: ws)) 0 =
        Nat.ofDigitChars 10 (digitChars ws) w := by
      rw [digitChars, List.map_cons, Nat.ofDigitChars_cons, toNat_digitChar (hw w (by simp)),
        Nat.mul_zero, Nat.zero_add]
      rfl
    rw [step] at hn ⊢
    rw [digitChars, List.map_cons, List.cons_append, Reader.number, if_pos digit, value,
      ← digitChars, integerDigits_append positive _ _ _
        (isDigit_of_mem_digitChars fun d hd => hw d (by simp [hd])) hn,
      integerDigits, if_neg (by simp [other])]
    exact first

theorem number_point (positive : Bool) (w : Nat) (ws ts : List Nat) (hw : ∀ d ∈ w :: ws, d < 10)
    (ht : ∀ d ∈ ts, d < 10) (plain : w = 0 → ws = []) (some : ts ≠ []) {rest : List Char}
    (hn : Nat.ofDigits 10 (w :: ws ++ ts).reverse ≤ 0xFFFFFFFFFFFFFFFF) (ends : EndsDigits rest) :
    Reader.number positive (digitChars (w :: ws) ++ '.' :: (digitChars ts ++ rest)) =
      afterFraction positive (Nat.ofDigits 10 (w :: ws ++ ts).reverse) (-ts.length) rest := by
  have all : Nat.ofDigitChars 10 (digitChars ts) (Nat.ofDigitChars 10 (digitChars (w :: ws)) 0) =
      Nat.ofDigits 10 (w :: ws ++ ts).reverse := by
    have ten : ∀ d ∈ w :: ws ++ ts, d < 10 :=
      fun d hd => (List.mem_append.1 hd).elim (hw d) (ht d)
    have both := ofDigitChars_digitChars ten 0
    rw [Nat.zero_mul, Nat.zero_add] at both
    rw [← both, digitChars, digitChars, digitChars, List.map_append, Nat.ofDigitChars_append]
  have whole := le_ofDigitChars (digitChars ts) (Nat.ofDigitChars 10 (digitChars (w :: ws)) 0)
  have length : (digitChars ts).length = ts.length := List.length_map _
  rw [number_digits positive hw plain (by omega) ⟨'.', _, rfl, rfl⟩, afterInteger,
    fractionDigits_append positive 0 (isDigit_of_mem_digitChars ht) ?_ (by omega) ends, all]
  · rw [length, Nat.zero_add, Int.zero_sub]
  · rw [length, Nat.zero_add]
    exact List.length_eq_zero_iff.not.2 some

theorem afterFraction_end (positive : Bool) (significand : Nat) (exponent : Int)
    {rest : List Char} (h : EndsValue rest) :
    afterFraction positive significand exponent rest =
      scaledAt positive significand exponent rest := by
  obtain ⟨c, more, rfl, rfl | rfl⟩ := h <;> rfl

theorem exponentDigits_append (positive up : Bool) (significand : Nat) (base : Int)
    {digits rest : List Char} (hd : ∀ c ∈ digits, c.isDigit) {n : Nat}
    (hn : Nat.ofDigitChars 10 digits n < 0x80000000) (ends : EndsDigits rest) :
    exponentDigits positive significand base up n (digits ++ rest) =
      scaledAt positive significand (if up then base + Nat.ofDigitChars 10 digits n
        else base - Nat.ofDigitChars 10 digits n) rest := by
  induction digits generalizing n with
  | nil =>
    obtain ⟨c, more, rfl, other⟩ := ends
    rw [List.nil_append, exponentDigits, if_neg (by simp [other])]
    rfl
  | cons c digits ih =>
    have digit : Reader.isDigit c = true := by rw [isDigit_eq]; exact hd c (by simp)
    have step : Nat.ofDigitChars 10 (c :: digits) n =
        Nat.ofDigitChars 10 digits (n * 10 + digitValue c) := by
      rw [Nat.ofDigitChars_cons, Nat.mul_comm]
      rfl
    have grows := le_ofDigitChars digits (n * 10 + digitValue c)
    rw [List.cons_append, exponentDigits, if_pos digit, if_pos (by omega),
      ih (fun d h => hd d (by simp [h])) (by omega), step]

theorem exponentPart_signed (positive up : Bool) (significand : Nat) (base : Int) {n : Nat}
    (hn : n < 0x80000000) {rest : List Char} (ends : EndsDigits rest) :
    exponentPart positive significand base
        ((if up then '+' else '-') :: ((toString n).toList ++ rest)) =
      scaledAt positive significand (if up then base + n else base - n) rest := by
  have text : (toString n).toList = Nat.toDigits 10 n := by simp
  have value : Nat.ofDigitChars 10 (Nat.toDigits 10 n) 0 = n := Nat.ofDigitChars_ten_toDigits
  have digits : ∀ c ∈ Nat.toDigits 10 n, c.isDigit :=
    fun c hc => Nat.isDigit_of_mem_toDigits (by omega) (by omega) hc
  rw [text]
  cases chars : Nat.toDigits 10 n with
  | nil => exact absurd chars Nat.toDigits_ne_nil
  | cons c more =>
    rw [chars] at value digits
    have digit : Reader.isDigit c = true := by rw [isDigit_eq]; exact digits c (by simp)
    have step : Nat.ofDigitChars 10 more (digitValue c) = n := by
      rw [← value, Nat.ofDigitChars_cons]
      simp [digitValue]
    have behind : ∀ d ∈ more, d.isDigit := fun d hd => digits d (by simp [hd])
    have read := exponentDigits_append positive up significand base behind
      (n := digitValue c) (by omega) ends
    rw [step] at read
    rw [← read]
    cases up <;>
    · change (if Reader.isDigit c then _ else _) = _
      rw [if_pos digit]
      rfl

variable {d : Digits} {value : ℚ}

structure HasPoint (text : List Char) (w : Nat) (ws ts : List Nat) : Prop where
  text_eq : text = digitChars (w :: ws) ++ '.' :: digitChars ts
  lt_ten : ∀ x ∈ w :: ws ++ ts, x < 10
  plain : w = 0 → ws = []
  some : ts ≠ []
  small : Nat.ofDigits 10 (w :: ws ++ ts).reverse < 10 ^ 18

theorem hasPoint_zeros (h : d.Writes value) (zeros : Nat) :
    HasPoint ('0' :: '.' :: (List.replicate zeros '0' ++ digitChars d.digits)) 0 []
      (List.replicate zeros 0 ++ d.digits) := by
  obtain ⟨first, more, digits, -⟩ := h.first
  have zero : digitChar 0 = '0' := rfl
  refine ⟨?_, ?_, fun _ => rfl, by simp [digits], ?_⟩
  · simp only [digitChars, List.map_append, List.map_replicate, List.map_cons, List.map_nil, zero]
    rfl
  · intro x hx
    rcases List.mem_append.1 hx with hx | hx
    · rw [List.mem_singleton.1 hx]
      decide
    rcases List.mem_append.1 hx with hx | hx
    · rw [List.eq_of_mem_replicate hx]
      decide
    · exact h.lt_ten x hx
  · have behind : ([0] ++ (List.replicate zeros 0 ++ d.digits)).reverse =
        d.digits.reverse ++ List.replicate (zeros + 1) 0 := by
      rw [List.reverse_append, List.reverse_append, List.reverse_replicate, List.append_assoc]
      exact congrArg _ List.replicate_succ'.symm
    rw [behind, Nat.ofDigits_append_replicate_zero]
    exact h.significand_lt.trans (by decide)

theorem exists_fraction (h : d.Writes value) {p : Nat} (few : p ≤ 16) :
    ∃ ts, (if (digitChars d.digits).drop p = [] then ['0'] else (digitChars d.digits).drop p) =
        digitChars ts ∧ (∀ x ∈ ts, x < 10) ∧ ts ≠ [] ∧ p + ts.length ≤ 17 := by
  have length : (digitChars d.digits).length = d.digits.length := List.length_map _
  have most := h.length_le
  by_cases all : d.digits.length ≤ p
  · have nothing : (digitChars d.digits).drop p = [] := List.drop_of_length_le (by omega)
    exact ⟨[0], if_pos nothing, by simp, by simp, by simp; omega⟩
  · have something : (digitChars d.digits).drop p ≠ [] := by simp; omega
    refine ⟨d.digits.drop p, ?_, fun x hx => h.lt_ten x (List.mem_of_mem_drop hx), by simp; omega,
      by simp; omega⟩
    rw [if_neg something]
    exact List.map_drop.symm

theorem hasPoint_whole (h : d.Writes value) {p : Nat} (few : p + 1 ≤ 16) :
    ∃ w ws ts, HasPoint ((digitChars d.digits).take (p + 1) ++
      List.replicate (p + 1 - (digitChars d.digits).length) '0' ++ '.' ::
        (if (digitChars d.digits).drop (p + 1) = [] then ['0']
          else (digitChars d.digits).drop (p + 1))) w ws ts := by
  obtain ⟨first, more, digits, nonzero⟩ := h.first
  obtain ⟨ts, fraction, tenBehind, some, length⟩ := exists_fraction h few
  have front : d.digits.take (p + 1) ++ List.replicate (p + 1 - d.digits.length) 0 =
      first :: (more.take p ++ List.replicate (p + 1 - d.digits.length) 0) := by
    rw [digits, List.take_succ_cons, List.cons_append]
  have ten : ∀ x ∈ d.digits.take (p + 1) ++ List.replicate (p + 1 - d.digits.length) 0 ++ ts,
      x < 10 := by
    intro x hx
    rcases List.mem_append.1 hx with hx | hx
    · rcases List.mem_append.1 hx with hx | hx
      · exact h.lt_ten x (List.mem_of_mem_take hx)
      · rw [List.eq_of_mem_replicate hx]
        decide
    · exact tenBehind x hx
  refine ⟨first, more.take p ++ List.replicate (p + 1 - d.digits.length) 0, ts, ?_, front ▸ ten,
    fun none => absurd none nonzero, some, ?_⟩
  · have zero : digitChar 0 = '0' := rfl
    rw [← front, fraction]
    simp only [digitChars, List.map_append, List.map_take, List.map_replicate, zero,
      List.length_map]
  · rw [← front]
    refine (Nat.ofDigits_lt_base_pow_length (by decide)
      fun x hx => ten x (List.mem_reverse.1 hx)).trans_le (Nat.pow_le_pow_right (by decide) ?_)
    have most := h.length_le
    simp only [List.length_reverse, List.length_append, List.length_take, List.length_replicate]
    omega

theorem hasPoint_positional (h : d.Writes value) (high : d.point ≤ 16) :
    ∃ w ws ts, HasPoint (positional d) w ws ts := by
  unfold positional
  split
  · rename_i k point
    exact ⟨0, [], _, hasPoint_zeros h (k + 1)⟩
  · exact ⟨0, [], _, hasPoint_zeros h 0⟩
  · rename_i p nonzero point
    obtain ⟨p, rfl⟩ := Nat.exists_eq_succ_of_ne_zero nonzero
    rw [point] at high
    exact hasPoint_whole h (Int.ofNat_le.1 high)

theorem number_positional (h : d.Writes value) (high : d.point ≤ 16) (positive : Bool) :
    ∃ n, ∃ e : Int, e < 0 ∧ ∀ rest, EndsValue rest →
      Reader.number positive (positional d ++ rest) = scaledAt positive n e rest := by
  obtain ⟨w, ws, ts, text, ten, plain, some, small⟩ := hasPoint_positional h high
  refine ⟨Nat.ofDigits 10 (w :: ws ++ ts).reverse, -ts.length, ?_, fun rest ends => ?_⟩
  · have := List.length_pos_iff.2 some
    omega
  · rw [text, List.append_assoc, List.cons_append,
      number_point positive w ws ts (fun x hx => ten x (List.mem_append_left _ hx))
        (fun x hx => ten x (List.mem_append_right _ hx)) plain some (by omega) ends.endsDigits,
      afterFraction_end _ _ _ ends]

theorem exponentPart_power (positive : Bool) (significand : Nat) (base : Int) {e : Int}
    (near : e.natAbs < 0x80000000) {rest : List Char} (ends : EndsDigits rest) :
    ∃ signed, (if e < 0 then 'e' :: '-' :: (toString e.natAbs).toList
        else Style.json.plus.toList ++ (toString e.natAbs).toList) = 'e' :: signed ∧
      exponentPart positive significand base (signed ++ rest) =
        scaledAt positive significand (base + e) rest := by
  have read := fun up => exponentPart_signed positive up significand base near ends
  by_cases down : e < 0
  · refine ⟨'-' :: (toString e.natAbs).toList, by rw [if_pos down], ?_⟩
    rw [show base + e = base - (e.natAbs : Int) by omega]
    exact read false
  · refine ⟨'+' :: (toString e.natAbs).toList, by rw [if_neg down]; rfl, ?_⟩
    rw [show base + e = base + (e.natAbs : Int) by omega]
    exact read true

theorem number_scientific (h : d.Writes value) (near : |d.point| ≤ 400) (positive : Bool)
    {rest : List Char} (ends : EndsValue rest) :
    Reader.number positive (scientific Style.json d ++ rest) =
      scaledAt positive d.significand (d.point - d.digits.length) rest := by
  obtain ⟨first, more, digits, nonzero⟩ := h.first
  have ten := h.lt_ten
  have small := h.significand_lt
  have exponent : (d.point - 1).natAbs < 0x80000000 := by
    rw [abs_le] at near
    omega
  rw [Digits.significand, digits] at small ⊢
  rw [digits] at ten
  -- a single digit is written without a point
  cases more with
  | nil =>
    have value := ofDigitChars_digitChars ten 0
    rw [Nat.zero_mul, Nat.zero_add] at value
    obtain ⟨signed, power, read⟩ := exponentPart_power positive
      (Nat.ofDigits 10 [first].reverse) 0 exponent ends.endsDigits
    have text : scientific Style.json d = digitChars [first] ++ 'e' :: signed := by
      rw [← power, scientific, digits]
      rfl
    rw [text, List.append_assoc, List.cons_append,
      number_digits positive ten (fun _ => rfl) (by omega) ⟨'e', _, rfl, rfl⟩, value, afterInteger,
      read]
    congr 1
    simp
  | cons second more =>
    obtain ⟨signed, power, read⟩ := exponentPart_power positive
      (Nat.ofDigits 10 (first :: second :: more).reverse) (-(second :: more).length) exponent
      ends.endsDigits
    have text : scientific Style.json d =
        digitChars [first] ++ '.' :: (digitChars (second :: more) ++ 'e' :: signed) := by
      rw [← power, scientific, digits]
      rfl
    rw [text, List.append_assoc, List.cons_append, List.append_assoc, List.cons_append,
      number_point positive first [] (second :: more) (by simpa using ten first (by simp))
        (fun x hx => ten x (List.mem_cons_of_mem first hx)) (fun _ => rfl) (by simp)
        (by rw [List.singleton_append]; omega) ⟨'e', _, rfl, rfl⟩,
      afterFraction, List.singleton_append, read, List.length_cons (a := first)]
    congr 1
    push_cast
    ring

theorem scaled?_greatest : ∀ i < 5, ∀ positive : Bool,
    (scaled? positive (shortest ⟨2 ^ 53 - 1 - i, 971, false⟩).significand
      ((shortest ⟨2 ^ 53 - 1 - i, 971, false⟩).point -
        (shortest ⟨2 ^ 53 - 1 - i, 971, false⟩).digits.length)).isSome := by
  decide +kernel

theorem high_small {b : Binary} (h : b.Finite) (below : b.q ≤ 970 ∨ b.m ≤ 2 ^ 53 - 6) :
    (1 + 1 / 2 ^ 52) ^ 2 * b.high < overflowLimit := by
  have unit : (0 : ℚ) < 2 ^ 971 := by positivity
  have least : b.high ≤ (2 ^ 53 - 11 / 2) * 2 ^ 971 := by
    rcases below with exponent | mantissa
    · have small : (b.m : ℚ) + 1 ≤ 2 ^ 53 := by exact_mod_cast h.small
      have power : (2 : ℚ) ^ b.q ≤ 2 ^ (970 : Int) := zpow_le_zpow_right₀ (by norm_num) exponent
      calc b.high ≤ 2 ^ 53 * 2 ^ (970 : Int) :=
            mul_le_mul (by linarith) power (by positivity) (by positivity)
        _ = 2 ^ 52 * 2 ^ 971 := by
            rw [show (2 : ℚ) ^ (970 : Int) = 2 ^ 970 from zpow_natCast 2 970, ← pow_add, ← pow_add]
        _ ≤ (2 ^ 53 - 11 / 2) * 2 ^ 971 := mul_le_mul_of_nonneg_right (by norm_num) unit.le
    · have small : (b.m : ℚ) + 6 ≤ 2 ^ 53 := by
        have sum : b.m + 6 ≤ 2 ^ 53 := by omega
        exact_mod_cast sum
      have power : (2 : ℚ) ^ b.q ≤ 2 ^ (971 : Int) := zpow_le_zpow_right₀ (by norm_num) h.greatest
      exact mul_le_mul (by linarith) power (by positivity) (by norm_num)
  calc (1 + 1 / 2 ^ 52) ^ 2 * b.high ≤ (1 + 1 / 2 ^ 52) ^ 2 * ((2 ^ 53 - 11 / 2) * 2 ^ 971) :=
        mul_le_mul_of_nonneg_left least (by norm_num)
    _ = (1 + 1 / 2 ^ 52) ^ 2 * (2 ^ 53 - 11 / 2) * 2 ^ 971 := (mul_assoc _ _ _).symm
    _ < overflowLimit := mul_lt_mul_of_pos_right (by norm_num) unit

theorem scaled?_shortest {b : Binary} (h : b.Finite) (positive : Bool) :
    (scaled? positive (shortest b).significand
      ((shortest b).point - (shortest b).digits.length)).isSome := by
  obtain ⟨value, writes, least, le, -⟩ := h.shortest_spec
  by_cases negative : (shortest b).point - (shortest b).digits.length < 0
  · exact scaled?_isSome_of_neg positive _ negative
  by_cases below : b.q ≤ 970 ∨ b.m ≤ 2 ^ 53 - 6
  · obtain ⟨n, exponent⟩ := Int.eq_ofNat_of_zero_le (not_lt.1 negative)
    have product := writes.value_eq
    rw [exponent, zpow_natCast] at product
    have pos : 0 < (shortest b).significand := by
      rcases Nat.eq_zero_or_pos (shortest b).significand with zero | pos
      · rw [zero, Nat.cast_zero, zero_mul] at product
        exact absurd (least.trans_eq product.symm) (not_le.2 (Binary.low_pos h.pos))
      · exact pos
    rw [exponent]
    refine scaled?_isSome_of_small positive pos (writes.significand_lt.trans (by decide)) ?_
    rw [product]
    exact (mul_le_mul_of_nonneg_left le (by norm_num)).trans_lt (high_small h below)
  · obtain ⟨m, q, narrow⟩ := b
    obtain ⟨-, small, -, greatest, wide⟩ := h
    simp only [not_or, not_le] at below small greatest
    obtain rfl : q = 971 := by omega
    obtain ⟨i, few, rfl⟩ : ∃ i, i < 5 ∧ m = 2 ^ 53 - 1 - i := ⟨2 ^ 53 - 1 - m, by omega, by omega⟩
    obtain rfl : narrow = false := by
      cases narrow with
      | false => rfl
      | true =>
        have := wide rfl
        simp only at this
        omega
    exact scaled?_greatest i few positive

theorem exists_scaledAt (positive : Bool) {significand : Nat} {exponent : Int}
    (h : (scaled? positive significand exponent).isSome) :
    ∃ x, ∀ rest, scaledAt positive significand exponent rest = .ok (.real x, rest) := by
  obtain ⟨x, hx⟩ := Option.isSome_iff_exists.1 h
  exact ⟨x, fun rest => by rw [scaledAt, hx]⟩

theorem number_magnitude {b : Binary} (h : b.Finite) (positive : Bool) :
    ∃ x, ∀ rest, EndsValue rest →
      Reader.number positive (Style.json.magnitude (shortest b) ++ rest) =
        .ok (.real x, rest) := by
  obtain ⟨value, writes, -, -, near⟩ := h.shortest_spec
  by_cases range : Style.json.low ≤ (shortest b).point - 1 ∧
      (shortest b).point - 1 ≤ Style.json.high
  · have most : (shortest b).point ≤ 16 := by
      have := range.2
      rw [show Style.json.high = 15 from rfl] at this
      omega
    obtain ⟨n, e, negative, read⟩ := number_positional writes most positive
    obtain ⟨x, product⟩ := exists_scaledAt positive (scaled?_isSome_of_neg positive n negative)
    refine ⟨x, fun rest ends => ?_⟩
    rw [Style.magnitude, if_pos range, read rest ends, product]
  · obtain ⟨x, product⟩ := exists_scaledAt positive (scaled?_shortest h positive)
    refine ⟨x, fun rest ends => ?_⟩
    rw [Style.magnitude, if_neg range, number_scientific writes near positive ends, product]

theorem number_zero (positive : Bool) :
    ∃ x, ∀ rest, EndsValue rest →
      Reader.number positive (['0', '.', '0'] ++ rest) = .ok (.real x, rest) := by
  obtain ⟨x, product⟩ := exists_scaledAt positive
    (scaled?_isSome_of_neg positive 0 (show -1 < (0 : Int) by decide))
  refine ⟨x, fun rest ends => ?_⟩
  have read := number_point positive 0 [] [0] (by simp) (by simp)
    (fun _ => rfl) (by simp) (by decide) ends.endsDigits
  rw [afterFraction_end _ _ _ ends] at read
  exact read.trans (product rest)

def unsignedText (x : Float) : List Char :=
  match digits? x with
  | none => ['0', '.', '0']
  | some d => Style.json.magnitude d

theorem text_real (x : Float) :
    (Number.real x).text = (if isNegative x then ['-'] else []) ++ unsignedText x := by
  rw [Number.text, Style.render, unsignedText]
  cases digits? x <;> rfl

theorem number_unsigned {x : Float} (h : x.isFinite = true) (positive : Bool) :
    ∃ y, ∀ rest, EndsValue rest →
      Reader.number positive (unsignedText x ++ rest) = .ok (.real y, rest) := by
  cases magnitude : Binary.ofBits? x.toBits with
  | none =>
    rw [unsignedText, digits?, magnitude]
    exact number_zero positive
  | some b =>
    rw [unsignedText, digits?, magnitude]
    exact number_magnitude (Binary.finite_of_isFinite h magnitude) positive

theorem signedNumber_of_number {s : List Char} {r : Number × List Char}
    (h : Reader.number true s = .ok r) : signedNumber s = .ok r := by
  cases s with
  | nil => exact h
  | cons c s =>
    by_cases minus : c = '-'
    · rw [minus] at h
      cases h
    · rwa [signedNumber_of_ne minus]

/-- The text of a finite number is read as some number. -/
theorem Number.exists_readAs {n : Number} (h : n.IsFinite) : ∃ m, n.ReadAs m := by
  cases n with
  | natural n => exact ⟨_, IsWhole.legible rfl⟩
  | negative n => exact ⟨_, IsWhole.legible rfl⟩
  | real x =>
    cases sign : isNegative x with
    | true =>
      obtain ⟨y, read⟩ := number_unsigned h false
      refine ⟨.real y, fun rest ends => ?_⟩
      rw [text_real, sign, if_pos rfl]
      exact read rest ends
    | false =>
      obtain ⟨y, read⟩ := number_unsigned h true
      refine ⟨.real y, fun rest ends => ?_⟩
      rw [text_real, sign, if_neg Bool.false_ne_true, List.nil_append]
      exact signedNumber_of_number (read rest ends)

end Toolwright.Json
