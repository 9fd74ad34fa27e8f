import Toolwright.Json.Record
import Toolwright.Json.Writer

/-!
Written scalars are read back: strings with every escape, whole numbers of either sign, and the
words. Real numbers need not be: they are read with one rounding too many, so `ReadAs` says which
number the text of a number is read as. A number is `Legible` when it is read back from its text,
which all whole numbers are.
-/

namespace Toolwright.Json

open Reader

/-- What stands behind a value of an indented tree: a comma, or the line feed of a new line. -/
def EndsValue (rest : List Char) : Prop := ∃ c more, rest = c :: more ∧ (c = ',' ∨ c = '\n')

theorem endsValue_comma (rest : List Char) : EndsValue (',' :: rest) := ⟨_, _, rfl, .inl rfl⟩

theorem endsValue_feed (rest : List Char) : EndsValue ('\n' :: rest) := ⟨_, _, rfl, .inr rfl⟩

theorem endsValue_newLine (level : Nat) (rest : List Char) :
    EndsValue (newLine level ++ rest) := endsValue_feed _

theorem hexValue?_hexDigit {d : Nat} (h : d < 16) : hexValue? (Text.hexDigit d) = some d := by
  revert d
  decide

theorem hexDigit_utf8Size {d : Nat} (h : d < 16) : (Text.hexDigit d).utf8Size = 1 := by
  revert d
  decide

theorem hexEscape_control {c : Char} (h : c.toNat < 0x20) (rest : List Char) :
    hexEscape ('0' :: '0' :: Text.hexDigit (c.toNat / 16) :: Text.hexDigit (c.toNat % 16) :: rest) =
      .ok (c, rest) := by
  have high : c.toNat / 16 < 16 := by omega
  have low : c.toNat % 16 < 16 := by omega
  have size : ¬ Text.byteCount ('0' :: '0' :: Text.hexDigit (c.toNat / 16) ::
      Text.hexDigit (c.toNat % 16) :: rest) < 4 := by
    simp only [Text.byteCount, hexDigit_utf8Size high, hexDigit_utf8Size low]
    have zero : ('0' : Char).utf8Size = 1 := by decide
    omega
  have zero : hexValue? '0' = some 0 := by decide
  have four : fourHex ('0' :: '0' :: Text.hexDigit (c.toNat / 16) ::
      Text.hexDigit (c.toNat % 16) :: rest) = .ok (c.toNat, rest) := by
    simp only [fourHex, if_neg size, zero, hexValue?_hexDigit high, hexValue?_hexDigit low]
    congr 2
    omega
  have trailing : isTrailing c.toNat = false := by
    simp only [isTrailing, Bool.and_eq_false_iff, decide_eq_false_iff_not]
    omega
  have leading : isLeading c.toNat = false := by
    simp only [isLeading, Bool.and_eq_false_iff, decide_eq_false_iff_not]
    omega
  simp [hexEscape, bind, Except.bind, four, trailing, leading, Char.ofNat_toNat]

theorem stringBody_escape {fuel : Nat} {rest more last : List Char} (c : Char)
    (h : stringBody fuel rest = .ok (more, last)) :
    stringBody (fuel + 1) (escape c ++ rest) = .ok (c :: more, last) := by
  unfold escape
  iterate 7
    split
    · subst_vars
      simp [stringBody, shortEscape?, bind, Except.bind, h]
  split
  · rename_i control
    simp only [controlEscape, List.cons_append, List.nil_append, stringBody,
      hexEscape_control control, bind, Except.bind, h]
  · rename_i quote backslash _ _ _ _ _ plain
    simp only [List.singleton_append]
    rw [stringBody]
    · simp only [if_neg plain, bind, Except.bind, h]
    all_goals grind

theorem stringBody_escaped (chars : List Char) (fuel : Nat) (h : chars.length < fuel)
    (rest : List Char) :
    stringBody fuel (chars.flatMap escape ++ '"' :: rest) = .ok (chars, rest) := by
  induction chars generalizing fuel with
  | nil =>
    cases fuel with
    | zero => simp at h
    | succ fuel => rfl
  | cons c chars ih =>
    cases fuel with
    | zero => simp at h
    | succ fuel =>
      have read := ih fuel (by simpa using h)
      rw [List.flatMap_cons, List.append_assoc]
      exact stringBody_escape c read

theorem length_le_escaped (chars : List Char) : chars.length ≤ (chars.flatMap escape).length := by
  induction chars with
  | nil => simp
  | cons c chars ih =>
    have one : 1 ≤ (escape c).length := by
      unfold escape controlEscape
      repeat' split
      all_goals simp
    simp only [List.flatMap_cons, List.length_append, List.length_cons]
    omega

theorem stringTail_escaped (s : String) (rest : List Char) :
    stringTail (s.toList.flatMap escape ++ '"' :: rest) = .ok (s, rest) := by
  have fuel : s.toList.length < (s.toList.flatMap escape ++ '"' :: rest).length + 1 := by
    have bound := length_le_escaped s.toList
    simp only [List.length_append]
    omega
  simp only [stringTail, bind, Except.bind, stringBody_escaped _ _ fuel, String.ofList_toList]

theorem writeString_append (s : String) (rest : List Char) :
    writeString s ++ rest = '"' :: (s.toList.flatMap escape ++ '"' :: rest) := by
  simp [writeString]

def Reader.signedNumber : Reader Number
  | '-' :: rest => number false rest
  | s => number true s

/-- The text of `n` is read as `m`, whatever value or bracket comes next. -/
def Number.ReadAs (n m : Number) : Prop :=
  ∀ rest, EndsValue rest → signedNumber (n.text ++ rest) = .ok (m, rest)

/-- The number is read back from its text, whatever value or bracket comes next. -/
def Number.Legible (n : Number) : Prop :=
  ∀ rest, EndsValue rest → signedNumber (n.text ++ rest) = .ok (n, rest)

def Number.IsWhole (n : Number) : Prop := n.toInt?.isSome

/-- A number as a JSON value can hold it: the real ones among them are finite. -/
def Number.IsFinite : Number → Prop
  | .real x => x.isFinite = true
  | _ => True

theorem isDigit_eq (c : Char) : Reader.isDigit c = c.isDigit := by
  simp only [Reader.isDigit, Char.isDigit, Char.le_def]

theorem signedNumber_of_ne {c : Char} (h : c ≠ '-') (rest : List Char) :
    signedNumber (c :: rest) = Reader.number true (c :: rest) := by
  rw [signedNumber]
  rintro more ⟨⟩
  exact h rfl

theorem le_ofDigitChars (digits : List Char) (n : Nat) : n ≤ Nat.ofDigitChars 10 digits n := by
  rw [Nat.ofDigitChars_eq_ofDigitChars_zero]
  have one : 1 ≤ 10 ^ digits.length := Nat.one_le_pow _ _ (by omega)
  have step : 1 * n ≤ 10 ^ digits.length * n := Nat.mul_le_mul_right n one
  omega

theorem integerDigits_append (positive : Bool) (digits rest : List Char) (n : Nat)
    (hd : ∀ c ∈ digits, c.isDigit) (hn : Nat.ofDigitChars 10 digits n ≤ 0xFFFFFFFFFFFFFFFF) :
    integerDigits positive n (digits ++ rest) =
      integerDigits positive (Nat.ofDigitChars 10 digits n) rest := by
  induction digits generalizing n with
  | nil => simp
  | cons c digits ih =>
    have digit : Reader.isDigit c = true := by rw [isDigit_eq]; exact hd c (by simp)
    have step : Nat.ofDigitChars 10 (c :: digits) n =
        Nat.ofDigitChars 10 digits (n * 10 + digitValue c) := by
      rw [Nat.ofDigitChars_cons, Nat.mul_comm]
      rfl
    have grows := le_ofDigitChars digits (n * 10 + digitValue c)
    have room : hasRoom n (digitValue c) = true := by
      simp only [hasRoom, decide_eq_true_eq]
      omega
    rw [List.cons_append, integerDigits, if_pos digit, if_pos room, step]
    exact ih _ (fun d h => hd d (by simp [h])) (by omega)

theorem integerDigits_end (positive : Bool) (n : Nat) {rest : List Char} (h : EndsValue rest) :
    integerDigits positive n rest = .ok (whole positive n, rest) := by
  obtain ⟨c, more, rfl, rfl | rfl⟩ := h <;> rfl

theorem head?_toDigits {n : Nat} (h : 0 < n) : (Nat.toDigits 10 n).head? ≠ some '0' := by
  induction n using Nat.strongRecOn with
  | ind n ih =>
    by_cases small : n < 10
    · rw [Nat.toDigits_of_lt_base small]
      simp only [List.head?_cons, ne_eq, Option.some.injEq, Nat.digitChar_eq_zero]
      omega
    · have front := ih (n / 10) (by omega) (by omega)
      rw [Nat.toDigits_of_base_le (by omega) (by omega)]
      cases text : Nat.toDigits 10 (n / 10) with
      | nil => exact absurd text Nat.toDigits_ne_nil
      | cons c more => rw [text] at front; exact front

theorem number_toDigits (positive : Bool) {n : Nat} (hn : n ≤ 0xFFFFFFFFFFFFFFFF)
    {rest : List Char} (h : EndsValue rest) :
    Reader.number positive (Nat.toDigits 10 n ++ rest) = .ok (whole positive n, rest) := by
  rcases Nat.eq_zero_or_pos n with rfl | pos
  · obtain ⟨c, more, rfl, rfl | rfl⟩ := h <;> rfl
  · have head := head?_toDigits pos
    have value : Nat.ofDigitChars 10 (Nat.toDigits 10 n) 0 = n := Nat.ofDigitChars_ten_toDigits
    have digits : ∀ c ∈ Nat.toDigits 10 n, c.isDigit :=
      fun c hc => Nat.isDigit_of_mem_toDigits (by omega) (by omega) hc
    cases text : Nat.toDigits 10 n with
    | nil => exact absurd text Nat.toDigits_ne_nil
    | cons c more =>
      rw [text] at head value digits
      have digit : Reader.isDigit c = true := by rw [isDigit_eq]; exact digits c (by simp)
      have first : c ≠ '0' := by simpa using head
      have step : Nat.ofDigitChars 10 more (digitValue c) = n := by
        rw [← value, Nat.ofDigitChars_cons]
        simp [digitValue]
      rw [List.cons_append, Reader.number, if_pos digit,
        integerDigits_append positive more rest _ (fun d hd => digits d (by simp [hd])) (by omega),
        step, integerDigits_end positive n h]
      exact first

theorem whole_true (n : UInt64) : whole true n.toNat = .natural n := by
  simp [whole]

theorem whole_false (n : Fin 0x8000000000000000) : whole false (n.val + 1) = .negative n := by
  have bound := n.isLt
  simp [whole, show n.val + 1 ≤ 0x8000000000000000 by omega]

theorem Number.IsWhole.legible {n : Number} (h : n.IsWhole) : n.Legible := by
  intro rest hrest
  cases n with
  | natural n =>
    have bound : n.toNat ≤ 0xFFFFFFFFFFFFFFFF := by have := n.toNat_lt; omega
    have read := number_toDigits true bound hrest
    have text : (Number.natural n).text = Nat.toDigits 10 n.toNat := by simp [Number.text]
    cases digits : Nat.toDigits 10 n.toNat with
    | nil => exact absurd digits Nat.toDigits_ne_nil
    | cons c more =>
      have digit : c.isDigit := Nat.isDigit_of_mem_toDigits (by omega) (by omega)
        (show c ∈ Nat.toDigits 10 n.toNat by simp [digits])
      have plain : c ≠ '-' := by
        rintro rfl
        exact absurd digit (by decide)
      rw [digits, List.cons_append] at read
      rw [text, digits, List.cons_append, signedNumber_of_ne plain, read, whole_true]
  | negative n =>
    have bound : n.val + 1 ≤ 0xFFFFFFFFFFFFFFFF := by have := n.isLt; omega
    have read := number_toDigits false bound hrest
    simpa [Number.text, signedNumber, whole_false] using read
  | real x => simp [IsWhole, toInt?] at h

/-- A floating-point number need not be legible: this one is read back as its neighbour. -/
example : ¬ (Number.real 1.1199999999999999e25).Legible := by
  intro legible
  have read := legible [','] (endsValue_comma [])
  have bits := congrArg (fun r => r.toOption.map fun p => p.1.toFloat.toBits) read
  revert bits
  decide +kernel

theorem Number.ReadAs.head {n m : Number} (h : n.ReadAs m) :
    ∃ c more, n.text = c :: more ∧ (c = '-' ∨ Reader.isDigit c = true) := by
  have read := h [','] (endsValue_comma [])
  cases text : n.text with
  | nil =>
    rw [text] at read
    simp [signedNumber, Reader.number, Reader.isDigit] at read
  | cons c more =>
    refine ⟨c, more, rfl, ?_⟩
    by_cases minus : c = '-'
    · exact .inl minus
    · cases digit : Reader.isDigit c with
      | true => exact .inr rfl
      | false =>
        have zero : c ≠ '0' := by
          rintro rfl
          exact absurd digit (by decide)
        rw [text, List.cons_append, signedNumber_of_ne minus, Reader.number] at read
        · simp [digit] at read
        · exact zero

end Toolwright.Json
