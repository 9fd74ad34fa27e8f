import Toolwright.Proofs.Files.Parent
import Toolwright.Proofs.Wrapper.Casing

/-!
Casing twice. The texts that snake case leaves as they are consist of runs of small letters and
digits, one underscore between any two of them and one more in front of a digit; those that Pascal
case leaves as they are consist of a capital letter and then letters and digits. What casing makes
of a text is of that shape, so a second time changes nothing.
-/

namespace Toolwright.Wrapper

/-- Runs of small letters and digits with one underscore between any two of them, and one more in
front where the first run begins with a digit. -/
def SnakeOf (first : List Char) (more : List (List Char)) (s : List Char) : Prop :=
  AreWords (first :: more) ∧
    s = (if startsWithDigit first then ['_'] else []) ++ joinWords (first :: more)

section Runs

variable {first s : List Char} {more words : List (List Char)}

theorem startsWithDigit_joinWords (some_ : first ≠ []) :
    startsWithDigit (joinWords (first :: more)) = startsWithDigit first := by
  obtain ⟨rest, joined⟩ := joinWords_cons first more
  cases first with
  | nil => exact absurd rfl some_
  | cons c tail => simp [joined, startsWithDigit]

theorem identOf_cons (are : AreWords (first :: more)) :
    identOf (first :: more) =
      (if startsWithDigit first then ['_'] else []) ++ joinWords (first :: more) := by
  rw [identOf, startsWithDigit_joinWords (are.nonempty first List.mem_cons_self)]
  split <;> rfl

theorem piecesWithout_joinWords (are : AreWords words) :
    piecesWithout (· == '_') (joinWords words) = words := by
  have plain : ∀ w ∈ words, '_' ∉ w :=
    fun w hw mark => absurd (are.chars w hw '_' mark) (by decide)
  rw [piecesWithout, joinWords, Text.splitAt_eq_splitOn,
    List.splitOn_intercalate '_' plain are.inhabited]
  exact List.filter_eq_self.2 fun w hw => by simp [are.nonempty w hw]

theorem piecesWithout_mark (s : List Char) :
    piecesWithout (· == '_') ('_' :: s) = piecesWithout (· == '_') s := by
  simp [piecesWithout, Text.splitAt]

theorem spaced_eq_self {before : Option Char} (h : ∀ c ∈ s, c = '_' ∨ isWordChar c = true) :
    spaced before s = s := by
  induction s generalizing before with
  | nil => rfl
  | cons c rest ih =>
    obtain ⟨kind, others⟩ := List.forall_mem_cons.1 h
    rcases kind with rfl | word
    · rw [spaced, if_pos (by decide), ih others]
    · have small : c.isLower = true ∨ c.isDigit = true := by simpa [isWordChar] using word
      have upper : c.isUpper = false := by
        cases upper : c.isUpper with
        | false => rfl
        | true =>
          rcases small with lower | digit
          · simp [Text.isLower_of_isUpper upper] at lower
          · simp [Text.isDigit_of_isUpper upper] at digit
      have kept : c.isAlphanum = true := Text.isAlphanum_iff.2 (.inr small)
      rw [spaced, if_neg (by simp [kept]), if_neg (by simp [upper]), Text.toLower_eq_self upper,
        ih others]

end Runs

theorem snakeChars_shape (s : List Char) : ∃ first more, SnakeOf first more (snakeChars s) := by
  obtain ⟨words, are, text⟩ := snakeChars_eq s
  cases words with
  | nil => exact absurd rfl are.inhabited
  | cons first more => exact ⟨first, more, are, by rw [text, identOf_cons are]⟩

theorem SnakeOf.snakeChars_eq_self {first s : List Char} {more : List (List Char)}
    (h : SnakeOf first more s) : snakeChars s = s := by
  obtain ⟨are, text⟩ := h
  have chars : ∀ c ∈ s, c = '_' ∨ isWordChar c = true := by
    intro c hc
    rw [text, List.mem_append] at hc
    rcases hc with mark | inside
    · split at mark
      · exact .inl (List.mem_singleton.1 mark)
      · cases mark
    · exact (mem_joinWords inside).imp_right fun ⟨w, hw, hc⟩ => are.chars w hw c hc
  have runs : piecesWithout (· == '_') s = first :: more := by
    rw [text]
    split
    · rw [List.singleton_append, piecesWithout_mark, piecesWithout_joinWords are]
    · rw [List.nil_append, piecesWithout_joinWords are]
  rw [snakeChars, spaced_eq_self chars, runs]
  exact (identOf_cons are).trans text.symm

theorem snakeChars_eq_self {s : List Char} :
    snakeChars s = s ↔ ∃ first more, SnakeOf first more s :=
  ⟨fun same => same ▸ snakeChars_shape s, fun ⟨_, _, shape⟩ => shape.snakeChars_eq_self⟩

theorem SnakeOf.head?_eq_mark {first s : List Char} {more : List (List Char)}
    (h : SnakeOf first more s) : s.head? = some '_' ↔ startsWithDigit first = true := by
  obtain ⟨are, text⟩ := h
  obtain ⟨rest, joined⟩ := joinWords_cons first more
  cases first with
  | nil => exact absurd rfl (are.nonempty [] List.mem_cons_self)
  | cons c tail =>
    have word : isWordChar c = true := are.chars _ List.mem_cons_self c List.mem_cons_self
    have other : c ≠ '_' := by
      rintro rfl
      exact absurd word (by decide)
    rw [text, joined]
    cases digit : startsWithDigit (c :: tail) <;> simp [other]

/-- Casing is normalising. -/
theorem casing_normal (s : String) :
    snakeCase s ≠ "" ∧
    (∃ first more, SnakeOf first more (snakeCase s).toList ∧
      ((snakeCase s).toList.head? = some '_' ↔ startsWithDigit first = true)) ∧
    (snakeCase s).toList.getLast? ≠ some '_' ∧
    isPascal (pascalCase s).toList = true ∧
    snakeCase (snakeCase s) = snakeCase s ∧
    pascalCase (pascalCase s) = pascalCase s := by
  obtain ⟨first, more, shape⟩ := snakeChars_shape s.toList
  obtain ⟨c, last, word⟩ := snakeChars_getLast? s.toList
  have chars : (snakeCase s).toList = snakeChars s.toList := String.toList_ofList
  refine ⟨fun empty => ?_, ⟨first, more, ?_, ?_⟩, ?_, isPascal_pascalCase s, ?_, ?_⟩
  · rw [← chars, empty] at last
    cases last
  · rwa [chars]
  · rw [chars]
    exact shape.head?_eq_mark
  · rw [chars, last]
    rintro ⟨⟩
    exact absurd word (by decide)
  · rw [snakeCase, chars, shape.snakeChars_eq_self, snakeCase]
  · exact pascalCase_eq_self.2 (isPascal_pascalCase s)

example : snakeCase "3D" = "_3_d" ∧ snakeCase "_3_d" = "_3_d" := by decide +kernel

end Toolwright.Wrapper
