import Mathlib.Data.List.Basic
import Toolwright.Proofs.Text.Letter
import Toolwright.Proofs.Text.Part
import Toolwright.Wrapper.Casing

/-!
Shapes of identifiers. A snake-case identifier consists of words of lower-case letters and digits,
one underscore between any two of them and one more in front of a digit; a Pascal-case identifier is
a capital letter and then letters and digits. A text is its own Pascal-case identifier exactly when
it has that shape.
-/

namespace Toolwright.Wrapper

def isWordChar (c : Char) : Bool := c.isLower || c.isDigit

theorem isWordChar_toLower {c : Char} (h : c.isAlphanum = true) : isWordChar c.toLower = true := by
  cases upper : c.isUpper with
  | true => simp [isWordChar, Text.isLower_toLower upper]
  | false =>
    rw [Text.toLower_eq_self upper, isWordChar, Bool.or_eq_true]
    simpa [upper] using Text.isAlphanum_iff.1 h

theorem mem_piecesWithout {p : Char → Bool} {s piece : List Char} (h : piece ∈ piecesWithout p s) :
    piece ≠ [] ∧ (∀ c ∈ piece, p c = false) ∧ ∀ c ∈ piece, c ∈ s := by
  obtain ⟨among, nonempty⟩ := List.mem_filter.1 h
  exact ⟨by simpa using nonempty, fun c hc => (Text.of_mem_splitAt among c hc).2,
    fun c hc => (Text.of_mem_splitAt among c hc).1⟩

theorem piecesWithout_of_forall {p : Char → Bool} {s : List Char} (nonempty : s ≠ [])
    (h : ∀ c ∈ s, p c = false) : piecesWithout p s = [s] := by
  simp [piecesWithout, Text.splitAt_eq_splitOnP, List.splitOnP_eq_singleton h, nonempty]

structure AreWords (words : List (List Char)) : Prop where
  inhabited : words ≠ []
  nonempty : ∀ w ∈ words, w ≠ []
  chars : ∀ w ∈ words, ∀ c ∈ w, isWordChar c = true

def identOf (words : List (List Char)) : List Char :=
  if startsWithDigit (joinWords words) then '_' :: joinWords words else joinWords words

theorem joinWords_cons (w : List Char) (words : List (List Char)) :
    ∃ rest, joinWords (w :: words) = w ++ rest := by
  cases words with
  | nil => exact ⟨[], by simp [joinWords]⟩
  | cons next more => exact ⟨'_' :: joinWords (next :: more), by simp [joinWords]⟩

theorem mem_joinWords {words : List (List Char)} {c : Char} (h : c ∈ joinWords words) :
    c = '_' ∨ ∃ w ∈ words, c ∈ w := by
  induction words with
  | nil => simp [joinWords] at h
  | cons w more ih =>
    cases more with
    | nil => exact .inr ⟨w, List.mem_cons_self, by simpa [joinWords] using h⟩
    | cons next more =>
      rw [joinWords, List.intercalate_cons_cons, List.mem_append, List.mem_append] at h
      rcases h with (own | mark) | later
      · exact .inr ⟨w, List.mem_cons_self, own⟩
      · exact .inl (List.mem_singleton.1 mark)
      · exact (ih later).imp_right fun ⟨v, hv, hc⟩ => ⟨v, List.mem_cons_of_mem _ hv, hc⟩

theorem getLast?_joinWords {words : List (List Char)} (h : AreWords words) :
    ∃ c, (joinWords words).getLast? = some c ∧ isWordChar c = true := by
  obtain ⟨front, last, rfl⟩ : ∃ front last, words = front ++ [last] :=
    ⟨_, _, (List.dropLast_concat_getLast h.inhabited).symm⟩
  have nonempty := h.nonempty last (by simp)
  have ends : ∃ before, joinWords (front ++ [last]) = before ++ last := by
    cases front with
    | nil => exact ⟨[], by simp [joinWords]⟩
    | cons w more =>
      exact ⟨joinWords (w :: more) ++ ['_'], by
        rw [joinWords, Text.intercalate_snoc (by simp)]
        simp [joinWords]⟩
  obtain ⟨before, text⟩ := ends
  refine ⟨last.getLast nonempty, ?_, h.chars last (by simp) _ (List.getLast_mem nonempty)⟩
  rw [text, List.getLast?_append, List.getLast?_eq_some_getLast nonempty, Option.some_or]

theorem mem_spaced {before : Option Char} {s : List Char} {c : Char} (h : c ∈ spaced before s) :
    c = '_' ∨ isWordChar c = true := by
  induction s generalizing before with
  | nil => simp [spaced] at h
  | cons d rest ih =>
    rw [spaced] at h
    split at h
    · rcases List.mem_cons.1 h with rfl | later
      · exact .inl rfl
      · exact ih later
    · rename_i kept
      have lower : isWordChar d.toLower = true := isWordChar_toLower (by simpa using kept)
      split at h
      · rcases List.mem_cons.1 h with rfl | h
        · exact .inl rfl
        · rcases List.mem_cons.1 h with rfl | later
          · exact .inr lower
          · exact ih later
      · rcases List.mem_cons.1 h with rfl | later
        · exact .inr lower
        · exact ih later

theorem snakeChars_eq (s : List Char) : ∃ words, AreWords words ∧ snakeChars s = identOf words := by
  unfold snakeChars
  split
  · have chars : ['v', 'a', 'l', 'u', 'e'].all isWordChar = true := by decide
    exact ⟨[['v', 'a', 'l', 'u', 'e']],
      ⟨by simp, by simp, fun w hw => List.mem_singleton.1 hw ▸ List.all_eq_true.1 chars⟩, by decide⟩
  · rename_i words none
    refine ⟨_, ⟨none, fun w hw => (mem_piecesWithout hw).1, fun w hw c hc => ?_⟩, rfl⟩
    obtain ⟨_, plain, among⟩ := mem_piecesWithout hw
    have other := plain c hc
    rcases mem_spaced (among c hc) with rfl | word
    · simp at other
    · exact word

section Snake

variable (s : List Char)

theorem mem_snakeChars {c : Char} (h : c ∈ snakeChars s) : c = '_' ∨ isWordChar c = true := by
  obtain ⟨words, are, text⟩ := snakeChars_eq s
  have joined : c = '_' ∨ c ∈ joinWords words := by
    rw [text, identOf] at h
    split at h
    · exact List.mem_cons.1 h
    · exact .inr h
  rcases joined with mark | inside
  · exact .inl mark
  · exact (mem_joinWords inside).imp_right fun ⟨w, hw, hc⟩ => are.chars w hw c hc

theorem snakeChars_head :
    (∃ c rest, snakeChars s = c :: rest ∧ c.isLower = true) ∨
      ∃ d rest, snakeChars s = '_' :: d :: rest ∧ d.isDigit = true := by
  obtain ⟨words, are, text⟩ := snakeChars_eq s
  cases words with
  | nil => exact absurd rfl are.inhabited
  | cons w more =>
    cases w with
    | nil => exact absurd rfl (are.nonempty [] List.mem_cons_self)
    | cons c tail =>
      obtain ⟨rest, joined⟩ := joinWords_cons (c :: tail) more
      rw [List.cons_append] at joined
      have first : isWordChar c = true := are.chars _ List.mem_cons_self c List.mem_cons_self
      rw [text, identOf, joined]
      cases digit : c.isDigit with
      | true => exact .inr ⟨c, tail ++ rest, by simp [startsWithDigit, digit], digit⟩
      | false =>
        refine .inl ⟨c, tail ++ rest, by simp [startsWithDigit, digit], ?_⟩
        simpa [isWordChar, digit] using first

theorem snakeChars_getLast? : ∃ c, (snakeChars s).getLast? = some c ∧ isWordChar c = true := by
  obtain ⟨words, are, text⟩ := snakeChars_eq s
  obtain ⟨c, last, word⟩ := getLast?_joinWords are
  refine ⟨c, ?_, word⟩
  rw [text, identOf]
  split
  · rw [List.getLast?_cons, last]
    rfl
  · exact last

end Snake

theorem mem_snakeCase {s : String} {c : Char} (h : c ∈ (snakeCase s).toList) :
    c = '_' ∨ isWordChar c = true := by
  rw [snakeCase, String.toList_ofList] at h
  exact mem_snakeChars s.toList h

def isPascal : List Char → Bool
  | [] => false
  | c :: rest => c.isUpper && rest.all Char.isAlphanum

theorem isPascal_cons {c : Char} {rest : List Char} :
    isPascal (c :: rest) = true ↔ c.isUpper = true ∧ ∀ d ∈ rest, d.isAlphanum = true := by
  rw [isPascal, Bool.and_eq_true_iff, List.all_eq_true]

theorem isPascal_all {s : List Char} (h : isPascal s = true) : ∀ c ∈ s, c.isAlphanum = true := by
  cases s with
  | nil => exact List.forall_mem_nil _
  | cons c rest =>
    obtain ⟨first, others⟩ := isPascal_cons.1 h
    exact List.forall_mem_cons.2 ⟨Text.isAlphanum_iff.2 (.inl first), others⟩

theorem mem_capitalized {w : List Char} {c : Char} (h : c ∈ capitalized w)
    (chars : ∀ d ∈ w, d.isAlphanum = true) : c.isAlphanum = true := by
  cases w with
  | nil => cases h
  | cons d rest =>
    rcases List.mem_cons.1 h with rfl | later
    · exact Text.isAlphanum_toUpper (chars d List.mem_cons_self)
    · exact chars c (List.mem_cons_of_mem _ later)

theorem isPascal_pascalChars (s : List Char) : isPascal (pascalChars s) = true := by
  unfold pascalChars
  have words : ∀ w ∈ piecesWithout (fun c => !c.isAlphanum) s,
      w ≠ [] ∧ ∀ c ∈ w, c.isAlphanum = true := fun w hw =>
    ⟨(mem_piecesWithout hw).1, fun c hc => by simpa using (mem_piecesWithout hw).2.1 c hc⟩
  generalize piecesWithout (fun c => !c.isAlphanum) s = pieces at words
  have chars : ∀ c ∈ pieces.flatMap capitalized, c.isAlphanum = true := fun c hc => by
    obtain ⟨w, hw, inside⟩ := List.mem_flatMap.1 hc
    exact mem_capitalized inside (words w hw).2
  cases pieces with
  | nil => decide
  | cons w more =>
    cases w with
    | nil => exact absurd rfl (words [] List.mem_cons_self).1
    | cons c tail =>
      simp only [List.flatMap_cons, capitalized, List.cons_append] at chars ⊢
      obtain ⟨_, others⟩ := List.forall_mem_cons.1 chars
      have letter : c.isAlphanum = true := (words _ List.mem_cons_self).2 c List.mem_cons_self
      cases digit : c.toUpper.isDigit with
      | true =>
        rw [if_pos (by simp [startsWithDigit, digit])]
        exact isPascal_cons.2 ⟨by decide, chars⟩
      | false =>
        rw [if_neg (by simp [startsWithDigit, digit])]
        exact isPascal_cons.2 ⟨Text.isUpper_toUpper_of_isAlphanum letter digit, others⟩

theorem pascalChars_eq_self {s : List Char} : pascalChars s = s ↔ isPascal s = true := by
  constructor
  · intro same
    rw [← same]
    exact isPascal_pascalChars s
  · intro shape
    cases s with
    | nil => cases shape
    | cons c rest =>
      have chars := isPascal_all shape
      have upper : c.isUpper = true := (isPascal_cons.1 shape).1
      have lower : c.isLower = false := Text.isLower_of_isUpper upper
      have whole := piecesWithout_of_forall (p := fun c => !c.isAlphanum) (List.cons_ne_nil c rest)
        (fun d hd => by simp [chars d hd])
      simp [pascalChars, whole, capitalized, Text.toUpper_eq_self lower, startsWithDigit,
        Text.isDigit_of_isUpper upper]

theorem isPascal_pascalCase (s : String) : isPascal (pascalCase s).toList = true := by
  rw [pascalCase, String.toList_ofList]
  exact isPascal_pascalChars s.toList

theorem pascalCase_eq_self {s : String} : pascalCase s = s ↔ isPascal s.toList = true := by
  rw [pascalCase, ← String.toList_inj, String.toList_ofList, pascalChars_eq_self]

end Toolwright.Wrapper
