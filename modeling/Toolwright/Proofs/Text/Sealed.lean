import Toolwright.Proofs.Text.Lines
import Toolwright.Proofs.Text.Literal

/-!
No text breaks out of its literal. A backslash that is not escaped escapes what follows it. What
stands for one character of a text leaves nothing escaped behind it, and a quote in it is escaped;
so the quotes around a literal are the only ones that are not. All characters of a literal are
printable, so it is one line and no control character is in it.
-/

namespace Toolwright.Text

/-- Whether the character behind a text is escaped: by a backslash that is not escaped itself. -/
def escapesNext (before : List Char) : Bool :=
  before.foldl (fun escaped c => !escaped && c == '\\') false

theorem escapesNext_append {s : List Char} (h : escapesNext s = false) (t : List Char) :
    escapesNext (s ++ t) = escapesNext t := by
  unfold escapesNext at h ⊢
  rw [List.foldl_append, h]

theorem escapesNext_of_notMem {s : List Char} (h : '\\' ∉ s) : escapesNext s = false := by
  induction s with
  | nil => rfl
  | cons c s ih =>
    have other : c ≠ '\\' := (List.ne_of_not_mem_cons h).symm
    have plain : escapesNext [c] = false := by simp [escapesNext, other]
    rw [← List.singleton_append, escapesNext_append plain, ih (List.not_mem_of_not_mem_cons h)]

theorem isAlphanum_of_mem_hex {n : Nat} {c : Char} (h : c ∈ hex n) : c.isAlphanum = true := by
  obtain ⟨ds, _, digits, text, _⟩ := hexFrom_eq (n + 1) n [] (Nat.lt_succ_self n)
  rw [hex, text, List.append_nil] at h
  obtain ⟨d, hd, rfl⟩ := List.mem_map.1 h
  have all : ∀ d < 16, (hexDigit d).isAlphanum = true := by decide
  exact all d (digits d hd)

theorem escapesNext_escape (c : Char) : escapesNext (escape c) = false := by
  unfold escape
  iterate 6
    split
    · rfl
  split
  · rename_i backslash _ _ _ _ _
    exact escapesNext_of_notMem fun h => backslash (List.mem_singleton.1 h).symm
  · have number : '\\' ∉ '\x7b' :: (hex c.toNat ++ ['\x7d']) := fun h => by
      rcases List.mem_cons.1 h with brace | h
      · cases brace
      · rcases List.mem_append.1 h with digit | brace
        · exact absurd (isAlphanum_of_mem_hex digit) (by decide)
        · cases List.mem_singleton.1 brace
    -- the backslash in front escapes the letter behind it and nothing else
    have announced : escapesNext ['\\', 'u'] = false := rfl
    exact (escapesNext_append announced _).trans (escapesNext_of_notMem number)

theorem quote_notMem_escape {c : Char} (h : c ≠ '"') : '"' ∉ escape c := by
  unfold escape
  rw [if_neg h]
  iterate 5
    split
    · decide
  split
  · simpa using h.symm
  · intro quote
    simp only [List.mem_cons, List.mem_append, List.not_mem_nil, or_false] at quote
    rcases quote with backslash | letter | brace | digit | brace
    · cases backslash
    · cases letter
    · cases brace
    · exact absurd (isAlphanum_of_mem_hex digit) (by decide)
    · cases brace

theorem escapesNext_of_escape {c : Char} {before after : List Char}
    (h : escape c = before ++ '"' :: after) : escapesNext before = true := by
  have quote : c = '"' := by
    by_contra other
    exact quote_notMem_escape other (h ▸ List.mem_append_right _ List.mem_cons_self)
  subst quote
  cases before with
  | nil => cases (List.cons.inj h).1
  | cons first rest =>
    obtain ⟨rfl, last⟩ : '\\' = first ∧ ['"'] = rest ++ '"' :: after := List.cons.inj h
    have alone : rest = [] := by
      have length := congrArg List.length last
      simp only [List.length_append, List.length_cons, List.length_nil] at length
      exact List.length_eq_zero_iff.1 (by omega)
    subst alone
    rfl

theorem escapesNext_flatMap_escape (s : List Char) : escapesNext (s.flatMap escape) = false := by
  induction s with
  | nil => rfl
  | cons c s ih => rw [List.flatMap_cons, escapesNext_append (escapesNext_escape c), ih]

theorem escapesNext_of_flatMap_escape {s before after : List Char}
    (h : s.flatMap escape = before ++ '"' :: after) : escapesNext before = true := by
  induction s generalizing before with
  | nil => exact absurd h (by simp)
  | cons c s ih =>
    rw [List.flatMap_cons, List.append_eq_append_iff] at h
    rcases h with ⟨m, rfl, later⟩ | ⟨m, first, later⟩
    · rw [escapesNext_append (escapesNext_escape c)]
      exact ih later
    · cases m with
      | nil =>
        -- the quote would be the first character of the rest, behind which nothing is escaped
        have empty : escapesNext [] = true := ih later.symm
        cases empty
      | cons d m =>
        obtain ⟨rfl, _⟩ := List.cons.inj later
        exact escapesNext_of_escape first

theorem escapesNext_literal {s before after : List Char}
    (h : literal s = before ++ '"' :: after) :
    escapesNext before = false ↔ before = [] ∨ after = [] := by
  have opening : escapesNext ['"'] = false := rfl
  cases before with
  | nil => exact iff_of_true rfl (.inl rfl)
  | cons first inside =>
    obtain ⟨rfl, body⟩ : '"' = first ∧ s.flatMap escape ++ ['"'] = inside ++ '"' :: after :=
      List.cons.inj h
    rw [← List.singleton_append, escapesNext_append opening]
    rcases List.eq_nil_or_concat after with rfl | ⟨behind, last, rfl⟩
    · have whole : s.flatMap escape = inside := List.append_cancel_right body
      exact iff_of_true (whole ▸ escapesNext_flatMap_escape s) (.inr rfl)
    · have whole : s.flatMap escape = inside ++ '"' :: behind := by
        rw [List.concat_eq_append, ← List.cons_append, ← List.append_assoc] at body
        exact (List.append_inj' body rfl).1
      rw [escapesNext_of_flatMap_escape whole]
      simp

def IsControl (c : Char) : Prop := c.toNat < 0x20 ∨ 0x7F ≤ c.toNat ∧ c.toNat < 0xA0

theorem isPrintable_eq_false_of_isControl {c : Char} (h : IsControl c) : isPrintable c = false := by
  unfold IsControl at h
  unfold isPrintable
  split
  · simp only [Bool.and_eq_false_iff, decide_eq_false_iff_not]
    omega
  · -- beyond ASCII they are in the first of the ranges of hidden characters
    have hidden : inRanges hiddenRanges c = true := by
      have range : (0x80, 0xA0) ∈ hiddenRanges := List.mem_cons_self
      refine List.any_eq_true.2 ⟨_, range, ?_⟩
      simp only [Bool.and_eq_true, decide_eq_true_eq]
      omega
    rw [hidden]
    rfl

theorem isPrintable_of_mem_literal {s : List Char} {c : Char} (h : c ∈ literal s) :
    isPrintable c = true := by
  have quote : isPrintable '"' = true := by decide
  have written : escapeChars.all isPrintable = true := by decide
  rcases List.mem_cons.1 h with rfl | h
  · exact quote
  · rcases List.mem_append.1 h with inside | last
    · obtain ⟨d, _, hd⟩ := List.mem_flatMap.1 inside
      rcases mem_escape hd with ⟨rfl, printable⟩ | among
      · exact printable
      · exact List.all_eq_true.1 written c among
    · rw [List.mem_singleton.1 last]
      exact quote

theorem literalOf_inj {s t : String} (h : literalOf s = literalOf t) : s = t := by
  have text : literal s.toList = literal t.toList := by
    simpa only [literalOf, String.toList_ofList] using congrArg String.toList h
  have read := readLiteral_literal t.toList []
  rw [← text, readLiteral_literal] at read
  exact String.toList_inj.1 (congrArg Prod.fst (Option.some.inj read))

/-- A literal holds its text in: it begins and ends with a quote, is one line, has no other quote
that is not escaped and no control character, and is read as its text whatever stands behind it. -/
theorem literalOf_sealed (s : String) :
    (∃ body, (literalOf s).toList = '"' :: (body ++ ['"'])) ∧
    lines (literalOf s).toList = [(literalOf s).toList] ∧
    (∀ before after, (literalOf s).toList = before ++ '"' :: after →
      (escapesNext before = false ↔ before = [] ∨ after = [])) ∧
    (∀ c ∈ (literalOf s).toList, isPrintable c = true ∧ ¬ IsControl c) ∧
    (∀ rest, readLiteral ((literalOf s).toList ++ rest) = some (s.toList, rest)) ∧
    ∀ t, literalOf s = literalOf t → s = t := by
  have text : (literalOf s).toList = literal s.toList := String.toList_ofList
  have one := lines_of_notMem (feed_notMem_literalOf s) (by rw [text]; exact List.cons_ne_nil _ _)
  rw [text] at one ⊢
  refine ⟨⟨s.toList.flatMap escape, rfl⟩, one, fun before after => escapesNext_literal,
    fun c hc => ?_, readLiteral_literal s.toList, fun t => literalOf_inj⟩
  have printable := isPrintable_of_mem_literal hc
  refine ⟨printable, fun control => ?_⟩
  rw [isPrintable_eq_false_of_isControl control] at printable
  cases printable

def lookalike : String := "\\u\x7b41\x7d\""

theorem literalOf_sealed_lookalike :
    (literalOf lookalike).toList =
        ['"', '\\', '\\', 'u', '\x7b', '4', '1', '\x7d', '\\', '"', '"'] ∧
      escapesNext ['"', '\\', '\\', 'u', '\x7b', '4', '1', '\x7d', '\\'] = true ∧
      ¬ IsControl '\\' ∧
      readLiteral (literalOf lookalike).toList = some (lookalike.toList, []) := by
  have text : (literalOf lookalike).toList =
      ['"', '\\', '\\', 'u', '\x7b', '4', '1', '\x7d', '\\', '"', '"'] := by decide
  obtain ⟨_, _, quotes, chars, read, _⟩ := literalOf_sealed lookalike
  have inner := quotes ['"', '\\', '\\', 'u', '\x7b', '4', '1', '\x7d', '\\'] ['"'] text
  have whole := read []
  rw [List.append_nil] at whole
  refine ⟨text, ?_, (chars '\\' (by rw [text]; decide)).2, whole⟩
  rw [← Bool.not_eq_false, inner]
  decide

end Toolwright.Text
