import Toolwright.Files.Glob
import Toolwright.Proofs.Text.Blank
import Toolwright.Proofs.Text.Part

/-!
Escaped texts as patterns. An escaped text can always be read, whatever stands behind it, and the
pattern that is read means that text and no other. Escaping adds no slash, so the parts of an
escaped path are the escaped parts of the path.
-/

namespace Toolwright.Files.Glob

variable {s rest : List Char} {tokens : List Token} {c : Char}

def escapedToken (c : Char) : Token := if isSpecial c then .oneOf [(c, c)] else .char c

theorem escape_cons (c : Char) (s : List Char) :
    escape (c :: s) = (if isSpecial c then ['[', c, ']'] else [c]) ++ escape s := by
  simp [escape]

theorem escape_append (s rest : List Char) : escape (s ++ rest) = escape s ++ escape rest :=
  List.flatMap_append

theorem tokensFrom_plain (plain : isSpecial c = false) (n : Nat) (s : List Char) :
    tokensFrom n none (c :: s) = (tokensFrom (n + 1) none s).map (.char c :: ·) := by
  simp only [isSpecial, Bool.or_eq_false_iff, beq_eq_false_iff_ne] at plain
  simp [tokensFrom, tokenOf, plain]

theorem tokensFrom_bracketed (special : isSpecial c = true) (n : Nat) (s : List Char) :
    tokensFrom n none ('[' :: c :: ']' :: s) =
      (tokensFrom (n + 3) none s).map (.oneOf [(c, c)] :: ·) := by
  have mark : c ≠ '!' := by
    rintro rfl
    exact absurd special (by decide)
  simp [tokensFrom, mark, Opened.token, boundsOf]

theorem tokensFrom_escape (n : Nat) (s rest : List Char) :
    tokensFrom n none (escape s ++ rest) =
      (tokensFrom (n + (escape s).length) none rest).map (s.map escapedToken ++ ·) := by
  induction s generalizing n with
  | nil => cases read : tokensFrom n none rest <;> simp [escape, read, Except.map]
  | cons c s ih =>
    have joined : ∀ (token : Token) (read : Except Nat (List Token)),
        (read.map (s.map escapedToken ++ ·)).map (token :: ·) =
          read.map ((token :: s.map escapedToken) ++ ·) := fun token read => by cases read <;> rfl
    rw [escape_cons]
    cases special : isSpecial c with
    | true =>
      simp only [if_true, List.cons_append, List.nil_append, tokensFrom_bracketed special,
        ih, joined, List.map_cons, escapedToken, special, List.length_cons]
      congr 2
      omega
    | false =>
      simp only [Bool.false_eq_true, if_false, List.cons_append, List.nil_append,
        tokensFrom_plain special, ih, joined, List.map_cons, escapedToken, special,
        List.length_cons]
      congr 2
      omega

theorem tokens_escape (s : List Char) : Glob.tokens (escape s) = .ok (s.map escapedToken) := by
  have read := tokensFrom_escape 0 s []
  rw [List.append_nil] at read
  rw [Glob.tokens, read]
  simp [tokensFrom, Except.map]

theorem admits_escapedToken {d : Char} : (escapedToken c).admits d = true ↔ d = c := by
  unfold escapedToken
  split
  · simp only [Token.admits, List.any_cons, List.any_nil, Bool.or_false, Bool.and_eq_true,
      decide_eq_true_eq]
    exact ⟨fun ⟨le, le'⟩ => Char.le_antisymm le' le,
      fun same => same ▸ ⟨Char.le_refl _, Char.le_refl _⟩⟩
  · simp only [Token.admits, beq_iff_eq]
    exact eq_comm

theorem takes_escapedToken_cons {d : Char} :
    takes (escapedToken c :: tokens) (d :: s) = ((escapedToken c).admits d && takes tokens s) := by
  unfold escapedToken
  split <;> rfl

theorem takes_escaped : takes (s.map escapedToken) rest = true ↔ rest = s := by
  induction s generalizing rest with
  | nil => simp [takes]
  | cons c s ih =>
    cases rest with
    | nil =>
      have empty : takes (escapedToken c :: s.map escapedToken) [] = false := by
        unfold escapedToken
        split <;> rfl
      simp [empty]
    | cons d rest =>
      rw [List.map_cons, takes_escapedToken_cons, Bool.and_eq_true, admits_escapedToken, ih,
        List.cons.injEq]

theorem literal?_escaped (s : List Char) :
    literal? (s.map escapedToken) = if s.any isSpecial then none else some s := by
  induction s with
  | nil => rfl
  | cons c s ih =>
    cases special : isSpecial c with
    | true => simp [escapedToken, special, literal?]
    | false =>
      simp only [List.map_cons, escapedToken, special, Bool.false_eq_true, if_false, literal?, ih,
        List.any_cons, Bool.false_or]
      split <;> rfl

theorem anyEnd_iff {p : List Char → Bool} :
    anyEnd p s = true ↔ ∃ ending, ending <:+ s ∧ p ending = true := by
  induction s with
  | nil => simp [anyEnd]
  | cons c s ih =>
    simp only [anyEnd, Bool.or_eq_true, ih, List.suffix_cons_iff]
    constructor
    · rintro (whole | ⟨ending, behind, met⟩)
      · exact ⟨_, .inl rfl, whole⟩
      · exact ⟨ending, .inr behind, met⟩
    · rintro ⟨ending, rfl | behind, met⟩
      · exact .inl met
      · exact .inr ⟨ending, behind, met⟩

theorem takes_anyText_escaped :
    takes (.anyText :: s.map escapedToken) rest = true ↔ s <:+ rest := by
  rw [takes, anyEnd_iff]
  simp only [takes_escaped, exists_eq_right]

theorem splitAt_escape (s : List Char) :
    Text.splitAt (· == '/') (escape s) = (Text.splitAt (· == '/') s).map escape := by
  induction s with
  | nil => rfl
  | cons c s ih =>
    rw [escape_cons]
    cases special : isSpecial c with
    | true =>
      have other : c ≠ '/' := by
        rintro rfl
        exact absurd special (by decide)
      cases pieces : Text.splitAt (· == '/') s with
      | nil => exact absurd pieces (Text.splitAt_ne_nil _ _)
      | cons first more => simp [Text.splitAt, ih, pieces, other, escape_cons, special]
    | false =>
      by_cases slash : c = '/'
      · subst slash
        simp only [Bool.false_eq_true, if_false, List.cons_append, List.nil_append, Text.splitAt,
          beq_self_eq_true, if_true, ih, List.map_cons]
        rfl
      · cases pieces : Text.splitAt (· == '/') s with
        | nil => exact absurd pieces (Text.splitAt_ne_nil _ _)
        | cons first more => simp [Text.splitAt, ih, pieces, slash, escape_cons, special]

theorem escape_eq_self (plain : ∀ c ∈ s, isSpecial c = false) : escape s = s := by
  induction s with
  | nil => rfl
  | cons c s ih =>
    rw [List.forall_mem_cons] at plain
    rw [escape_cons, ih plain.2]
    simp [plain.1]

theorem getLast?_escape (s : List Char) : ∀ c ∈ (escape s).getLast?, c ∈ s.getLast? ∨ c = ']' := by
  intro c hc
  rcases List.eq_nil_or_concat s with rfl | ⟨before, last, rfl⟩
  · cases hc
  · rw [List.concat_eq_append, escape_append, escape_cons] at hc
    rw [List.concat_eq_append, List.getLast?_concat]
    cases special : isSpecial last with
    | true =>
      obtain rfl : ']' = c := by simpa [special, escape] using hc
      exact .inr rfl
    | false => exact .inl (by simpa [special, escape] using hc)

theorem dropEnd_escape (s : List Char) :
    Text.dropEnd (· == '/') (escape s) = escape (Text.dropEnd (· == '/') s) := by
  obtain ⟨slashes, only, whole⟩ := Text.exists_dropEnd (· == '/') s
  have plain : ∀ c ∈ slashes, isSpecial c = false := by
    intro c hc
    rw [beq_iff_eq.1 (only c hc)]
    rfl
  conv_lhs => rw [whole, escape_append, escape_eq_self plain]
  refine Text.dropEnd_append only fun c hc => ?_
  rcases getLast?_escape _ c hc with last | rfl
  · exact Text.getLast?_dropEnd s c last
  · rfl

end Toolwright.Files.Glob
