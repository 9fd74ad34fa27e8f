import Mathlib.Data.List.Basic
import Toolwright.Proofs.Text.Blank
import Toolwright.Proofs.Text.Letter
import Toolwright.Selector.Extract

/-!
The grammar of location paths, as relations between paths and the texts they are written as. What
may stand between the quotes of an operand is a parameter of the grammar: in a plain path an operand
does not contain its own quote.
-/

namespace Toolwright.XPath

open Text (Blanks)

def quoteAfter : Option Char → List Char → Option Char
  | quote, [] => quote
  | some q, c :: rest => quoteAfter (if c = q then none else some q) rest
  | none, c :: rest => quoteAfter (if isQuote c then some c else none) rest

def outside : Option Char → List Char → List Char
  | _, [] => []
  | some q, c :: rest => outside (if c = q then none else some q) rest
  | none, c :: rest => if isQuote c then outside (some c) rest else c :: outside none rest

/-- A text whose quotes are closed and whose brackets are all in quotes. -/
structure Enclosed (s : List Char) : Prop where
  closed : quoteAfter none s = none
  opening : '[' ∉ outside none s
  closing : ']' ∉ outside none s

def Plain (quote : Char) (operand : List Char) : Prop := quote ∉ operand

/-- An operand that may leave its quotes as long as it comes back and has no bracket on the way. -/
def Closed (quote : Char) (operand : List Char) : Prop := Enclosed (quote :: (operand ++ [quote]))

section

variable (Operand : Char → List Char → Prop)

inductive Quoted (v : List Char) : List Char → Prop
  | intro {q : Char} (quote : isQuote q = true) (operand : Operand q v) :
      Quoted v (q :: (v ++ [q]))

inductive Call (function : String) (a v : List Char) : List Char → Prop
  | intro {b₁ b₂ b₃ b₄ b₅ l : List Char} (name : isName a = true) (quoted : Quoted Operand v l)
      (h₁ : Blanks b₁) (h₂ : Blanks b₂) (h₃ : Blanks b₃) (h₄ : Blanks b₄) (h₅ : Blanks b₅) :
      Call function a v (function.toList ++ (b₁ ++ '(' ::
        ((b₂ ++ ('@' :: a ++ b₃)) ++ ',' :: (b₄ ++ (l ++ b₅)) ++ [')'])))

inductive Test.Spelled : Test → List Char → Prop
  | has {a : List Char} (name : isName a = true) : Test.Spelled (.has a) ('@' :: a)
  | equals {a v b₁ b₂ b₃ l : List Char} (name : isName a = true) (quoted : Quoted Operand v l)
      (h₁ : Blanks b₁) (h₂ : Blanks b₂) (h₃ : Blanks b₃) :
      Test.Spelled (.equals a v) ('@' :: ((b₁ ++ (a ++ b₂)) ++ '=' :: (b₃ ++ l)))
  | contains {a v s : List Char} (call : Call Operand "contains" a v s) :
      Test.Spelled (.contains a v) s
  | startsWith {a v s : List Char} (call : Call Operand "starts-with" a v s) :
      Test.Spelled (.startsWith a v) s

inductive Predicate.Spelled : Predicate → List Char → Prop
  | test {t : Test} {s : List Char} (spelled : t.Spelled Operand s) : Predicate.Spelled (.test t) s
  | position {digits : List Char} (some_ : digits ≠ []) (all : digits.all Char.isDigit = true)
      (one : 1 ≤ Nat.ofDigitChars 10 digits 0)
      (fits : Nat.ofDigitChars 10 digits 0 ≤ 0xFFFFFFFFFFFFFFFF) :
      Predicate.Spelled (.position (Nat.ofDigitChars 10 digits 0)) digits

inductive Bracketed : List Predicate → List Char → Prop
  | nil : Bracketed [] []
  | cons {p : Predicate} {ps : List Predicate} {b₁ b₂ s rest : List Char}
      (spelled : p.Spelled Operand s) (h₁ : Blanks b₁) (h₂ : Blanks b₂)
      (more : Bracketed ps rest) :
      Bracketed (p :: ps) ('[' :: ((b₁ ++ (s ++ b₂)) ++ ']' :: rest))

inductive NameTest.Spelled : NameTest → List Char → Prop
  | any : NameTest.Spelled .any ['*']
  | name {n : List Char} (name : isName n = true) : NameTest.Spelled (.name n) n

def Step.written (step : Step) : List Predicate :=
  step.predicates ++ (step.rank.map .position).toList

/-- Behind another predicate a position is a rank, and nothing follows a rank. -/
structure Arranged (predicates : List Predicate) (rank : Option Nat) : Prop where
  tests : ∀ p ∈ predicates.tail, ∃ t, p = .test t
  behind : rank ≠ none → predicates ≠ []

def slashes (descendant : Bool) : List Char := if descendant then ['/', '/'] else ['/']

inductive Step.Spelled (step : Step) : List Char → Prop
  | intro {n ps : List Char} (name : step.name.Spelled n)
      (arranged : Arranged step.predicates step.rank)
      (bracketed : Bracketed Operand step.written ps) :
      Step.Spelled step (slashes step.descendant ++ (n ++ ps))

inductive Path.Spelled : Path → List Char → Prop
  | last {step : Step} {s : List Char} (spelled : step.Spelled Operand s) : Path.Spelled [step] s
  | cons {step : Step} {path : Path} {s rest : List Char} (spelled : step.Spelled Operand s)
      (unranked : step.rank = none) (more : Path.Spelled path rest) :
      Path.Spelled (step :: path) (s ++ rest)

/-- A path with or without a last step that asks for its text. -/
def Path.Written (path : Path) (s : List Char) : Prop :=
  ∃ t, Path.Spelled Operand path t ∧ (s = t ∨ s = t ++ "/text()".toList)

end

/-- The characters that have a meaning in paths besides names and numbers. -/
def marks : List Char := "'\"[]/@=,()*".toList

def Unmarked (s : List Char) : Prop := ∀ c ∈ s, c ∉ marks

theorem mem_marks_of_isQuote {c : Char} (h : isQuote c = true) : c ∈ marks := by
  rcases (by simpa [isQuote] using h : c = '\'' ∨ c = '"') with rfl | rfl <;> decide

theorem not_isBlank_of_mem_marks : ∀ c ∈ marks, Text.isBlank c = false := by
  have all : (marks.all fun c => !Text.isBlank c) = true := by decide +kernel
  simpa using all

theorem unmarked_blanks {s : List Char} (h : Blanks s) : Unmarked s := by
  intro c hc mark
  exact absurd (h c hc) (by simp [not_isBlank_of_mem_marks c mark])

theorem isNameRest_of_isName {s : List Char} (h : isName s = true) :
    ∀ c ∈ s, isNameRest c = true := by
  cases s with
  | nil => cases h
  | cons first rest =>
    obtain ⟨start, more⟩ : isNameStart first = true ∧ rest.all isNameRest = true := by
      simpa [isName] using h
    intro c hc
    rcases List.mem_cons.1 hc with rfl | hc
    · simp only [isNameStart, Bool.or_eq_true] at start
      simp only [isNameRest, Char.isAlphanum, Bool.or_eq_true]
      rcases start with start | start
      · exact .inl (.inl (.inl start))
      · exact .inl (.inr start)
    · exact List.all_eq_true.1 more c hc

theorem unmarked_name {s : List Char} (h : isName s = true) : Unmarked s := by
  intro c hc mark
  have none : (marks.all fun c => !isNameRest c) = true := by decide +kernel
  have rest := List.all_eq_true.1 none c mark
  simp [isNameRest_of_isName h c hc] at rest

theorem unmarked_digits {s : List Char} (h : s.all Char.isDigit = true) : Unmarked s := by
  intro c hc mark
  have none : (marks.all fun c => !c.isDigit) = true := by decide +kernel
  have other := List.all_eq_true.1 none c mark
  simp [List.all_eq_true.1 h c hc] at other

theorem Unmarked.append {s t : List Char} (hs : Unmarked s) (ht : Unmarked t) :
    Unmarked (s ++ t) := fun c hc => (List.mem_append.1 hc).elim (hs c) (ht c)

theorem not_isBlank_of_isNameRest {c : Char} (h : isNameRest c = true) :
    Text.isBlank c = false := by
  have code : (0x41 ≤ c.toNat ∧ c.toNat ≤ 0x5A) ∨ (0x61 ≤ c.toNat ∧ c.toNat ≤ 0x7A) ∨
      (0x30 ≤ c.toNat ∧ c.toNat ≤ 0x39) ∨ c.toNat = 0x5F ∨ c.toNat = 0x2D := by
    simp only [isNameRest, Bool.or_eq_true, beq_iff_eq, Text.isAlphanum_iff, Text.isUpper_iff,
      Text.isLower_iff, Char.isDigit_iff_toNat] at h
    rcases h with ((h | h | h) | rfl) | rfl
    · exact .inl h
    · exact .inr (.inl h)
    · exact .inr (.inr (.inl h))
    · exact .inr (.inr (.inr (.inl rfl)))
    · exact .inr (.inr (.inr (.inr rfl)))
  simp only [Text.isBlank, Bool.or_eq_false_iff, Bool.and_eq_false_iff, decide_eq_false_iff_not,
    beq_eq_false_iff_ne]
  omega

theorem ne_nil_of_isName {s : List Char} (h : isName s = true) : s ≠ [] := by
  rintro rfl
  cases h

theorem foldl_eq_ofDigitChars (digits : List Char) :
    digits.foldl (fun n c => n * 10 + (c.toNat - 48)) 0 = Nat.ofDigitChars 10 digits 0 := by
  have digit : (fun (n : Nat) (c : Char) => n * 10 + (c.toNat - 48)) =
      fun n c => 10 * n + (c.toNat - '0'.toNat) := by
    funext n c
    rw [Nat.mul_comm]
    rfl
  rw [digit]
  rfl

variable {q : Option Char} {s t : List Char}

theorem quoteAfter_append : quoteAfter q (s ++ t) = quoteAfter (quoteAfter q s) t := by
  induction s generalizing q with
  | nil => rfl
  | cons c rest ih => cases q <;> exact ih

theorem outside_append : outside q (s ++ t) = outside q s ++ outside (quoteAfter q s) t := by
  induction s generalizing q with
  | nil => rfl
  | cons c rest ih =>
    cases q with
    | some q => exact ih
    | none =>
      by_cases quote : isQuote c = true
      · simpa [outside, quoteAfter, quote] using ih
      · simpa [outside, quoteAfter, quote] using ih

theorem quoteAfter_of_forall (h : ∀ c ∈ s, isQuote c = false) : quoteAfter none s = none := by
  induction s with
  | nil => rfl
  | cons c rest ih =>
    obtain ⟨first, more⟩ := List.forall_mem_cons.1 h
    simpa [quoteAfter, first] using ih more

theorem outside_of_forall (h : ∀ c ∈ s, isQuote c = false) : outside none s = s := by
  induction s with
  | nil => rfl
  | cons c rest ih =>
    obtain ⟨first, more⟩ := List.forall_mem_cons.1 h
    simpa [outside, first] using ih more

theorem quoteAfter_of_open {c : Char} (quote : isQuote c = true) (h : ∀ c ∈ s, isQuote c = false) :
    quoteAfter (some c) s = some c := by
  induction s with
  | nil => rfl
  | cons d rest ih =>
    obtain ⟨first, more⟩ := List.forall_mem_cons.1 h
    have other : d ≠ c := by
      rintro rfl
      cases quote.symm.trans first
    simpa [quoteAfter, other] using ih more

theorem isQuote_of_quoteAfter {c : Char} (hq : ∀ d ∈ q, isQuote d = true)
    (h : quoteAfter q s = some c) : isQuote c = true := by
  induction s generalizing q with
  | nil => exact hq c h
  | cons d rest ih =>
    cases q with
    | some q =>
      refine ih (fun e he => ?_) h
      split at he
      · cases he
      · exact hq e he
    | none =>
      refine ih (fun e he => ?_) h
      split at he
      · next quote =>
        cases he
        exact quote
      · cases he

theorem quoteAfter_plain {c : Char} (h : c ∉ s) : quoteAfter (some c) s = some c := by
  induction s with
  | nil => rfl
  | cons d rest ih =>
    obtain ⟨first, more⟩ := List.ne_and_not_mem_of_not_mem_cons h
    simpa [quoteAfter, first.symm] using ih more

theorem outside_plain {c : Char} (h : c ∉ s) : outside (some c) s = [] := by
  induction s with
  | nil => rfl
  | cons d rest ih =>
    obtain ⟨first, more⟩ := List.ne_and_not_mem_of_not_mem_cons h
    simpa [outside, first.symm] using ih more

theorem Plain.closed {c : Char} (quote : isQuote c = true) (h : Plain c s) : Closed c s := by
  have opened : quoteAfter none (c :: (s ++ [c])) = none := by
    simp [quoteAfter, quote, quoteAfter_append, quoteAfter_plain h]
  have nothing : outside none (c :: (s ++ [c])) = [] := by
    simp [outside, quote, outside_append, quoteAfter_plain h, outside_plain h]
  exact ⟨opened, by simp [nothing], by simp [nothing]⟩

def Undelimited (s : List Char) : Prop := ∀ c ∈ s, isQuote c = false ∧ c ≠ '[' ∧ c ≠ ']'

theorem Unmarked.undelimited (h : Unmarked s) : Undelimited s := by
  intro c hc
  have unmarked := h c hc
  refine ⟨Bool.eq_false_iff.2 fun quote => unmarked (mem_marks_of_isQuote quote), ?_, ?_⟩
  · rintro rfl
    exact unmarked (by decide)
  · rintro rfl
    exact unmarked (by decide)

@[simp] theorem undelimited_nil : Undelimited [] := fun _ h => absurd h List.not_mem_nil

@[simp] theorem undelimited_cons {c : Char} :
    Undelimited (c :: s) ↔ (isQuote c = false ∧ c ≠ '[' ∧ c ≠ ']') ∧ Undelimited s :=
  List.forall_mem_cons

@[simp] theorem undelimited_append :
    Undelimited (s ++ t) ↔ Undelimited s ∧ Undelimited t := List.forall_mem_append

theorem Undelimited.enclosed (h : Undelimited s) : Enclosed s := by
  have plain : ∀ c ∈ s, isQuote c = false := fun c hc => (h c hc).1
  refine ⟨quoteAfter_of_forall plain, ?_, ?_⟩ <;> rw [outside_of_forall plain] <;> intro bracket
  · exact (h _ bracket).2.1 rfl
  · exact (h _ bracket).2.2 rfl

theorem Enclosed.append (hs : Enclosed s) (ht : Enclosed t) : Enclosed (s ++ t) := by
  refine ⟨?_, ?_, ?_⟩
  · rw [quoteAfter_append, hs.closed, ht.closed]
  · rw [outside_append, hs.closed, List.mem_append]
    exact fun bracket => bracket.elim hs.opening ht.opening
  · rw [outside_append, hs.closed, List.mem_append]
    exact fun bracket => bracket.elim hs.closing ht.closing

theorem enclosed_around {u : List Char} (hs : Undelimited s) (hu : Undelimited u) :
    Enclosed (s ++ (t ++ u)) ↔ Enclosed t := by
  refine ⟨fun h => ?_, fun h => hs.enclosed.append (h.append hu.enclosed)⟩
  have before := hs.enclosed.closed
  obtain ⟨closed, opening, closing⟩ := h
  rw [quoteAfter_append, before, quoteAfter_append] at closed
  rw [outside_append, before, outside_append] at opening closing
  refine ⟨?_, fun bracket => opening ?_, fun bracket => closing ?_⟩
  · cases still : quoteAfter none t with
    | none => rfl
    | some c =>
      have quote := isQuote_of_quoteAfter (q := none) (by simp) still
      rw [still, quoteAfter_of_open quote fun c hc => (hu c hc).1] at closed
      cases closed
  · exact List.mem_append_right _ (List.mem_append_left _ bracket)
  · exact List.mem_append_right _ (List.mem_append_left _ bracket)

end Toolwright.XPath
