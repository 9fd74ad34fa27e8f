import Toolwright.Proofs.Selector.Grammar

/-!
Predicates are read as the grammar spells them. The reader looks for the end of a predicate and of
a step by counting brackets outside quotes, so that what it finds in brackets is enclosed.
-/

namespace Toolwright.XPath

open Text (Blanks Bare)

def Any (_ : Char) (_ : List Char) : Prop := True

theorem splitOnce?_eq_some {sep : Char} {s a b : List Char} :
    splitOnce? sep s = some (a, b) ↔ sep ∉ a ∧ s = a ++ sep :: b := by
  constructor
  · intro h
    have whole : s.takeWhile (· != sep) ++ s.dropWhile (· != sep) = s :=
      List.takeWhile_append_dropWhile
    have apart : ∀ c ∈ s.takeWhile (· != sep), (c != sep) = true :=
      List.all_eq_true.1 List.all_takeWhile
    have first := Text.head?_dropWhile (p := (· != sep)) s
    unfold splitOnce? at h
    cases behind : s.dropWhile (· != sep) with
    | nil => simp [behind] at h
    | cons c rest =>
      rw [behind] at h whole first
      obtain ⟨rfl, rfl⟩ : s.takeWhile (· != sep) = a ∧ rest = b := by simpa using h
      obtain rfl : c = sep := by simpa using first c rfl
      exact ⟨fun mem => by simpa using apart _ mem, whole.symm⟩
  · rintro ⟨apart, rfl⟩
    have plain : ∀ c ∈ a, (c != sep) = true := by
      intro c hc
      have other : c ≠ sep := fun same => apart (same ▸ hc)
      simpa using other
    have stop : ((sep :: b).dropWhile (· != sep)) = sep :: b := by simp
    have none : ((sep :: b).takeWhile (· != sep)) = [] := by simp
    rw [splitOnce?, List.dropWhile_append_of_pos plain, stop, List.takeWhile_append_of_pos plain,
      none, List.append_nil]

theorem splitOnce?_eq_none {sep : Char} {s : List Char} :
    splitOnce? sep s = none ↔ sep ∉ s := by
  constructor
  · intro h mem
    obtain ⟨a, b, rfl, apart⟩ := List.eq_append_cons_of_mem mem
    rw [splitOnce?_eq_some.2 ⟨apart, rfl⟩] at h
    cases h
  · intro h
    cases there : splitOnce? sep s with
    | none => rfl
    | some parts =>
      obtain ⟨_, rfl⟩ := splitOnce?_eq_some.1 there
      exact absurd (by simp) h

theorem unquote?_eq_some {s v : List Char} : unquote? s = some v ↔ Quoted Any v s := by
  constructor
  · intro h
    cases s with
    | nil => cases h
    | cons q rest =>
      by_cases quote : isQuote q = true
      · simp only [unquote?, quote, if_true, List.isSuffixOf?_eq_some_iff_append_eq] at h
        subst h
        exact .intro quote trivial
      · simp [unquote?, quote] at h
  · rintro ⟨quote, -⟩
    simp only [unquote?, quote, if_true, List.isSuffixOf?_eq_some_iff_append_eq]

theorem Quoted.mono {P Q : Char → List Char → Prop} {v s : List Char} (h : Quoted P v s)
    (sub : ∀ q v, isQuote q = true → P q v → Q q v) : Quoted Q v s := by
  obtain ⟨quote, operand⟩ := h
  exact .intro quote (sub _ _ quote operand)

theorem Quoted.bare {P : Char → List Char → Prop} {v s : List Char} (h : Quoted P v s) :
    Bare s := by
  obtain ⟨quote, -⟩ := h
  have plain := not_isBlank_of_mem_marks _ (mem_marks_of_isQuote quote)
  constructor
  · intro c hc
    cases hc
    exact plain
  · intro c hc
    rw [← List.cons_append, List.getLast?_concat] at hc
    cases hc
    exact plain

theorem bare_name {a : List Char} (h : isName a = true) : Bare a :=
  .of_forall fun c hc => not_isBlank_of_isNameRest (isNameRest_of_isName h c hc)

theorem bare_attribute {a : List Char} (h : isName a = true) : Bare ('@' :: a) := by
  refine .of_forall fun c hc => ?_
  rcases List.mem_cons.1 hc with rfl | hc
  · decide
  · exact not_isBlank_of_isNameRest (isNameRest_of_isName h c hc)

theorem functionCall?_eq_some {function : String} {p a v : List Char} :
    functionCall? function p = some (a, v) ↔ Call Any function a v p := by
  constructor
  · intro h
    simp only [functionCall?, Option.bind_eq_bind, Option.bind_eq_some_iff,
      List.isPrefixOf?_eq_some_iff_append_eq, List.isSuffixOf?_eq_some_iff_append_eq] at h
    obtain ⟨rest, rfl, inner, open_, arguments, rfl, ⟨attr, value⟩, cut, name, at_, h⟩ := h
    split at h
    · next isName =>
      obtain ⟨operand, unquoted, result⟩ := Option.bind_eq_some_iff.1 h
      obtain ⟨rfl, rfl⟩ : name = a ∧ operand = v := by simpa using result
      obtain ⟨-, rfl⟩ := splitOnce?_eq_some.1 cut
      obtain ⟨b₁, h₁, whole⟩ := Text.exists_trimStart rest
      obtain ⟨b₂, b₃, h₂, h₃, front⟩ := Text.exists_trim attr
      obtain ⟨b₄, b₅, h₄, h₅, back⟩ := Text.exists_trim value
      rw [whole, ← open_, front, ← at_, back]
      exact .intro isName (unquote?_eq_some.1 unquoted) h₁ h₂ h₃ h₄ h₅
    · cases h
  · rintro ⟨name, quoted, h₁, h₂, h₃, h₄, h₅⟩
    rename_i b₁ b₂ b₃ b₄ b₅ l
    have comma : ',' ∉ b₂ ++ ('@' :: a ++ b₃) := by
      have unmarked : ∀ s, Unmarked s → ',' ∉ s := fun s h mem => h _ mem (by decide)
      simp [unmarked _ (unmarked_blanks h₂), unmarked _ (unmarked_blanks h₃),
        unmarked _ (unmarked_name name)]
    have start : ∀ c ∈ ('(' :: (b₂ ++ ('@' :: a ++ b₃) ++ ',' :: (b₄ ++ (l ++ b₅)) ++
        [')'])).head?, Text.isBlank c = false := by
      intro c hc
      cases hc
      decide
    simp only [functionCall?, Option.bind_eq_bind, Option.bind_eq_some_iff,
      List.isPrefixOf?_eq_some_iff_append_eq, List.isSuffixOf?_eq_some_iff_append_eq]
    refine ⟨_, rfl, _, (Text.trimStart_append h₁ start).symm, _, rfl, _,
      splitOnce?_eq_some.2 ⟨comma, rfl⟩, a, ?_, ?_⟩
    · exact (Text.trim_pad (bare_attribute name) h₂ h₃).symm
    · rw [if_pos name, Text.trim_pad quoted.bare h₄ h₅, unquote?_eq_some.2 quoted]
      rfl

theorem parseTest_of_spelled {t : Test} {p : List Char} (h : t.Spelled Any p) :
    parseTest p = .ok t := by
  have other : ∀ {function a v q}, Call Any function a v q → ∀ c, function.toList.head? = some c →
      q.head? = some c := by
    rintro function a v _ ⟨_, _⟩ c first
    rw [List.head?_append, first, Option.some_or]
  have no : ∀ {function c}, function.toList.head? = some c → p.head? ≠ some c →
      functionCall? function p = none := by
    intro function c first apart
    cases there : functionCall? function p with
    | none => rfl
    | some parts => exact absurd (other (functionCall?_eq_some.1 there) c first) apart
  cases h with
  | has name =>
    have equal : splitOnce? '=' _ = none :=
      splitOnce?_eq_none.2 fun mem => unmarked_name name _ mem (by decide)
    rw [parseTest, no (c := 'c') rfl (by simp), no (c := 's') rfl (by simp)]
    simp only [attributeTest, equal, name, if_true]
  | equals name quoted h₁ h₂ h₃ =>
    rename_i a v b₁ b₂ b₃ l
    have cut : splitOnce? '=' (b₁ ++ (a ++ b₂) ++ '=' :: (b₃ ++ l)) =
        some (b₁ ++ (a ++ b₂), b₃ ++ l) := by
      refine splitOnce?_eq_some.2 ⟨fun mem => ?_, rfl⟩
      have unmarked := (unmarked_blanks h₁).append
        ((unmarked_name name).append (unmarked_blanks h₂))
      exact unmarked _ mem (by decide)
    have operand : Text.trim (b₃ ++ l) = l := by
      simpa using Text.trim_pad quoted.bare h₃ .nil
    rw [parseTest, no (c := 'c') rfl (by simp), no (c := 's') rfl (by simp)]
    simp only [attributeTest, cut, Text.trim_pad (bare_name name) h₁ h₂, name, if_true, operand,
      unquote?_eq_some.2 quoted]
  | contains call => simp only [parseTest, functionCall?_eq_some.2 call]
  | startsWith call =>
    have none : functionCall? "contains" p = none := by
      refine no (c := 'c') rfl ?_
      rw [other call 's' rfl]
      decide
    simp only [parseTest, none, functionCall?_eq_some.2 call]

theorem spelled_of_parseTest {t : Test} {p : List Char} (bare : Bare p)
    (h : parseTest p = .ok t) : t.Spelled Any p := by
  unfold parseTest at h
  split at h
  · next there =>
    cases h
    exact .contains (functionCall?_eq_some.1 there)
  · split at h
    · next there =>
      cases h
      exact .startsWith (functionCall?_eq_some.1 there)
    · split at h
      · next attr =>
        unfold attributeTest at h
        split at h
        · next name value cut =>
          obtain ⟨-, rfl⟩ := splitOnce?_eq_some.1 cut
          split at h
          · next isName =>
            split at h
            · next operand unquoted =>
              cases h
              obtain ⟨b₁, b₂, h₁, h₂, front⟩ := Text.exists_trim name
              obtain ⟨b₃, h₃, back⟩ : ∃ b, Blanks b ∧ value = b ++ Text.trim value := by
                refine Text.exists_trim_of_last fun c hc => bare.last c ?_
                have there : value ≠ [] := by
                  rintro rfl
                  cases hc
                simp [List.getLast?_append, List.getLast?_cons, Option.mem_def.1 hc]
              have spelled := Test.Spelled.equals isName (unquote?_eq_some.1 unquoted) h₁ h₂ h₃
              rw [← front, ← back] at spelled
              exact spelled
            · cases h
          · cases h
        · next none =>
          split at h
          · next isName =>
            cases h
            exact .has isName
          · cases h
      · cases h

theorem Quoted.closed {v s : List Char} (h : Quoted Any v s) (enclosed : Enclosed s) :
    Quoted Closed v s := by
  obtain ⟨quote, -⟩ := h
  exact .intro quote enclosed

theorem Quoted.enclosed {v s : List Char} (h : Quoted Closed v s) : Enclosed s := by
  obtain ⟨-, operand⟩ := h
  exact operand

theorem Test.Spelled.parts {P : Char → List Char → Prop} {t : Test} {s : List Char}
    (h : t.Spelled P s) :
    (Undelimited s ∧ ∀ Q, Test.Spelled Q t s) ∨
      ∃ before l after v, s = before ++ (l ++ after) ∧ Undelimited before ∧ Undelimited after ∧
        Quoted P v l ∧ ∀ Q, Quoted Q v l → Test.Spelled Q t s := by
  have call : ∀ {function a v s}, Undelimited function.toList → Call P function a v s →
      ∃ before l after, s = before ++ (l ++ after) ∧ Undelimited before ∧ Undelimited after ∧
        Quoted P v l ∧ ∀ Q, Quoted Q v l → Call Q function a v s := by
    rintro function a v _ plain ⟨name, quoted, h₁, h₂, h₃, h₄, h₅⟩
    rename_i b₁ b₂ b₃ b₄ b₅ l
    refine ⟨function.toList ++ (b₁ ++ '(' :: (b₂ ++ '@' :: (a ++ (b₃ ++ ',' :: b₄)))), l,
      b₅ ++ [')'], by simp, ?_, ?_, quoted, fun Q quoted => .intro name quoted h₁ h₂ h₃ h₄ h₅⟩
    · simp [plain, (unmarked_name name).undelimited, (unmarked_blanks h₁).undelimited,
        (unmarked_blanks h₂).undelimited, (unmarked_blanks h₃).undelimited,
        (unmarked_blanks h₄).undelimited, isQuote]
    · simp [(unmarked_blanks h₅).undelimited, isQuote]
  cases h with
  | has name =>
    refine .inl ⟨?_, fun Q => .has name⟩
    simp [(unmarked_name name).undelimited, isQuote]
  | equals name quoted h₁ h₂ h₃ =>
    rename_i a v b₁ b₂ b₃ l
    refine .inr ⟨'@' :: (b₁ ++ (a ++ (b₂ ++ '=' :: b₃))), l, [], v, by simp, ?_, by simp, quoted,
      fun Q quoted => .equals name quoted h₁ h₂ h₃⟩
    simp [(unmarked_name name).undelimited, (unmarked_blanks h₁).undelimited,
      (unmarked_blanks h₂).undelimited, (unmarked_blanks h₃).undelimited, isQuote]
  | contains inner =>
    obtain ⟨before, l, after, whole, hb, ha, quoted, again⟩ := call (by simp [isQuote]) inner
    exact .inr ⟨before, l, after, _, whole, hb, ha, quoted, fun Q quoted =>
      .contains (again Q quoted)⟩
  | startsWith inner =>
    obtain ⟨before, l, after, whole, hb, ha, quoted, again⟩ := call (by simp [isQuote]) inner
    exact .inr ⟨before, l, after, _, whole, hb, ha, quoted, fun Q quoted =>
      .startsWith (again Q quoted)⟩

theorem Test.Spelled.mono {P Q : Char → List Char → Prop} {t : Test} {s : List Char}
    (h : t.Spelled P s) (sub : ∀ q v, isQuote q = true → P q v → Q q v) : t.Spelled Q s := by
  rcases h.parts with ⟨-, all⟩ | ⟨_, _, _, _, -, -, -, quoted, again⟩
  · exact all Q
  · exact again Q (quoted.mono sub)

theorem Test.Spelled.enclosed {t : Test} {s : List Char} (h : t.Spelled Closed s) :
    Enclosed s := by
  rcases h.parts with ⟨plain, -⟩ | ⟨_, _, _, _, rfl, before, after, quoted, -⟩
  · exact plain.enclosed
  · exact (enclosed_around before after).2 quoted.enclosed

theorem Test.Spelled.closed {t : Test} {s : List Char} (h : t.Spelled Any s)
    (enclosed : Enclosed s) : t.Spelled Closed s := by
  rcases h.parts with ⟨-, all⟩ | ⟨_, _, _, _, rfl, before, after, quoted, again⟩
  · exact all Closed
  · exact again Closed (quoted.closed ((enclosed_around before after).1 enclosed))

theorem parsePosition_eq_some {P : Char → List Char → Prop} {s : List Char} {n : Nat} :
    parsePosition s = .ok (some n) ↔ (Predicate.position n).Spelled P s := by
  simp only [parsePosition, foldl_eq_ofDigitChars]
  constructor
  · intro h
    split at h
    · cases h
    · next digits =>
      split at h
      · next range =>
        cases h
        simp only [not_or, Bool.not_eq_true, Bool.not_eq_false'] at digits
        exact .position digits.1 digits.2 range.1 range.2
      · cases h
  · intro h
    cases h with
    | position some_ all one fits =>
      have digits : ¬ (s = [] ∨ (!s.all Char.isDigit) = true) := by
        rw [all]
        simp [some_]
      rw [if_neg digits, if_pos ⟨one, fits⟩]

theorem parsePosition_eq_none_of_test {P : Char → List Char → Prop} {t : Test} {s : List Char}
    (h : t.Spelled P s) : parsePosition s = .ok none := by
  have first : ∃ c ∈ s, c.isDigit = false := by
    cases h with
    | has => exact ⟨'@', by simp, rfl⟩
    | equals => exact ⟨'@', by simp, rfl⟩
    | contains call =>
      obtain ⟨_, _⟩ := call
      exact ⟨'(', by simp, rfl⟩
    | startsWith call =>
      obtain ⟨_, _⟩ := call
      exact ⟨'(', by simp, rfl⟩
  obtain ⟨c, there, other⟩ := first
  have notAll : s.all Char.isDigit = false := by
    simpa using ⟨c, there, other⟩
  simp [parsePosition, notAll]

theorem scanPredicate_eq_some {q : Option Char} {s body rest : List Char} :
    scanPredicate q s = some (body, rest) ↔
      quoteAfter q body = none ∧ ']' ∉ outside q body ∧ s = body ++ ']' :: rest := by
  induction s generalizing q body with
  | nil =>
    cases q <;> simp [scanPredicate]
  | cons c tail ih =>
    -- what the scanner does once a character has been passed, whatever quote is open then
    have further : ∀ q' : Option Char, scanPredicate.prepend c (scanPredicate q' tail) =
        some (body, rest) ↔ ∃ more, body = c :: more ∧ quoteAfter q' more = none ∧
          ']' ∉ outside q' more ∧ tail = more ++ ']' :: rest := by
      intro q'
      rw [scanPredicate.prepend, Option.map_eq_some_iff]
      constructor
      · rintro ⟨⟨more, _⟩, scanned, same⟩
        obtain ⟨rfl, rfl⟩ : c :: more = body ∧ _ = rest := by simpa using same
        exact ⟨more, rfl, ih.1 scanned⟩
      · rintro ⟨more, rfl, parts⟩
        exact ⟨(more, rest), ih.2 parts, rfl⟩
    cases q with
    | some d =>
      rw [scanPredicate, further]
      constructor
      · rintro ⟨more, rfl, closed, closing, rfl⟩
        exact ⟨closed, closing, rfl⟩
      · rintro ⟨closed, closing, whole⟩
        cases body with
        | nil => cases closed
        | cons e more =>
          obtain ⟨rfl, rfl⟩ : c = e ∧ tail = more ++ ']' :: rest := by simpa using whole
          exact ⟨more, rfl, closed, closing, rfl⟩
    | none =>
      by_cases last : c = ']'
      · subst last
        rw [scanPredicate, if_pos rfl]
        constructor
        · rintro ⟨⟩
          exact ⟨rfl, by simp [outside], rfl⟩
        · rintro ⟨closed, closing, whole⟩
          cases body with
          | nil =>
            obtain rfl : tail = rest := by simpa using whole
            rfl
          | cons e more =>
            obtain ⟨rfl, rfl⟩ : ']' = e ∧ tail = more ++ ']' :: rest := by simpa using whole
            exact absurd (by simp [outside, isQuote]) closing
      · rw [scanPredicate, if_neg last, further]
        have step : ∀ more, outside none (c :: more) = (if isQuote c then [] else [c]) ++
            outside (if isQuote c then some c else none) more := by
          intro more
          by_cases quote : isQuote c = true <;> simp [outside, quote]
        have other : ']' ∉ (if isQuote c then [] else [c]) := by
          split
          · exact List.not_mem_nil
          · exact fun same => last (List.mem_singleton.1 same).symm
        constructor
        · rintro ⟨more, rfl, closed, closing, rfl⟩
          refine ⟨closed, ?_, rfl⟩
          rw [step, List.mem_append]
          exact fun mem => mem.elim other closing
        · rintro ⟨closed, closing, whole⟩
          cases body with
          | nil =>
            obtain ⟨rfl, -⟩ : c = ']' ∧ tail = rest := by simpa using whole
            exact absurd rfl last
          | cons e more =>
            obtain ⟨rfl, rfl⟩ : c = e ∧ tail = more ++ ']' :: rest := by simpa using whole
            rw [step, List.mem_append] at closing
            exact ⟨more, rfl, closed, fun mem => closing (.inr mem), rfl⟩

/-- A text cut at the brackets that the reader takes for the ends of predicates. -/
inductive Cut : List Predicate → List Char → Prop
  | nil : Cut [] []
  | cons {p : Predicate} {ps : List Predicate} {body rest : List Char}
      (spelled : p.Spelled Any (Text.trim body)) (closed : quoteAfter none body = none)
      (closing : ']' ∉ outside none body) (more : Cut ps rest) :
      Cut (p :: ps) ('[' :: (body ++ ']' :: rest))

def arrange (found : List Predicate) : Predicate → List Predicate × Option Nat
  | .test t => (found ++ [.test t], none)
  | .position n => if found = [] then ([.position n], none) else (found, some n)

theorem Arranged.arrange {found : List Predicate} (h : Arranged found none) (p : Predicate) :
    Arranged (arrange found p).1 (arrange found p).2 ∧
      (XPath.arrange found p).1 ++ ((XPath.arrange found p).2.map .position).toList =
        found ++ [p] := by
  cases p with
  | test t =>
    refine ⟨⟨fun p hp => ?_, fun never => absurd rfl never⟩, List.append_nil _⟩
    cases found with
    | nil => exact absurd hp List.not_mem_nil
    | cons f fs =>
      rcases List.mem_append.1 hp with old | new
      · exact h.tests p old
      · exact ⟨t, List.mem_singleton.1 new⟩
  | position n =>
    by_cases first : found = []
    · subst first
      exact ⟨⟨fun p hp => absurd hp List.not_mem_nil, fun never => absurd rfl never⟩, rfl⟩
    · simp only [XPath.arrange, if_neg first]
      exact ⟨⟨h.tests, fun _ => first⟩, rfl⟩

theorem Arranged.rank_eq_none {found ps more : List Predicate} {rank r : Option Nat} {p : Predicate}
    (h : Arranged found rank) (h' : Arranged ps r)
    (whole : found ++ (rank.map .position).toList ++ p :: more =
      ps ++ (r.map .position).toList) : rank = none := by
  cases rank with
  | none => rfl
  | some n =>
    cases found with
    | nil => exact absurd rfl (h.behind (by simp))
    | cons f fs =>
      have short : (r.map Predicate.position).toList.length ≤ 1 := by cases r <;> simp
      have lengths := congrArg List.length whole
      simp only [Option.map_some, Option.toList_some, List.length_append, List.length_cons,
        List.length_nil] at lengths
      cases ps with
      | nil => simp only [List.length_nil] at lengths; omega
      | cons f' fs' =>
        have there := congrArg (·[fs.length + 1]?) whole
        simp only [List.length_cons] at lengths
        have inside : fs.length < fs'.length := by omega
        simp [List.getElem?_append, inside] at there
        obtain ⟨t, same⟩ := h'.tests (.position n) (there ▸ List.getElem_mem inside)
        cases same

theorem Arranged.unique {found ps : List Predicate} {rank r : Option Nat}
    (h : Arranged found rank) (h' : Arranged ps r)
    (whole : found ++ (rank.map .position).toList = ps ++ (r.map .position).toList) :
    found = ps ∧ rank = r := by
  have not_last : ∀ {found ps n} {rank : Option Nat}, Arranged found rank → ps ≠ [] →
      found ≠ ps ++ [Predicate.position n] := by
    rintro _ ps n rank arranged some_ rfl
    cases ps with
    | nil => exact some_ rfl
    | cons f fs =>
      obtain ⟨t, same⟩ := arranged.tests (.position n) (by simp)
      cases same
  cases rank with
  | none =>
    cases r with
    | none => simpa using whole
    | some m => exact absurd (by simpa using whole) (not_last h (h'.behind (by simp)))
  | some n =>
    cases r with
    | none => exact absurd (by simpa using whole.symm) (not_last h' (h.behind (by simp)))
    | some m =>
      obtain ⟨rfl, same⟩ := List.append_inj' whole rfl
      exact ⟨rfl, by simpa using same⟩

theorem parsePredicates_succ {fuel : Nat} {found : List Predicate} {p : Predicate}
    {body rest : List Char} (spelled : p.Spelled Any (Text.trim body))
    (closed : quoteAfter none body = none) (closing : ']' ∉ outside none body) :
    parsePredicates (fuel + 1) found none ('[' :: (body ++ ']' :: rest)) =
      parsePredicates fuel (arrange found p).1 (arrange found p).2 rest := by
  have scanned : scanPredicate none (body ++ ']' :: rest) = some (body, rest) :=
    scanPredicate_eq_some.2 ⟨closed, closing, rfl⟩
  simp only [parsePredicates, scanned, bind, Except.bind]
  cases spelled with
  | test spelled =>
    simp only [parsePosition_eq_none_of_test spelled, parseTest_of_spelled spelled]
    rfl
  | position some_ all one fits =>
    have number := (parsePosition_eq_some (P := Any)).2 (.position some_ all one fits)
    simp only [number, arrange]
    by_cases first : found = []
    · simp [first]
    · simp [first]

theorem exists_of_parsePredicates {fuel : Nat} {found ps : List Predicate} {rank r : Option Nat}
    {s : List Char} (h : parsePredicates fuel found rank s = .ok (ps, r)) (some_ : s ≠ []) :
    rank = none ∧ ∃ fuel' body rest, ∃ p : Predicate,
      fuel = fuel' + 1 ∧ s = '[' :: (body ++ ']' :: rest) ∧
      p.Spelled Any (Text.trim body) ∧ quoteAfter none body = none ∧ ']' ∉ outside none body := by
  cases s with
  | nil => exact absurd rfl some_
  | cons c inner =>
    cases fuel with
    | zero => cases h
    | succ fuel =>
      unfold parsePredicates at h
      split at h
      · next inner' same =>
        cases same
        split at h
        · cases h
        · next body rest scanned =>
          obtain ⟨closed, closing, rfl⟩ := scanPredicate_eq_some.1 scanned
          simp only [bind, Except.bind] at h
          split at h
          · cases h
          · next unranked =>
            refine ⟨by simpa using unranked, fuel, body, rest, ?_⟩
            split at h
            · cases h
            · next number position =>
              cases number with
              | some n => exact ⟨.position n, rfl, rfl, parsePosition_eq_some.1 position, closed,
                closing⟩
              | none =>
                simp only at h
                split at h
                · cases h
                · next t test =>
                  exact ⟨.test t, rfl, rfl, .test (spelled_of_parseTest (Text.bare_trim body) test),
                    closed, closing⟩
      · cases h

theorem parsePredicates_nil_eq_ok {fuel : Nat} {found ps : List Predicate} {rank r : Option Nat}
    (arranged : Arranged found rank) :
    parsePredicates fuel found rank [] = .ok (ps, r) ↔ Arranged ps r ∧ ∃ new, Cut new [] ∧
      found ++ (rank.map .position).toList ++ new = ps ++ (r.map .position).toList := by
  have done : parsePredicates fuel found rank [] = .ok (found, rank) := by cases fuel <;> rfl
  rw [done]
  constructor
  · rintro ⟨⟩
    exact ⟨arranged, [], .nil, List.append_nil _⟩
  · rintro ⟨result, new, ⟨⟩, all⟩
    obtain ⟨rfl, rfl⟩ := arranged.unique result (by simpa using all)
    rfl

theorem parsePredicates_eq_ok {fuel : Nat} {found ps : List Predicate} {rank r : Option Nat}
    {s : List Char} (arranged : Arranged found rank) (enough : s.length ≤ fuel) :
    parsePredicates fuel found rank s = .ok (ps, r) ↔ Arranged ps r ∧ ∃ new, Cut new s ∧
      found ++ (rank.map .position).toList ++ new = ps ++ (r.map .position).toList := by
  induction fuel generalizing found rank s with
  | zero =>
    obtain rfl : s = [] := List.eq_nil_of_length_eq_zero (by omega)
    exact parsePredicates_nil_eq_ok arranged
  | succ fuel ih =>
    -- one pass, which leads both ways to what is said of the text behind it
    have forward : ∀ {body rest : List Char} {p : Predicate},
        s = '[' :: (body ++ ']' :: rest) → p.Spelled Any (Text.trim body) →
        quoteAfter none body = none → ']' ∉ outside none body → rank = none →
        (parsePredicates (fuel + 1) found rank s = .ok (ps, r) ↔
          Arranged ps r ∧ ∃ new, Cut new rest ∧
            found ++ p :: new = ps ++ (r.map .position).toList) := by
      rintro body rest p rfl spelled closed closing rfl
      obtain ⟨arranged', both⟩ := arranged.arrange p
      have shorter : rest.length ≤ fuel := by
        simp only [List.length_cons, List.length_append] at enough
        omega
      rw [parsePredicates_succ spelled closed closing, ih arranged' shorter, both]
      simp only [List.append_assoc, List.singleton_append]
    cases s with
    | nil => exact parsePredicates_nil_eq_ok arranged
    | cons c inner =>
      constructor
      · intro h
        obtain ⟨rfl, _, body, rest, p, -, whole, spelled, closed, closing⟩ :=
          exists_of_parsePredicates h (by simp)
        obtain ⟨result, new, cut, all⟩ := (forward whole spelled closed closing rfl).1 h
        refine ⟨result, p :: new, whole ▸ .cons spelled closed closing cut, ?_⟩
        simpa using all
      · rintro ⟨result, new, cut, all⟩
        cases cut with
        | cons spelled closed closing more =>
          obtain rfl := arranged.rank_eq_none result all
          refine (forward rfl spelled closed closing rfl).2 ⟨result, _, more, ?_⟩
          simpa using all

theorem outside_bracketed {body rest : List Char} (closed : quoteAfter none body = none) :
    outside none ('[' :: (body ++ ']' :: rest)) =
      '[' :: (outside none body ++ ']' :: outside none rest) := by
  simp [outside, isQuote, outside_append, closed]

theorem Cut.count_le {ps : List Predicate} {s : List Char} (h : Cut ps s) :
    (outside none s).count ']' ≤ (outside none s).count '[' := by
  induction h with
  | nil => exact Nat.le_refl _
  | cons spelled closed closing more ih =>
    rw [outside_bracketed closed]
    simp [List.count_append, List.count_eq_zero.2 closing]
    omega

theorem Predicate.Spelled.enclosed {p : Predicate} {s : List Char} (h : p.Spelled Closed s) :
    Enclosed s := by
  cases h with
  | test spelled => exact spelled.enclosed
  | position _ all => exact (unmarked_digits all).undelimited.enclosed

theorem Predicate.Spelled.closed {p : Predicate} {s : List Char} (h : p.Spelled Any s)
    (enclosed : Enclosed s) : p.Spelled Closed s := by
  cases h with
  | test spelled => exact .test (spelled.closed enclosed)
  | position some_ all one fits => exact .position some_ all one fits

theorem Predicate.Spelled.mono {P Q : Char → List Char → Prop} {p : Predicate} {s : List Char}
    (h : p.Spelled P s) (sub : ∀ q v, isQuote q = true → P q v → Q q v) : p.Spelled Q s := by
  cases h with
  | test spelled => exact .test (spelled.mono sub)
  | position some_ all one fits => exact .position some_ all one fits

theorem Bracketed.mono {P Q : Char → List Char → Prop} {ps : List Predicate} {s : List Char}
    (h : Bracketed P ps s) (sub : ∀ q v, isQuote q = true → P q v → Q q v) : Bracketed Q ps s := by
  induction h with
  | nil => exact .nil
  | cons spelled h₁ h₂ more ih => exact .cons (spelled.mono sub) h₁ h₂ ih

theorem Quoted.ne_nil {P : Char → List Char → Prop} {v s : List Char} (h : Quoted P v s) :
    s ≠ [] := by
  obtain ⟨_, _⟩ := h
  exact List.cons_ne_nil _ _

theorem Predicate.Spelled.bare {P : Char → List Char → Prop} {p : Predicate} {s : List Char}
    (h : p.Spelled P s) : Bare s := by
  have close : ∀ d ∈ [')'].getLast?, Text.isBlank d = false := by
    rintro d ⟨⟩
    decide
  cases h with
  | position _ all _ _ =>
    refine .of_forall fun c hc => not_isBlank_of_isNameRest ?_
    have digit := List.all_eq_true.1 all c hc
    simp [isNameRest, Char.isAlphanum, digit]
  | test spelled =>
    cases spelled with
    | has name => exact bare_attribute name
    | equals name quoted h₁ h₂ h₃ =>
      rename_i a v b₁ b₂ b₃ l
      have ends := Bare.of_ends (c := '@') (s := b₁ ++ (a ++ b₂) ++ '=' :: b₃) (by decide)
        quoted.ne_nil quoted.bare.last
      simpa using ends
    | contains call =>
      obtain ⟨name, quoted, h₁, h₂, h₃, h₄, h₅⟩ := call
      rename_i b₁ b₂ b₃ b₄ b₅ l
      have ends := fun s => Bare.of_ends (c := 'c') (s := s) (by decide) (by simp) close
      simpa using ends ("ontains".toList ++ (b₁ ++ '(' :: (b₂ ++ ('@' :: _ ++ b₃) ++ ',' ::
        (b₄ ++ (l ++ b₅)))))
    | startsWith call =>
      obtain ⟨name, quoted, h₁, h₂, h₃, h₄, h₅⟩ := call
      rename_i b₁ b₂ b₃ b₄ b₅ l
      have ends := fun s => Bare.of_ends (c := 's') (s := s) (by decide) (by simp) close
      simpa using ends ("tarts-with".toList ++ (b₁ ++ '(' :: (b₂ ++ ('@' :: _ ++ b₃) ++ ',' ::
        (b₄ ++ (l ++ b₅)))))

theorem Cut.bracketed {ps : List Predicate} {s : List Char} (h : Cut ps s)
    (match_ : (outside none s).count '[' ≤ (outside none s).count ']') : Bracketed Closed ps s := by
  induction h with
  | nil => exact .nil
  | cons spelled closed closing more ih =>
    rename_i p ps body rest
    rw [outside_bracketed closed] at match_
    have fewer := more.count_le
    simp [List.count_append, List.count_eq_zero.2 closing] at match_
    obtain ⟨b₁, b₂, h₁, h₂, whole⟩ := Text.exists_trim body
    have none_ : (outside none body).count '[' = 0 := by omega
    have enclosed : Enclosed body := ⟨closed, List.count_eq_zero.1 none_, closing⟩
    have inner : Enclosed (Text.trim body) := by
      rw [whole, enclosed_around (unmarked_blanks h₁).undelimited (unmarked_blanks h₂).undelimited]
        at enclosed
      exact enclosed
    have bracketed := Bracketed.cons (spelled.closed inner) h₁ h₂ (ih (by omega))
    rw [← whole] at bracketed
    exact bracketed

theorem Bracketed.cut {ps : List Predicate} {s : List Char} (h : Bracketed Closed ps s) :
    Cut ps s := by
  induction h with
  | nil => exact .nil
  | cons spelled h₁ h₂ more ih =>
    have enclosed := (enclosed_around (unmarked_blanks h₁).undelimited
      (unmarked_blanks h₂).undelimited).2 spelled.enclosed
    refine .cons ?_ enclosed.closed enclosed.closing ih
    rw [Text.trim_pad spelled.bare h₁ h₂]
    exact spelled.mono fun _ _ _ _ => trivial

end Toolwright.XPath
