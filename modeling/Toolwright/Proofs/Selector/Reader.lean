import Toolwright.Proofs.Selector.Predicate

/-!
The reader of location paths takes what the grammar spells, and nothing else, when an operand may
leave its quotes and come back. In particular it takes all plain paths.
-/

namespace Toolwright.XPath

open Text (Blanks)

/-- What is read of a step when the text is in front of the rest. -/
def prefixed (s : List Char) (scanned : Except Problem (List Char × List Char)) :
    Except Problem (List Char × List Char) :=
  scanned.map fun parts => (s ++ parts.1, parts.2)

theorem prepend_eq {c : Char} {scanned : Except Problem (List Char × List Char)} :
    scanStep.prepend c scanned = prefixed [c] scanned := by
  cases scanned <;> rfl

theorem prefixed_prefixed {s t : List Char} {scanned : Except Problem (List Char × List Char)} :
    prefixed s (prefixed t scanned) = prefixed (s ++ t) scanned := by
  cases scanned with
  | error _ => rfl
  | ok parts => simp [prefixed, Except.map]

theorem scanStep_enclosed (depth : Nat) {q : Option Char} {body : List Char} (rest : List Char)
    (closed : quoteAfter q body = none) (opening : '[' ∉ outside q body)
    (closing : ']' ∉ outside q body) :
    scanStep (depth + 1) q (body ++ rest) = prefixed body (scanStep (depth + 1) none rest) := by
  induction body generalizing q with
  | nil =>
    obtain rfl : q = none := closed
    cases h : scanStep (depth + 1) none rest <;> simp [prefixed, Except.map, h]
  | cons c more ih =>
    have further : ∀ q', quoteAfter q' more = none → '[' ∉ outside q' more → ']' ∉ outside q' more →
        scanStep.prepend c (scanStep (depth + 1) q' (more ++ rest)) =
          prefixed (c :: more) (scanStep (depth + 1) none rest) := by
      intro q' closed opening closing
      rw [ih closed opening closing, prepend_eq, prefixed_prefixed, List.singleton_append]
    cases q with
    | some d =>
      rw [List.cons_append, scanStep]
      exact further _ closed opening closing
    | none =>
      by_cases quote : isQuote c = true
      · simp only [quoteAfter, outside, quote, if_true] at closed opening closing
        simp only [List.cons_append, scanStep, quote, if_true]
        exact further _ closed opening closing
      · simp only [quoteAfter, outside, quote, if_false, List.mem_cons, not_or, Bool.false_eq_true]
          at closed opening closing
        have noOpening : c ≠ '[' := fun same => opening.1 same.symm
        have noClosing : c ≠ ']' := fun same => closing.1 same.symm
        simp only [List.cons_append, scanStep, quote, noOpening, noClosing, if_false,
          Nat.succ_ne_zero, and_false, Bool.false_eq_true]
        exact further _ closed opening.2 closing.2

theorem scanStep_bracketed {ps : List Predicate} {s rest : List Char}
    (h : Bracketed Closed ps s) :
    scanStep 0 none (s ++ rest) = prefixed s (scanStep 0 none rest) := by
  induction h with
  | nil => cases h : scanStep 0 none rest <;> simp [prefixed, Except.map, h]
  | cons spelled h₁ h₂ more ih =>
    rename_i p ps b₁ b₂ s behind
    have enclosed := (enclosed_around (unmarked_blanks h₁).undelimited
      (unmarked_blanks h₂).undelimited).2 spelled.enclosed
    have close : scanStep 1 none (']' :: (behind ++ rest)) =
        prefixed (']' :: behind) (scanStep 0 none rest) := by
      simp only [scanStep, ih, prepend_eq, prefixed_prefixed, List.singleton_append]
      rfl
    have inner : scanStep 1 none ((b₁ ++ (s ++ b₂)) ++ ']' :: (behind ++ rest)) = _ :=
      scanStep_enclosed 0 _ enclosed.closed enclosed.opening enclosed.closing
    have whole : '[' :: ((b₁ ++ (s ++ b₂)) ++ ']' :: behind) ++ rest =
        '[' :: ((b₁ ++ (s ++ b₂)) ++ ']' :: (behind ++ rest)) := by simp
    have open_ : ∀ x, scanStep 0 none ('[' :: x) = scanStep.prepend '[' (scanStep 1 none x) :=
      fun _ => rfl
    rw [whole, open_, inner, close, prefixed_prefixed, prepend_eq, prefixed_prefixed]
    rfl

theorem scanStep_plain {s rest : List Char} (h : Undelimited s) (slash : '/' ∉ s) :
    scanStep 0 none (s ++ rest) = prefixed s (scanStep 0 none rest) := by
  induction s with
  | nil => cases h : scanStep 0 none rest <;> simp [prefixed, Except.map, h]
  | cons c more ih =>
    obtain ⟨⟨quote, opening, closing⟩, plain⟩ := undelimited_cons.1 h
    obtain ⟨other, slash⟩ := List.ne_and_not_mem_of_not_mem_cons slash
    simp only [List.cons_append, scanStep, quote, opening, closing, other.symm, if_false,
      Bool.false_eq_true, false_and, ih plain slash, prepend_eq, prefixed_prefixed,
      List.nil_append]

theorem prepend_eq_ok {c : Char} {scanned : Except Problem (List Char × List Char)}
    {step rest : List Char} (h : scanStep.prepend c scanned = .ok (step, rest)) :
    ∃ more, step = c :: more ∧ scanned = .ok (more, rest) := by
  cases scanned with
  | error problem => cases h
  | ok parts =>
    cases h
    exact ⟨parts.1, rfl, rfl⟩

theorem scanStep_eq_ok {depth : Nat} {q : Option Char} {s step rest : List Char}
    (h : scanStep depth q s = .ok (step, rest)) :
    s = step ++ rest ∧ (∀ c ∈ rest.head?, c = '/') ∧ quoteAfter q step = none ∧
      depth + (outside q step).count '[' = (outside q step).count ']' := by
  -- brackets that are open in front of the text are counted in, so both counts agree at every place
  induction s generalizing depth q step with
  | nil =>
    simp only [scanStep] at h
    split at h
    · cases h
    · next done =>
      cases h
      obtain ⟨rfl, rfl⟩ : depth = 0 ∧ q = none := by simpa using done
      exact ⟨rfl, by simp, rfl, rfl⟩
  | cons c tail ih =>
    cases q with
    | some d =>
      obtain ⟨more, rfl, scanned⟩ := prepend_eq_ok h
      obtain ⟨rfl, head, closed, counts⟩ := ih scanned
      exact ⟨rfl, head, closed, counts⟩
    | none =>
      simp only [scanStep] at h
      split at h
      · next quote =>
        obtain ⟨more, rfl, scanned⟩ := prepend_eq_ok h
        obtain ⟨rfl, head, closed, counts⟩ := ih scanned
        simp only [quoteAfter, outside, quote, if_true]
        exact ⟨rfl, head, closed, counts⟩
      · next quote =>
        have plain : ∀ more, quoteAfter none (c :: more) = quoteAfter none more ∧
            outside none (c :: more) = c :: outside none more := by
          intro more
          simp [quoteAfter, outside, quote]
        split at h
        · next opening =>
          subst opening
          obtain ⟨more, rfl, scanned⟩ := prepend_eq_ok h
          obtain ⟨rfl, head, closed, counts⟩ := ih scanned
          rw [(plain more).1, (plain more).2]
          refine ⟨rfl, head, closed, ?_⟩
          rw [List.count_cons_self, List.count_cons_of_ne (by decide)]
          omega
        · next opening =>
          split at h
          · next closing =>
            subst closing
            cases depth with
            | zero => cases h
            | succ depth =>
              obtain ⟨more, rfl, scanned⟩ := prepend_eq_ok h
              obtain ⟨rfl, head, closed, counts⟩ := ih scanned
              rw [(plain more).1, (plain more).2]
              refine ⟨rfl, head, closed, ?_⟩
              rw [List.count_cons_self, List.count_cons_of_ne (by decide)]
              omega
          · next closing =>
            split at h
            · next slash =>
              cases h
              obtain ⟨rfl, rfl⟩ := slash
              exact ⟨rfl, by simp, rfl, rfl⟩
            · obtain ⟨more, rfl, scanned⟩ := prepend_eq_ok h
              obtain ⟨rfl, head, closed, counts⟩ := ih scanned
              rw [(plain more).1, (plain more).2]
              refine ⟨rfl, head, closed, ?_⟩
              rw [List.count_cons_of_ne opening, List.count_cons_of_ne closing]
              exact counts

theorem NameTest.Spelled.plain {name : NameTest} {s : List Char} (h : name.Spelled s) :
    Undelimited s ∧ '/' ∉ s ∧ '[' ∉ s ∧ s ≠ [] := by
  cases h with
  | any => exact ⟨by simp [isQuote], by decide, by decide, by decide⟩
  | name isName =>
    have unmarked := unmarked_name isName
    exact ⟨unmarked.undelimited, fun slash => unmarked _ slash (by decide),
      fun bracket => unmarked _ bracket (by decide), ne_nil_of_isName isName⟩

theorem NameTest.Spelled.not_call {name : NameTest} {s : List Char} (h : name.Spelled s) :
    ')' ∉ s := by
  cases h with
  | any => decide
  | name isName => exact fun mem => unmarked_name isName _ mem (by decide)

theorem Bracketed.head {P : Char → List Char → Prop} {ps : List Predicate} {s : List Char}
    (h : Bracketed P ps s) : ∀ c ∈ s.head?, (c != '[') = false := by
  cases h with
  | nil => simp
  | cons => simp

theorem cut_name {name : NameTest} {n s : List Char} (spelled : name.Spelled n)
    (head : ∀ c ∈ s.head?, (c != '[') = false) :
    (n ++ s).takeWhile (· != '[') = n ∧ (n ++ s).dropWhile (· != '[') = s := by
  obtain ⟨-, -, bracket, -⟩ := spelled.plain
  have apart : ∀ c ∈ n, (c != '[') = true := by
    intro c hc
    have other : c ≠ '[' := fun same => bracket (same ▸ hc)
    simpa using other
  have none_ : s.takeWhile (· != '[') = [] := by
    cases s with
    | nil => rfl
    | cons c rest => simp [head c rfl]
  exact ⟨by rw [List.takeWhile_append_of_pos apart, none_, List.append_nil],
    by rw [List.dropWhile_append_of_pos apart, Text.dropWhile_eq_self head]⟩

def NameTest.of (n : List Char) : NameTest := if n = ['*'] then .any else .name n

theorem NameTest.Spelled.of {name : NameTest} {n : List Char} (h : name.Spelled n) :
    (n = ['*'] ∨ isName n = true) ∧ NameTest.of n = name := by
  cases h with
  | any => exact ⟨.inl rfl, rfl⟩
  | name isName_ =>
    refine ⟨.inr isName_, if_neg ?_⟩
    rintro rfl
    exact absurd isName_ (by decide)

theorem NameTest.spelled_of {n : List Char} (h : n = ['*'] ∨ isName n = true) :
    (NameTest.of n).Spelled n := by
  by_cases star : n = ['*']
  · subst star
    exact .any
  · rw [NameTest.of, if_neg star]
    exact .name (h.resolve_left star)

theorem arranged_nil : Arranged [] none :=
  ⟨fun _ h => absurd h List.not_mem_nil, fun never => absurd rfl never⟩

theorem parseStep_eq_ok {descendant : Bool} {text : List Char} {step : Step}
    (match_ : (outside none text).count '[' ≤ (outside none text).count ']') :
    parseStep descendant text = .ok step ↔ step.descendant = descendant ∧
      step.Spelled Closed (slashes descendant ++ text) := by
  constructor
  · intro h
    have whole : text.takeWhile (· != '[') ++ text.dropWhile (· != '[') = text :=
      List.takeWhile_append_dropWhile
    unfold parseStep at h
    generalize text.takeWhile (· != '[') = n at h whole
    generalize text.dropWhile (· != '[') = rest at h whole
    subst whole
    dsimp only at h
    split at h
    · next isName =>
      have name := NameTest.spelled_of isName
      obtain ⟨plain, -, -, -⟩ := name.plain
      have outer : outside none (n ++ rest) = n ++ outside none rest := by
        have quotes : ∀ c ∈ n, isQuote c = false := fun c hc => (plain c hc).1
        rw [outside_append, outside_of_forall quotes, quoteAfter_of_forall quotes]
      have opening : n.count '[' = 0 := List.count_eq_zero.2 fun mem => (plain _ mem).2.1 rfl
      have closing : n.count ']' = 0 := List.count_eq_zero.2 fun mem => (plain _ mem).2.2 rfl
      rw [outer, List.count_append, List.count_append, opening, closing] at match_
      cases read : parsePredicates (rest.length + 1) [] none rest with
      | error problem =>
        rw [read] at h
        cases h
      | ok parts =>
        obtain ⟨predicates, rank⟩ := parts
        rw [read] at h
        cases h
        obtain ⟨arranged, new, cut, all⟩ :=
          (parsePredicates_eq_ok arranged_nil (Nat.le_succ _)).1 read
        have bracketed := cut.bracketed (by omega)
        obtain rfl : new = predicates ++ (rank.map Predicate.position).toList := by simpa using all
        exact ⟨rfl, .intro name arranged bracketed⟩
    · cases h
  · rintro ⟨rfl, spelled⟩
    generalize whole : slashes step.descendant ++ text = s at spelled
    obtain ⟨name, arranged, bracketed⟩ := spelled
    obtain rfl := List.append_cancel_left whole
    obtain ⟨isName, same⟩ := name.of
    obtain ⟨first, behind⟩ := cut_name name bracketed.head
    have read := (parsePredicates_eq_ok arranged_nil (Nat.le_succ _)).2
      ⟨arranged, step.written, bracketed.cut, by simp [Step.written]⟩
    rw [parseStep, first, behind, if_pos isName, read]
    change Except.ok (Step.mk step.descendant (NameTest.of _) step.predicates step.rank) = _
    rw [same]

theorem Step.Spelled.split {step : Step} {s : List Char} (h : step.Spelled Closed s) :
    ∃ text, s = slashes step.descendant ++ text ∧ ∀ rest, (∀ c ∈ rest.head?, c = '/') →
      splitSlashes (s ++ rest) = .ok (step.descendant, text ++ rest) ∧
      splitStep (text ++ rest) = .ok (text, rest) ∧
      parseStep step.descendant text = .ok step := by
  have spelled := h
  obtain ⟨name, -, bracketed⟩ := h
  rename_i n ps
  obtain ⟨plain, slash, -, some_⟩ := name.plain
  refine ⟨n ++ ps, rfl, fun rest head => ?_⟩
  have last : scanStep 0 none rest = .ok ([], rest) := by
    cases rest with
    | nil => rfl
    | cons c rest =>
      obtain rfl := head c rfl
      rfl
  have scanned : scanStep 0 none (n ++ ps ++ rest) = .ok (n ++ ps, rest) := by
    rw [List.append_assoc, scanStep_plain plain slash, scanStep_bracketed bracketed, last,
      prefixed_prefixed]
    simp [prefixed, Except.map]
  obtain ⟨-, -, -, counts⟩ := scanStep_eq_ok scanned
  rw [Nat.zero_add] at counts
  cases n with
  | nil => exact absurd rfl some_
  | cons c more =>
    obtain ⟨other, -⟩ := List.ne_and_not_mem_of_not_mem_cons slash
    refine ⟨?_, ?_, (parseStep_eq_ok counts.le).2 ⟨rfl, spelled⟩⟩
    · cases step.descendant with
      | true => rfl
      | false =>
        simp only [slashes, List.cons_append, List.nil_append, Bool.false_eq_true, if_false]
        unfold splitSlashes
        split
        · next same =>
          cases same
          exact absurd rfl other
        · next same =>
          cases same
          rfl
        · next same => exact absurd rfl (same _)
    · rw [← scanned]
      unfold splitStep
      split
      · next same => cases same
      · next same =>
        cases same
        exact absurd rfl other
      · rfl

theorem exists_of_parseSteps {fuel : Nat} {ranked : Bool} {s : List Char} {path : Path}
    (some_ : s ≠ []) (h : parseSteps fuel ranked s = .ok path) :
    ranked = false ∧ ∃ fuel' step more first rest, fuel = fuel' + 1 ∧ path = step :: more ∧
      s = first ++ rest ∧ Step.Spelled Closed step first ∧
      parseSteps fuel' step.rank.isSome rest = .ok more := by
  cases s with
  | nil => exact absurd rfl some_
  | cons c tail =>
    cases fuel with
    | zero => cases h
    | succ fuel =>
      simp only [parseSteps, bind, Except.bind] at h
      split at h
      · cases h
      · next begun slashed =>
        obtain ⟨descendant, start⟩ := begun
        simp only at h
        split at h
        · cases h
        · next cut split_ =>
          obtain ⟨text, rest⟩ := cut
          simp only at h
          split at h
          · cases h
          · next unranked =>
            split at h
            · cases h
            · next step read =>
              split at h
              · cases h
              · next more others =>
                cases h
                have scanned : scanStep 0 none start = .ok (text, rest) := by
                  unfold splitStep at split_
                  split at split_
                  · cases split_
                  · cases split_
                  · exact split_
                obtain ⟨rfl, -, -, counts⟩ := scanStep_eq_ok scanned
                rw [Nat.zero_add] at counts
                have whole : c :: tail = slashes descendant ++ (text ++ rest) := by
                  unfold splitSlashes at slashed
                  split at slashed
                  · next same => cases slashed; exact same
                  · next same => cases slashed; exact same
                  · cases slashed
                obtain ⟨same, spelled⟩ := (parseStep_eq_ok counts.le).1 read
                refine ⟨by simpa using unranked, fuel, step, more, slashes descendant ++ text, rest,
                  rfl, rfl, ?_, spelled, others⟩
                rw [whole, List.append_assoc]

theorem parseSteps_nil (fuel : Nat) (ranked : Bool) : parseSteps fuel ranked [] = .ok [] := by
  cases fuel <;> rfl

theorem spelled_of_parseSteps {fuel : Nat} {ranked : Bool} {s : List Char} {path : Path}
    (some_ : s ≠ []) (h : parseSteps fuel ranked s = .ok path) :
    ranked = false ∧ path.Spelled Closed s := by
  induction fuel generalizing ranked s path with
  | zero =>
    obtain ⟨-, _, _, _, _, _, zero, -⟩ := exists_of_parseSteps some_ h
    cases zero
  | succ fuel ih =>
    obtain ⟨unranked, fuel', step, more, first, rest, same, rfl, rfl, spelled, behind⟩ :=
      exists_of_parseSteps some_ h
    obtain rfl : fuel = fuel' := by omega
    refine ⟨unranked, ?_⟩
    cases rest with
    | nil =>
      rw [parseSteps_nil] at behind
      cases behind
      rw [List.append_nil]
      exact .last spelled
    | cons c rest =>
      obtain ⟨none_, others⟩ := ih (by simp) behind
      exact .cons spelled (by simpa using none_) others

theorem Step.Spelled.head {P : Char → List Char → Prop} {step : Step} {s : List Char}
    (h : step.Spelled P s) : ∃ rest, s = '/' :: rest := by
  obtain ⟨-, -, -⟩ := h
  cases step.descendant <;> exact ⟨_, rfl⟩

theorem Path.Spelled.head {P : Char → List Char → Prop} {path : Path} {s : List Char}
    (h : path.Spelled P s) : ∃ rest, s = '/' :: rest := by
  cases h with
  | last spelled => exact spelled.head
  | cons spelled =>
    obtain ⟨rest, rfl⟩ := spelled.head
    exact ⟨_, rfl⟩

theorem parseSteps_succ (fuel : Nat) {step : Step} {s rest : List Char}
    (spelled : step.Spelled Closed s) (head : ∀ c ∈ rest.head?, c = '/') :
    parseSteps (fuel + 1) false (s ++ rest) =
      (parseSteps fuel step.rank.isSome rest).map (step :: ·) := by
  obtain ⟨text, -, parts⟩ := spelled.split
  obtain ⟨slashes, split, read⟩ := parts rest head
  obtain ⟨_, rfl⟩ := spelled.head
  simp only [parseSteps, List.cons_append, bind, Except.bind] at slashes ⊢
  simp only [slashes, split, read, Bool.false_eq_true, if_false]
  cases parseSteps fuel step.rank.isSome rest <;> rfl

theorem parseSteps_of_spelled {fuel : Nat} {s : List Char} {path : Path}
    (h : path.Spelled Closed s) (enough : s.length ≤ fuel) :
    parseSteps fuel false s = .ok path := by
  induction h generalizing fuel with
  | last spelled =>
    obtain ⟨_, rfl⟩ := spelled.head
    cases fuel with
    | zero => simp at enough
    | succ fuel =>
      have read : parseSteps (fuel + 1) false (_ ++ []) = _ :=
        parseSteps_succ fuel spelled (by simp)
      rw [List.append_nil, parseSteps_nil] at read
      exact read
  | cons spelled unranked more ih =>
    rename_i step path s rest
    obtain ⟨_, rfl⟩ := spelled.head
    obtain ⟨_, rfl⟩ := more.head
    cases fuel with
    | zero => simp at enough
    | succ fuel =>
      rw [parseSteps_succ fuel spelled (by simp), unranked, Option.isSome_none, ih]
      · rfl
      · simp only [List.length_append, List.length_cons] at enough ⊢
        omega

theorem Bracketed.last {P : Char → List Char → Prop} {ps : List Predicate} {s : List Char}
    (h : Bracketed P ps s) : ∀ c ∈ s.getLast?, c = ']' := by
  induction h with
  | nil => simp
  | cons spelled h₁ h₂ more ih =>
    rename_i p ps b₁ b₂ s rest
    intro c hc
    rw [← List.cons_append, List.getLast?_append, List.getLast?_cons] at hc
    cases last : rest.getLast? with
    | none =>
      rw [last] at hc
      simpa using hc.symm
    | some d =>
      rw [last] at hc
      obtain rfl : d = c := by simpa using hc
      exact ih d last

theorem Path.Spelled.ending {path : Path} {s : List Char} (h : path.Spelled Closed s) :
    ∃ c ∈ s.getLast?, c ≠ ')' := by
  induction h with
  | last spelled =>
    obtain ⟨name, -, bracketed⟩ := spelled
    rename_i step n ps
    cases last : ps.getLast? with
    | some c =>
      obtain rfl := bracketed.last c last
      exact ⟨']', by simp [List.getLast?_append, last], by decide⟩
    | none =>
      obtain rfl : ps = [] := by simpa using last
      obtain ⟨-, -, -, some_⟩ := name.plain
      have there := List.getLast?_eq_some_getLast some_
      refine ⟨n.getLast some_, by simp [List.getLast?_append, there], fun same => ?_⟩
      have mem : ')' ∈ n := same ▸ List.getLast_mem some_
      exact name.not_call mem
  | cons _ _ more ih =>
    obtain ⟨c, last, other⟩ := ih
    exact ⟨c, by simp [List.getLast?_append, Option.mem_def.1 last], other⟩

theorem withoutText_eq {s t : List Char} (ends : ∃ c ∈ t.getLast?, c ≠ ')') :
    withoutText s = t ↔ s = t ∨ s = t ++ "/text()".toList := by
  have not_both : ∀ u : List Char, t ≠ u ++ "/text()".toList := by
    rintro u rfl
    obtain ⟨c, last, other⟩ := ends
    rw [List.getLast?_append] at last
    exact other (Option.some.inj last).symm
  unfold withoutText
  cases cut : List.isSuffixOf? "/text()".toList s with
  | none =>
    constructor
    · exact .inl
    · rintro (same | rfl)
      · exact same
      · rw [List.isSuffixOf?_eq_some_iff_append_eq.2 rfl] at cut
        cases cut
  | some u =>
    have whole := List.isSuffixOf?_eq_some_iff_append_eq.1 cut
    constructor
    · rintro rfl
      exact .inr whole.symm
    · rintro (rfl | same)
      · exact absurd whole.symm (not_both u)
      · exact List.append_cancel_right (whole.trans same)

/-- The reader takes exactly the paths whose operands are closed. -/
theorem parse_eq_ok {s : List Char} {path : Path} :
    parse s = .ok path ↔ Path.Written Closed path s := by
  constructor
  · intro h
    cases read : parseSteps (s.length + 1) false (withoutText s) with
    | error problem => simp [parse, read, bind, Except.bind] at h
    | ok steps =>
      simp only [parse, read, bind, Except.bind] at h
      split at h
      · cases h
      · next some_ =>
        cases h
        have there : withoutText s ≠ [] := by
          intro nil
          rw [nil, parseSteps_nil] at read
          cases read
          exact some_ rfl
        obtain ⟨-, spelled⟩ := spelled_of_parseSteps there read
        exact ⟨_, spelled, (withoutText_eq spelled.ending).1 rfl⟩
  · rintro ⟨t, spelled, whole⟩
    have cut := (withoutText_eq spelled.ending).2 whole
    have shorter : t.length ≤ s.length + 1 := by
      rcases whole with rfl | rfl
      · omega
      · simp only [List.length_append]
        omega
    have some_ : path ≠ [] := by
      cases spelled <;> exact List.cons_ne_nil _ _
    simp [parse, cut, parseSteps_of_spelled spelled shorter, bind, Except.bind, some_]

theorem Path.Written.mono {P Q : Char → List Char → Prop} {path : Path} {s : List Char}
    (h : path.Written P s) (sub : ∀ q v, isQuote q = true → P q v → Q q v) : path.Written Q s := by
  obtain ⟨t, spelled, whole⟩ := h
  have step : ∀ {step s}, Step.Spelled P step s → Step.Spelled Q step s := by
    rintro step _ ⟨name, arranged, bracketed⟩
    exact .intro name arranged (bracketed.mono sub)
  refine ⟨t, ?_, whole⟩
  clear whole
  induction spelled with
  | last spelled => exact .last (step spelled)
  | cons spelled unranked _ ih => exact .cons (step spelled) unranked ih

theorem parse_of_plain {s : List Char} {path : Path} (h : path.Written Plain s) :
    parse s = .ok path := parse_eq_ok.2 (h.mono fun _ _ quote plain => plain.closed quote)

end Toolwright.XPath

namespace Toolwright.Selector

open XPath (Closed Plain)

/-- What of a text that begins with a slash is taken: the paths of the grammar, except that an
operand may contain its own quote when it is closed and opened again. -/
theorem compile_path_eq_ok (s : List Char) (c : Compiled) :
    compile ('/' :: s) = .ok c ↔ ∃ path : XPath.Path,
      path.Written Closed (Text.trim ('/' :: s)) ∧ c = ⟨path.css, path.rank⟩ := by
  obtain ⟨rest, slash⟩ : ∃ rest, Text.trim ('/' :: s) = '/' :: rest := by
    have start : Text.trimStart ('/' :: s) = '/' :: s :=
      Text.dropWhile_eq_self fun c hc => by cases hc; decide
    obtain ⟨b, -, whole⟩ := Text.exists_trimEnd ('/' :: s)
    rw [Text.trim, start]
    cases cut : Text.trimEnd ('/' :: s) with
    | nil =>
      obtain ⟨b, blanks, whole⟩ := Text.exists_trimEnd ('/' :: s)
      rw [cut, List.nil_append] at whole
      exact absurd (blanks '/' (by simp [← whole])) (by decide)
    | cons c rest =>
      rw [cut] at whole
      cases whole
      exact ⟨rest, rfl⟩
  simp only [compile, slash]
  cases read : XPath.parse ('/' :: rest) with
  | error p =>
    constructor
    · intro h
      cases h
    · rintro ⟨path, written, -⟩
      cases read.symm.trans (XPath.parse_eq_ok.2 written)
  | ok path =>
    constructor
    · rintro ⟨⟩
      exact ⟨path, XPath.parse_eq_ok.1 read, rfl⟩
    · rintro ⟨path', written, rfl⟩
      cases read.symm.trans (XPath.parse_eq_ok.2 written)
      rfl

def joinedTests : List Char := "//div[@a='x' or @b='y']".toList

/-- They are taken for one test with an odd operand. -/
theorem compile_joinedTests :
    compile joinedTests = .ok ⟨"div[a=\"x' or @b='y\"]".toList, none⟩ ∧
      ¬ ∃ path : XPath.Path, path.Written Plain (Text.trim joinedTests) := by
  refine ⟨by rfl, ?_⟩
  rintro ⟨path, written⟩
  have read : XPath.parse (Text.trim joinedTests) = .ok
      [⟨true, .name "div".toList, [.test (.equals ['a'] "x' or @b='y".toList)], none⟩] := by rfl
  cases (XPath.parse_of_plain written).symm.trans read
  have single : '"' ∉ Text.trim joinedTests := by decide +kernel
  obtain ⟨t, spelled, whole⟩ := written
  have single : '"' ∉ t := by
    intro mem
    rcases whole with whole | whole <;> rw [whole] at single
    · exact single mem
    · exact single (List.mem_append_left _ mem)
  cases spelled with
  | cons _ _ more => cases more
  | last spelled =>
    obtain ⟨-, -, bracketed⟩ := spelled
    cases bracketed with
    | cons spelled =>
      cases spelled with
      | test spelled =>
        cases spelled with
        | equals _ quoted =>
          obtain ⟨quote, operand⟩ := quoted
          rename_i q
          rcases (by simpa [XPath.isQuote] using quote : q = '\'' ∨ q = '"') with rfl | rfl
          · exact operand (by decide)
          · exact single (by simp)

end Toolwright.Selector
