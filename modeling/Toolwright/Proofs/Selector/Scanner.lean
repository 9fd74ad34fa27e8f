import Mathlib.Logic.Relation
import Toolwright.Proofs.Selector.Reader

/-!
The two scanners of location paths stay in step. The one that splits off a step counts open
brackets, the one that looks for the end of a predicate does not; both leave out what stands in
quotes. A step is split off exactly where its quotes and brackets are balanced, and in such a step
every predicate that is begun is ended. A path that begins with a slash never wants another one, and
both readers have less text left after every pass.
-/

namespace Toolwright.XPath

/-- Quotes are closed and brackets outside quotes match. In a text that is `cut` at slashes none
stands outside quotes and brackets. -/
inductive Balanced : Bool → List Char → Prop
  | nil {cut : Bool} : Balanced cut []
  | plain {cut : Bool} {c : Char} {rest : List Char} (quote : isQuote c = false) (opening : c ≠ '[')
      (closing : c ≠ ']') (slash : cut = true → c ≠ '/') (more : Balanced cut rest) :
      Balanced cut (c :: rest)
  | quoted {cut : Bool} {q : Char} {body rest : List Char} (quote : isQuote q = true)
      (inside : q ∉ body) (more : Balanced cut rest) : Balanced cut (q :: (body ++ q :: rest))
  | nested {cut : Bool} {inner rest : List Char} (inside : Balanced false inner)
      (more : Balanced cut rest) : Balanced cut ('[' :: (inner ++ ']' :: rest))

/-- A text that closes as many brackets as are open in front of it, and is balanced otherwise. -/
def Closes : Nat → List Char → Prop
  | 0, s => Balanced true s
  | depth + 1, s =>
    ∃ inner rest, Balanced false inner ∧ s = inner ++ ']' :: rest ∧ Closes depth rest

/-- The same for a text that a quote may be open in front of. -/
def ClosesFrom (depth : Nat) : Option Char → List Char → Prop
  | none, s => Closes depth s
  | some q, s => ∃ body rest, q ∉ body ∧ s = body ++ q :: rest ∧ Closes depth rest

section Closing

variable {depth : Nat} {c q : Char} {s t body : List Char}

theorem Closes.plain (quote : isQuote c = false) (opening : c ≠ '[') (closing : c ≠ ']')
    (slash : depth = 0 → c ≠ '/') (h : Closes depth s) : Closes depth (c :: s) := by
  cases depth with
  | zero => exact Balanced.plain quote opening closing (fun _ => slash rfl) h
  | succ depth =>
    obtain ⟨inner, rest, inside, rfl, more⟩ := h
    exact ⟨c :: inner, rest, .plain quote opening closing nofun inside, rfl, more⟩

theorem Closes.quoted (quote : isQuote q = true) (inside : q ∉ body) (h : Closes depth s) :
    Closes depth (q :: (body ++ q :: s)) := by
  cases depth with
  | zero => exact Balanced.quoted quote inside h
  | succ depth =>
    obtain ⟨inner, rest, balanced, rfl, more⟩ := h
    exact ⟨q :: (body ++ q :: inner), rest, .quoted quote inside balanced, by simp, more⟩

theorem Closes.opened (h : Closes (depth + 1) s) : Closes depth ('[' :: s) := by
  obtain ⟨inner, rest, inside, rfl, more⟩ := h
  cases depth with
  | zero => exact Balanced.nested inside more
  | succ depth =>
    obtain ⟨next, behind, balanced, rfl, others⟩ := more
    exact ⟨'[' :: (inner ++ ']' :: next), behind, .nested inside balanced, by simp, others⟩

theorem Closes.closed (h : Closes depth s) : Closes (depth + 1) (']' :: s) :=
  ⟨[], s, .nil, rfl, h⟩

end Closing

section Steps

variable {depth : Nat} {q : Option Char} {s step rest : List Char}

theorem scanStep_cons_eq_ok {c : Char} {tail : List Char}
    (h : scanStep depth none (c :: tail) = .ok (step, rest)) :
    (isQuote c = true ∧ ∃ more, step = c :: more ∧
      scanStep depth (some c) tail = .ok (more, rest)) ∨
    (c = '[' ∧ ∃ more, step = c :: more ∧ scanStep (depth + 1) none tail = .ok (more, rest)) ∨
    (c = ']' ∧ ∃ outer more, depth = outer + 1 ∧ step = c :: more ∧
      scanStep outer none tail = .ok (more, rest)) ∨
    (depth = 0 ∧ step = []) ∨
    (isQuote c = false ∧ c ≠ '[' ∧ c ≠ ']' ∧ (depth = 0 → c ≠ '/') ∧
      ∃ more, step = c :: more ∧ scanStep depth none tail = .ok (more, rest)) := by
  simp only [scanStep] at h
  split at h
  · next quote => exact .inl ⟨quote, prepend_eq_ok h⟩
  · next quote =>
    split at h
    · next opening => exact .inr (.inl ⟨opening, prepend_eq_ok h⟩)
    · next opening =>
      split at h
      · next closing =>
        cases depth with
        | zero => cases h
        | succ outer =>
          obtain ⟨more, same, scanned⟩ := prepend_eq_ok h
          exact .inr (.inr (.inl ⟨closing, outer, more, rfl, same, scanned⟩))
      · next closing =>
        split at h
        · next slash =>
          cases h
          exact .inr (.inr (.inr (.inl ⟨slash.2, rfl⟩)))
        · next slash =>
          exact .inr (.inr (.inr (.inr ⟨by simpa using quote, opening, closing,
            fun top same => slash ⟨same, top⟩, prepend_eq_ok h⟩)))

theorem closesFrom_of_scanStep (h : scanStep depth q s = .ok (step, rest)) :
    ClosesFrom depth q step := by
  induction s generalizing depth q step with
  | nil =>
    simp only [scanStep] at h
    split at h
    · cases h
    · next done =>
      cases h
      obtain ⟨rfl, rfl⟩ : depth = 0 ∧ q = none := by simpa using done
      exact Balanced.nil
  | cons c tail ih =>
    cases q with
    | some d =>
      obtain ⟨more, rfl, scanned⟩ := prepend_eq_ok h
      have behind := ih scanned
      split at behind
      · next last =>
        subst last
        exact ⟨[], more, List.not_mem_nil, rfl, behind⟩
      · next inside =>
        obtain ⟨body, rest, apart, rfl, closes⟩ := behind
        exact ⟨c :: body, rest, List.not_mem_cons_of_ne_of_not_mem (Ne.symm inside) apart,
          rfl, closes⟩
    | none =>
      rcases scanStep_cons_eq_ok h with ⟨quote, more, rfl, scanned⟩ | ⟨rfl, more, rfl, scanned⟩ |
        ⟨rfl, outer, more, rfl, rfl, scanned⟩ | ⟨rfl, rfl⟩ |
        ⟨quote, opening, closing, slash, more, rfl, scanned⟩
      · obtain ⟨body, rest, apart, rfl, closes⟩ := ih scanned
        exact closes.quoted quote apart
      · exact (show Closes (depth + 1) more from ih scanned).opened
      · exact (show Closes outer more from ih scanned).closed
      · exact Balanced.nil
      · exact (show Closes depth more from ih scanned).plain quote opening closing slash

@[simp] theorem prefixed_nil (scanned : Except Problem (List Char × List Char)) :
    prefixed [] scanned = scanned := by
  cases scanned <;> rfl

theorem scanStep_quoted {c : Char} {body : List Char} (inside : c ∉ body) (rest : List Char) :
    scanStep depth (some c) (body ++ c :: rest) =
      prefixed (body ++ [c]) (scanStep depth none rest) := by
  induction body with
  | nil => rw [List.nil_append, scanStep, if_pos rfl, prepend_eq, List.nil_append]
  | cons d body ih =>
    obtain ⟨first, apart⟩ := List.ne_and_not_mem_of_not_mem_cons inside
    rw [List.cons_append, scanStep, if_neg first.symm, ih apart, prepend_eq, prefixed_prefixed]
    rfl

theorem Balanced.scanStep_append {cut : Bool} (h : Balanced cut s) (where_ : cut = true ∨ depth ≠ 0)
    (rest : List Char) :
    scanStep depth none (s ++ rest) = prefixed s (scanStep depth none rest) := by
  induction h generalizing depth rest with
  | nil => rw [List.nil_append, prefixed_nil]
  | plain quote opening closing slash more ih =>
    have goes : ¬ (_ = '/' ∧ depth = 0) := fun ⟨same, top⟩ =>
      slash (where_.resolve_right (not_not.2 top)) same
    simp only [List.cons_append, scanStep, quote, Bool.false_eq_true, opening, closing, goes,
      if_false, ih where_, prepend_eq, prefixed_prefixed, List.nil_append]
  | @quoted cut q body behind quote inside more ih =>
    have whole : q :: (body ++ q :: behind) ++ rest =
        q :: (body ++ q :: (behind ++ rest)) := by simp
    rw [whole]
    simp only [scanStep, quote, if_true, scanStep_quoted inside, ih where_, prepend_eq,
      prefixed_prefixed]
    simp
  | @nested cut inner behind inside more ihInside ihMore =>
    have whole : '[' :: (inner ++ ']' :: behind) ++ rest =
        '[' :: (inner ++ ']' :: (behind ++ rest)) := by
      simp
    have close : scanStep (depth + 1) none (']' :: (behind ++ rest)) =
        scanStep.prepend ']' (scanStep depth none (behind ++ rest)) := rfl
    have open_ : ∀ text, scanStep depth none ('[' :: text) =
        scanStep.prepend '[' (scanStep (depth + 1) none text) := fun _ => rfl
    rw [whole, open_, ihInside (.inr (Nat.succ_ne_zero depth)), close, ihMore where_]
    simp only [prepend_eq, prefixed_prefixed]
    simp

theorem Balanced.head_ne {c : Char} {more : List Char} (h : Balanced true (c :: more)) :
    c ≠ '/' := by
  cases h with
  | plain _ _ _ slash => exact slash rfl
  | quoted quote =>
    rintro rfl
    exact absurd quote (by decide)
  | nested => decide

theorem splitStep_eq_ok : splitStep s = .ok (step, rest) ↔
    s = step ++ rest ∧ step ≠ [] ∧ Balanced true step ∧
      (rest = [] ∨ ∃ more, rest = '/' :: more) := by
  constructor
  · intro h
    have begins : (∀ c ∈ s.head?, c ≠ '/') ∧ s ≠ [] ∧ scanStep 0 none s = .ok (step, rest) := by
      unfold splitStep at h
      split at h
      · cases h
      · cases h
      · next some_ other =>
        refine ⟨fun c hc same => ?_, fun empty => some_ empty, h⟩
        obtain ⟨tail, rfl⟩ := List.head?_eq_some_iff.1 hc
        exact other tail (by rw [same])
    obtain ⟨first, some_, scanned⟩ := begins
    obtain ⟨rfl, head, -, -⟩ := scanStep_eq_ok scanned
    refine ⟨rfl, ?_, closesFrom_of_scanStep scanned, ?_⟩
    · rintro rfl
      cases rest with
      | nil => exact some_ rfl
      | cons c more => exact first c rfl (head c rfl)
    · cases rest with
      | nil => exact .inl rfl
      | cons c more => exact .inr ⟨more, by rw [head c rfl]⟩
  · rintro ⟨rfl, some_, balanced, ends⟩
    have last : scanStep 0 none rest = .ok ([], rest) := by
      rcases ends with rfl | ⟨more, rfl⟩ <;> rfl
    have scanned : scanStep 0 none (step ++ rest) = .ok (step, rest) := by
      rw [balanced.scanStep_append (.inl rfl), last]
      simp [prefixed, Except.map]
    cases step with
    | nil => exact absurd rfl some_
    | cons c more =>
      unfold splitStep
      split
      · next same => cases same
      · next same =>
        cases same
        exact absurd rfl balanced.head_ne
      · exact scanned

theorem splitStep_ne_slashWanted (wanted : List Char) :
    splitStep s ≠ .error (.slashWanted wanted) := by
  have scan : ∀ {depth q} {s : List Char}, scanStep depth q s ≠ .error (.slashWanted wanted) := by
    have prepend : ∀ {c scanned}, scanned ≠ .error (.slashWanted wanted) →
        scanStep.prepend c scanned ≠ .error (.slashWanted wanted) := by
      intro c scanned other
      cases scanned with
      | error problem => exact fun same => other (congrArg Except.error (Except.error.inj same))
      | ok parts => nofun
    intro depth q s
    fun_induction scanStep depth q s <;> first | exact prepend ‹_› | nofun
  unfold splitStep
  split
  · nofun
  · nofun
  · exact scan

end Steps

section Predicates

variable {s rest inner : List Char} {q : Option Char} {problem : Problem}

theorem exists_scanPredicate (h : ']' ∈ outside q s) :
    ∃ body rest, scanPredicate q s = some (body, rest) := by
  induction s generalizing q with
  | nil => cases q <;> cases h
  | cons c tail ih =>
    have further : ∀ q', ']' ∈ outside q' tail →
        ∃ body rest, scanPredicate.prepend c (scanPredicate q' tail) = some (body, rest) := by
      intro q' inside
      obtain ⟨body, rest, scanned⟩ := ih inside
      exact ⟨c :: body, rest, by rw [scanned]; rfl⟩
    cases q with
    | some d => exact further _ h
    | none =>
      rw [scanPredicate]
      split
      · exact ⟨[], tail, rfl⟩
      · next other =>
        refine further _ ?_
        rw [outside] at h
        split at h
        · next quote => rwa [if_pos quote]
        · next quote =>
          rw [if_neg quote]
          exact (List.mem_cons.1 h).resolve_left (Ne.symm other)

/-- Outside quotes no more brackets are opened than closed. -/
def Covered (s : List Char) : Prop := (outside none s).count '[' ≤ (outside none s).count ']'

/-- One pass of the reader of predicates: what is left behind the bracket that ends the first
one. -/
inductive PredicatePass : List Char → List Char → Prop
  | intro {inner body rest : List Char} (scanned : scanPredicate none inner = some (body, rest)) :
      PredicatePass ('[' :: inner) rest

theorem PredicatePass.length_lt (h : PredicatePass s rest) : rest.length < s.length := by
  obtain ⟨scanned⟩ := h
  obtain ⟨-, -, rfl⟩ := scanPredicate_eq_some.1 scanned
  simp only [List.length_cons, List.length_append]
  omega

theorem PredicatePass.covered (h : PredicatePass s rest) (covered : Covered s) : Covered rest := by
  obtain ⟨scanned⟩ := h
  obtain ⟨closed, closing, rfl⟩ := scanPredicate_eq_some.1 scanned
  rw [Covered, outside_bracketed closed] at covered
  simp only [List.count_cons, List.count_append, List.count_eq_zero.2 closing] at covered
  simp at covered
  unfold Covered
  omega

theorem Covered.exists_scanPredicate (covered : Covered ('[' :: inner)) :
    ∃ body rest, scanPredicate none inner = some (body, rest) := by
  refine XPath.exists_scanPredicate (List.count_pos_iff.1 ?_)
  have begun : outside none ('[' :: inner) = '[' :: outside none inner := rfl
  rw [Covered, begun, List.count_cons_self, List.count_cons_of_ne (by decide)] at covered
  omega

/-- What is left of a step when its name test and some predicates have been read. -/
def LeftOf (step left : List Char) : Prop :=
  (step.takeWhile (· != '[') = ['*'] ∨ isName (step.takeWhile (· != '[')) = true) ∧
    Relation.ReflTransGen PredicatePass (step.dropWhile (· != '[')) left

theorem covered_of_splitStep {step : List Char} (h : splitStep s = .ok (step, rest))
    (name : step.takeWhile (· != '[') = ['*'] ∨ isName (step.takeWhile (· != '[')) = true) :
    Covered (step.dropWhile (· != '[')) := by
  have counts : (outside none step).count '[' = (outside none step).count ']' := by
    obtain ⟨rfl, some_, balanced, -⟩ := splitStep_eq_ok.1 h
    have scanned : scanStep 0 none (step ++ []) = .ok (step, []) := by
      rw [balanced.scanStep_append (.inl rfl)]
      simp [prefixed, Except.map, scanStep]
    obtain ⟨-, -, -, counts⟩ := scanStep_eq_ok scanned
    rwa [Nat.zero_add] at counts
  obtain ⟨plain, -, -, -⟩ := (NameTest.spelled_of name).plain
  have quotes : ∀ c ∈ step.takeWhile (· != '['), isQuote c = false := fun c hc => (plain c hc).1
  have opening : (step.takeWhile (· != '[')).count '[' = 0 :=
    List.count_eq_zero.2 fun mem => (plain _ mem).2.1 rfl
  have closing : (step.takeWhile (· != '[')).count ']' = 0 :=
    List.count_eq_zero.2 fun mem => (plain _ mem).2.2 rfl
  rw [← List.takeWhile_append_dropWhile (p := (· != '[')) (l := step), outside_append,
    outside_of_forall quotes, quoteAfter_of_forall quotes, List.count_append, List.count_append,
    opening, closing, Nat.zero_add, Nat.zero_add] at counts
  exact counts.le

theorem LeftOf.covered {step left : List Char} (h : splitStep s = .ok (step, rest))
    (walk : LeftOf step left) : Covered left := by
  obtain ⟨name, passes⟩ := walk
  induction passes with
  | refl => exact covered_of_splitStep h name
  | tail _ pass ih => exact pass.covered ih

end Predicates

def Problem.inPredicate : Problem → Bool
  | .unexpected _ | .afterRank _ | .positionRange _ | .unquotedValue _ | .unsupportedTest _
  | .unsupportedPredicate _ => true
  | _ => false

section Reading

variable {fuel fuel' : Nat} {found : List Predicate} {rank : Option Nat} {s inner p : List Char}
  {problem : Problem}

theorem parsePosition_error (h : parsePosition p = .error problem) :
    problem.inPredicate = true := by
  unfold parsePosition at h
  split at h
  · cases h
  · dsimp only at h
    split at h
    · cases h
    · cases h
      rfl

theorem parseTest_error (h : parseTest p = .error problem) : problem.inPredicate = true := by
  unfold parseTest attributeTest at h
  repeat' split at h
  all_goals cases h
  all_goals rfl

theorem parsePredicates_bracket : parsePredicates (fuel + 1) found rank ('[' :: inner) =
    match scanPredicate none inner with
    | none => .error .unterminatedPredicate
    | some (body, rest) =>
      if rank.isSome then .error (.afterRank (Text.trim body))
      else
        match parsePosition (Text.trim body) with
        | .error problem => .error problem
        | .ok (some n) =>
          if found = [] then parsePredicates fuel [.position n] none rest
          else parsePredicates fuel found (some n) rest
        | .ok none =>
          match parseTest (Text.trim body) with
          | .error problem => .error problem
          | .ok test => parsePredicates fuel (found ++ [.test test]) none rest := by
  simp only [parsePredicates]
  cases scanPredicate none inner with
  | none => rfl
  | some parts =>
    dsimp only
    split
    · rfl
    · cases parsePosition (Text.trim parts.1) with
      | error problem => rfl
      | ok number =>
        cases number with
        | some n => rfl
        | none => cases parseTest (Text.trim parts.1) <;> rfl

theorem parsePredicates_other {c : Char} (other : c ≠ '[') :
    parsePredicates fuel found rank (c :: inner) = .error (.unexpected (c :: inner)) := by
  cases fuel with
  | zero => rfl
  | succ fuel =>
    unfold parsePredicates
    split
    · next same =>
      cases same
      exact absurd rfl other
    · rfl

theorem parsePredicates_enough (enough : s.length ≤ fuel) (enough' : s.length ≤ fuel') :
    parsePredicates fuel found rank s = parsePredicates fuel' found rank s := by
  induction fuel generalizing fuel' found rank s with
  | zero =>
    obtain rfl := List.eq_nil_of_length_eq_zero (Nat.le_zero.1 enough)
    cases fuel' <;> rfl
  | succ fuel ih =>
    cases s with
    | nil => cases fuel' <;> rfl
    | cons c inner =>
      cases fuel' with
      | zero => exact absurd enough' (by simp)
      | succ fuel' =>
        by_cases opening : c = '['
        · subst opening
          rw [parsePredicates_bracket, parsePredicates_bracket]
          cases scanned : scanPredicate none inner with
          | none => rfl
          | some parts =>
            have shorter := (PredicatePass.intro scanned).length_lt
            have behind : ∀ found rank, parsePredicates fuel found rank parts.2 =
                parsePredicates fuel' found rank parts.2 :=
              fun found rank => ih (by omega) (by omega)
            simp only [behind]
        · rw [parsePredicates_other opening, parsePredicates_other opening]

theorem parsePredicates_error (covered : Covered s)
    (h : parsePredicates fuel found rank s = .error problem) : problem.inPredicate = true := by
  induction fuel generalizing found rank s with
  | zero =>
    cases s with
    | nil => cases h
    | cons c inner =>
      cases h
      rfl
  | succ fuel ih =>
    cases s with
    | nil => cases h
    | cons c inner =>
      by_cases opening : c = '['
      · subst opening
        -- a covered text closes what it opens, and what is left behind the bracket is covered
        obtain ⟨body, rest, scanned⟩ := covered.exists_scanPredicate
        have behind := (PredicatePass.intro scanned).covered covered
        rw [parsePredicates_bracket, scanned] at h
        dsimp only at h
        split at h
        · cases h
          rfl
        · split at h
          · next position =>
            cases h
            exact parsePosition_error position
          · split at h
            · exact ih behind h
            · exact ih behind h
          · split at h
            · next test =>
              cases h
              exact parseTest_error test
            · exact ih behind h
      · rw [parsePredicates_other opening] at h
        cases h
        rfl

theorem parseStep_error {descendant : Bool} {step rest : List Char}
    (split_ : splitStep s = .ok (step, rest)) (h : parseStep descendant step = .error problem) :
    problem = .unsupportedStep step ∨ problem.inPredicate = true := by
  unfold parseStep at h
  dsimp only at h
  split at h
  · next name =>
    cases read : parsePredicates ((step.dropWhile (· != '[')).length + 1) [] none
        (step.dropWhile (· != '[')) with
    | ok parts =>
      rw [read] at h
      cases h
    | error other =>
      rw [read] at h
      cases h
      exact .inr (parsePredicates_error (covered_of_splitStep split_ name) read)
  · cases h
    exact .inl rfl

end Reading

section Paths

variable {fuel fuel' : Nat} {ranked descendant : Bool} {s start rest : List Char}

theorem splitSlashes_eq_ok (h : splitSlashes s = .ok (descendant, start)) :
    s = slashes descendant ++ start := by
  unfold splitSlashes at h
  split at h
  · cases h
    rfl
  · cases h
    rfl
  · cases h

theorem exists_splitSlashes (tail : List Char) :
    ∃ descendant start, splitSlashes ('/' :: tail) = .ok (descendant, start) := by
  unfold splitSlashes
  split
  · exact ⟨_, _, rfl⟩
  · exact ⟨_, _, rfl⟩
  · next other => exact absurd rfl (other tail)

/-- One pass of the reader of steps: what is left behind the step that the text begins with. -/
inductive StepPass : List Char → List Char → Prop
  | intro {descendant : Bool} {s start step rest : List Char}
      (slashes : splitSlashes s = .ok (descendant, start))
      (split : splitStep start = .ok (step, rest)) : StepPass s rest

theorem StepPass.length_lt (h : StepPass s rest) : rest.length < s.length := by
  obtain ⟨slashed, split_⟩ := h
  obtain rfl := splitSlashes_eq_ok slashed
  obtain ⟨rfl, some_, -, -⟩ := splitStep_eq_ok.1 split_
  have step := List.length_pos_of_ne_nil some_
  simp only [List.length_append]
  omega

theorem StepPass.head (h : StepPass s rest) : rest = [] ∨ ∃ more, rest = '/' :: more := by
  obtain ⟨-, split_⟩ := h
  exact (splitStep_eq_ok.1 split_).2.2.2

theorem parseSteps_slash {tail : List Char} : parseSteps (fuel + 1) ranked ('/' :: tail) =
    match splitSlashes ('/' :: tail) with
    | .error problem => .error problem
    | .ok (descendant, start) =>
      match splitStep start with
      | .error problem => .error problem
      | .ok (text, rest) =>
        if ranked then .error .rankBeforeStep
        else
          match parseStep descendant text with
          | .error problem => .error problem
          | .ok step => (parseSteps fuel step.rank.isSome rest).map (step :: ·) := by
  simp only [parseSteps, bind, Except.bind]
  cases splitSlashes ('/' :: tail) with
  | error problem => rfl
  | ok begun =>
    dsimp only
    cases splitStep begun.2 with
    | error problem => rfl
    | ok cut =>
      dsimp only
      split
      · rfl
      · cases parseStep begun.1 cut.1 with
        | error problem => rfl
        | ok step =>
          dsimp only
          cases parseSteps fuel step.rank.isSome cut.2 <;> rfl

theorem parseSteps_enough (enough : s.length ≤ fuel) (enough' : s.length ≤ fuel') :
    parseSteps fuel ranked s = parseSteps fuel' ranked s := by
  induction fuel generalizing fuel' ranked s with
  | zero =>
    obtain rfl := List.eq_nil_of_length_eq_zero (Nat.le_zero.1 enough)
    rw [parseSteps_nil, parseSteps_nil]
  | succ fuel ih =>
    cases s with
    | nil => rw [parseSteps_nil, parseSteps_nil]
    | cons c tail =>
      cases fuel' with
      | zero => exact absurd enough' (by simp)
      | succ fuel' =>
        by_cases slash : c = '/'
        · subst slash
          rw [parseSteps_slash, parseSteps_slash]
          cases slashed : splitSlashes ('/' :: tail) with
          | error problem => rfl
          | ok begun =>
            cases split_ : splitStep begun.2 with
            | error problem => simp only [split_]
            | ok cut =>
              -- less text is left than either bound still allows
              have shorter := (StepPass.intro slashed split_).length_lt
              have behind : ∀ ranked, parseSteps fuel ranked cut.2 =
                  parseSteps fuel' ranked cut.2 :=
                fun ranked => ih (by omega) (by omega)
              simp only [split_, behind]
        · have wanted : splitSlashes (c :: tail) = .error (.slashWanted (c :: tail)) := by
            unfold splitSlashes
            split
            · next same =>
              cases same
              exact absurd rfl slash
            · next same =>
              cases same
              exact absurd rfl slash
            · rfl
          simp only [parseSteps, wanted, bind, Except.bind]

theorem parseSteps_ne_slashWanted (enough : s.length ≤ fuel)
    (head : s = [] ∨ ∃ tail, s = '/' :: tail) (wanted : List Char) :
    parseSteps fuel ranked s ≠ .error (.slashWanted wanted) := by
  induction fuel generalizing ranked s with
  | zero =>
    obtain rfl := List.eq_nil_of_length_eq_zero (Nat.le_zero.1 enough)
    nofun
  | succ fuel ih =>
    rcases head with rfl | ⟨tail, rfl⟩
    · nofun
    · obtain ⟨descendant, start, slashed⟩ := exists_splitSlashes tail
      rw [parseSteps_slash, slashed]
      dsimp only
      cases split_ : splitStep start with
      | error problem =>
        rintro ⟨⟩
        exact splitStep_ne_slashWanted wanted split_
      | ok cut =>
        dsimp only
        split
        · nofun
        · cases read : parseStep descendant cut.1 with
          | error problem =>
            rintro ⟨⟩
            rcases parseStep_error split_ read with name | predicate
            · cases name
            · cases predicate
          | ok step =>
            -- a step leaves nothing or a text that begins with a slash, and less than there was
            have pass := StepPass.intro slashed split_
            have shorter := pass.length_lt
            have behind : parseSteps fuel step.rank.isSome cut.2 ≠ .error (.slashWanted wanted) :=
              ih (by omega) pass.head
            dsimp only
            cases more : parseSteps fuel step.rank.isSome cut.2 with
            | error problem =>
              rintro ⟨⟩
              exact behind more
            | ok path => nofun

theorem withoutText_slash (s : List Char) :
    (withoutText ('/' :: s)).length ≤ s.length + 1 ∧
      (withoutText ('/' :: s) = [] ∨ ∃ tail, withoutText ('/' :: s) = '/' :: tail) := by
  unfold withoutText
  cases cut : List.isSuffixOf? "/text()".toList ('/' :: s) with
  | none => exact ⟨Nat.le_refl _, .inr ⟨s, rfl⟩⟩
  | some front =>
    have whole := List.isSuffixOf?_eq_some_iff_append_eq.1 cut
    have lengths := congrArg List.length whole
    simp only [List.length_append, List.length_cons] at lengths
    refine ⟨by simp only [Option.getD_some]; omega, ?_⟩
    cases front with
    | nil => exact .inl rfl
    | cons c tail =>
      obtain rfl : c = '/' := (List.cons.inj whole).1
      exact .inr ⟨tail, rfl⟩

theorem parse_ne_slashWanted (s wanted : List Char) :
    parse ('/' :: s) ≠ .error (.slashWanted wanted) := by
  obtain ⟨shorter, head⟩ := withoutText_slash s
  have steps : parseSteps (('/' :: s).length + 1) false (withoutText ('/' :: s)) ≠
      .error (.slashWanted wanted) :=
    parseSteps_ne_slashWanted (by simp only [List.length_cons]; omega) head wanted
  unfold parse
  cases read : parseSteps (('/' :: s).length + 1) false (withoutText ('/' :: s)) with
  | error problem =>
    rintro ⟨⟩
    exact steps read
  | ok path =>
    simp only [bind, Except.bind]
    split <;> nofun

end Paths

/-- Steps are split off where they are balanced; in such a step every predicate that is begun is
ended, so that none is found to be open when it is read; no path wants a second slash to begin with;
and the loops of both readers end, because every pass leaves a shorter text. -/
theorem scanners_agree :
    (∀ s step rest, splitStep s = .ok (step, rest) ↔
      s = step ++ rest ∧ step ≠ [] ∧ Balanced true step ∧
      (rest = [] ∨ ∃ more, rest = '/' :: more)) ∧
    (∀ s step rest, splitStep s = .ok (step, rest) →
      (∀ inner, LeftOf step ('[' :: inner) →
        ∃ body behind, scanPredicate none inner = some (body, behind)) ∧
      ∀ descendant, parseStep descendant step ≠ .error .unterminatedPredicate) ∧
    (∀ s wanted, parse ('/' :: s) ≠ .error (.slashWanted wanted)) ∧
    (∀ s rest, StepPass s rest → rest.length < s.length) ∧
    (∀ s rest, PredicatePass s rest → rest.length < s.length) ∧
    (∀ s fuel ranked, s.length ≤ fuel → parseSteps fuel ranked s = parseSteps s.length ranked s) ∧
    (∀ s fuel found rank, s.length ≤ fuel →
      parsePredicates fuel found rank s = parsePredicates s.length found rank s) := by
  refine ⟨fun _ _ _ => splitStep_eq_ok, fun s step rest split_ => ⟨?_, ?_⟩, parse_ne_slashWanted,
    fun _ _ pass => pass.length_lt, fun _ _ pass => pass.length_lt, ?_, ?_⟩
  · intro inner left
    exact (left.covered split_).exists_scanPredicate
  · intro descendant h
    rcases parseStep_error split_ h with name | predicate
    · cases name
    · cases predicate
  · intro s fuel ranked enough
    exact parseSteps_enough enough (Nat.le_refl _)
  · intro s fuel found rank enough
    exact parsePredicates_enough enough (Nat.le_refl _)

/-- A step with a bracket in quotes and brackets in brackets, and another step. -/
def nestedSteps : List Char := "a[@t=']'][n[1]]/b".toList

theorem scanners_agree_nested : ∃ step rest,
    splitStep nestedSteps = .ok (step, rest) ∧ Balanced true step ∧
    LeftOf step "[n[1]]".toList ∧
    (∃ body behind, scanPredicate none "n[1]]".toList = some (body, behind)) ∧
    parseStep true step ≠ .error .unterminatedPredicate ∧
    StepPass ('/' :: nestedSteps) rest ∧ rest.length < nestedSteps.length + 1 ∧
    PredicatePass "[n[1]]".toList [']'] ∧ [']'].length < "[n[1]]".toList.length ∧
    parseSteps 50 false rest = parseSteps rest.length false rest ∧
    parsePredicates 50 [] none "[n[1]]".toList = parsePredicates 6 [] none "[n[1]]".toList := by
  obtain ⟨splits, finds, -, steps, predicates, enough, enough'⟩ := scanners_agree
  have split_ : splitStep nestedSteps = .ok ("a[@t=']'][n[1]]".toList, "/b".toList) := by rfl
  have first : PredicatePass "[@t=']'][n[1]]".toList "[n[1]]".toList :=
    have cut : scanPredicate none "@t=']'][n[1]]".toList =
        some ("@t=']'".toList, "[n[1]]".toList) := by rfl
    .intro cut
  have second : PredicatePass "[n[1]]".toList [']'] :=
    have cut : scanPredicate none "n[1]]".toList = some ("n[1".toList, [']']) := by rfl
    .intro cut
  have left : LeftOf "a[@t=']'][n[1]]".toList "[n[1]]".toList := ⟨.inr (by decide), .single first⟩
  have pass : StepPass ('/' :: nestedSteps) "/b".toList := .intro (by rfl) split_
  have found := finds _ _ _ split_
  exact ⟨_, _, split_, ((splits _ _ _).1 split_).2.2.1, left, found.1 _ left, found.2 true, pass,
    steps _ _ pass, second, predicates _ _ second, enough _ 50 false (by decide),
    enough' _ 50 [] none (by decide)⟩

end Toolwright.XPath
