import Toolwright.Proofs.Css.Match
import Toolwright.Proofs.Selector.Compiled

/-!
What a location path finds in a document. The path is followed from left to right: it begins at the
document, and each step goes from the elements found so far to their children or descendants and
keeps those that pass the name test and the predicates, one after the other. Names and values are
compared as in CSS.
-/

namespace Toolwright.XPath

open Html (Document Element Spot)
open Css (Simple)

/-- A value of an attribute in the form in which it is compared. -/
def comparable (e : Element) (attr value : List Char) : List Char :=
  if Css.CaseRule.ofAttribute.ignores .none (String.ofList attr) e then Css.small value else value

/-- The values that an element has for an attribute, in the form in which they are compared. -/
def valuesOf (e : Element) (attr : List Char) : List (List Char) :=
  (Css.attributesOf e .none (String.ofList attr)).map fun a => comparable e attr a.value.toList

def Test.passes (e : Element) : Test → Bool
  | .has a => !(valuesOf e a).isEmpty
  | .equals a v => (valuesOf e a).contains (comparable e a v)
  | .contains a v => (valuesOf e a).any (Text.occursIn (comparable e a v))
  | .startsWith a v => (valuesOf e a).any (comparable e a v).isPrefixOf

def NameTest.passes (e : Element) : NameTest → Bool
  | .any => true
  | .name n => e.name == Css.nameFor e (String.ofList n)

/-- The siblings that count for a position directly behind a name test: behind a name those of the
same type. -/
def NameTest.counts : NameTest → Spot → Spot → Bool
  | .any, _, _ => true
  | .name _, s, t => t.info.name == s.info.name && t.info.space = s.info.space

/-- Narrow down what is kept by one more predicate. A position keeps an element when the elements
kept so far that stand before it, among the children of the same parent, bring it to that place. -/
def Predicate.narrow (counts : Spot → Spot → Bool) (kept : Spot → Bool) : Predicate → Spot → Bool
  | .test t, s => kept s && t.passes s.info
  | .position n, s => kept s && (s.earlier.filter fun u => kept u && counts s u).length + 1 == n

def narrowed (name : NameTest) : List Predicate → Spot → Bool
  | [] => fun s => name.passes s.info
  | p :: more =>
    more.foldl (Predicate.narrow fun _ _ => true)
      (p.narrow name.counts fun s => name.passes s.info)

def Step.keeps (step : Step) : Spot → Bool := narrowed step.name step.written

def Step.from (step : Step) (s : Spot) : List Spot :=
  (if step.descendant then s.descendants else s.childElements).filter step.keeps

/-- Where a first step leads: to the children of the document or to any element. -/
def Step.start (step : Step) (d : Document) : List Spot :=
  (if step.descendant then d.all else d.tops).filter step.keeps

def Path.select (d : Document) : Path → List Spot
  | [] => []
  | first :: more => more.foldl (fun found step => found.flatMap step.from) (first.start d)

theorem filter_count {l : List Spot} {q : Spot → Bool} {c : Spot → Nat} {m : Nat} (n : Nat)
    (h : ∀ pre s post, l = pre ++ s :: post → q s = true → c s = m + (pre.filter q).length) :
    l.filter (fun s => q s && c s == m + n) = ((l.filter q)[n]?).toList := by
  -- `m` counts the members that were passed, so the count of the first one is `m` itself
  induction l generalizing m n with
  | nil => rfl
  | cons s rest ih =>
    cases here : q s with
    | false =>
      have others := ih (m := m) n fun pre t post split yes => by
        have count := h (s :: pre) t post (by rw [split, List.cons_append]) yes
        rwa [List.filter_cons_of_neg (by simp [here])] at count
      rw [List.filter_cons_of_neg (by simp [here]),
        List.filter_cons_of_neg (by simp [here]), others]
    | true =>
      have count := h [] s rest rfl here
      have behind : ∀ pre t post, rest = pre ++ t :: post → q t = true →
          c t = m + 1 + (pre.filter q).length := fun pre t post split yes => by
        have count := h (s :: pre) t post (by rw [split, List.cons_append]) yes
        rw [List.filter_cons_of_pos here, List.length_cons] at count
        omega
      rw [List.filter_cons_of_pos here]
      cases n with
      | zero =>
        have none : rest.filter (fun t => q t && c t == m + 0) = [] := by
          refine List.filter_eq_nil_iff.2 fun t ht same => ?_
          obtain ⟨pre, post, split⟩ := List.append_of_mem ht
          simp only [Bool.and_eq_true, beq_iff_eq] at same
          have := behind pre t post split same.1
          omega
        rw [List.filter_cons_of_pos (by simp [here, count]), none]
        rfl
      | succ n =>
        rw [List.filter_cons_of_neg (by simp [here, count]), List.getElem?_cons_succ,
          ← ih n behind, Nat.add_right_comm m 1 n]
        rfl

theorem filter_position (p : Spot) (kept : Spot → Bool) (n : Nat) :
    p.childElements.filter ((Predicate.position (n + 1)).narrow (fun _ _ => true) kept) =
      ((p.childElements.filter kept)[n]?).toList := by
  have count := filter_count (l := p.childElements) (q := kept) (m := 0)
    (c := fun s => (s.earlier.filter kept).length) n fun pre s post split _ => by
      simp [Html.earlier_of_forward split, Spot.backward]
  rw [← count]
  refine List.filter_congr fun s _ => ?_
  simp [Predicate.narrow]

theorem filter_position_name (p : Spot) (kept : Spot → Bool) (n : Nat) (m : List Char)
    (name : String) (space : Html.Space) :
    p.childElements.filter (fun s =>
        (Predicate.position (n + 1)).narrow (NameTest.name m).counts kept s &&
          (s.info.name == name && s.info.space = space)) =
      ((p.childElements.filter fun s =>
        kept s && (s.info.name == name && s.info.space = space))[n]?).toList := by
  have count := filter_count (l := p.childElements)
    (q := fun s => kept s && (s.info.name == name && s.info.space = space)) (m := 0)
    (c := fun s => (s.earlier.filter fun u =>
      kept u && (NameTest.name m).counts s u).length) n fun pre s post split yes => by
      simp only [Bool.and_eq_true, beq_iff_eq, decide_eq_true_eq] at yes
      simp [Html.earlier_of_forward split, Spot.backward, NameTest.counts, yes]
  rw [← count]
  refine List.filter_congr fun s _ => ?_
  rw [Predicate.narrow, Bool.and_right_comm, Nat.zero_add]
  simp

variable {s : Spot}

theorem valueMatches_eq (e : Element) (a v : List Char) (op : Css.Operator) :
    Css.valueMatches e .none (String.ofList a) op (String.ofList v) .ofAttribute =
      (valuesOf e a).any fun value => op.holds value (comparable e a v) := by
  rw [valuesOf, List.any_map]
  simp only [Css.valueMatches, comparable, String.toList_ofList]
  rfl

theorem comparable_isEmpty {e : Element} {a v : List Char} (h : v ≠ []) :
    (comparable e a v).isEmpty = false := by
  rw [comparable]
  split <;> simp [Css.small, h]

theorem holds_test {t : Test} (usual : t.Usual) : t.simple.holds s = t.passes s.info := by
  cases t with
  | has a =>
    rw [Test.simple, Css.Simple.holds, Test.passes, valuesOf, List.isEmpty_map]
  | equals a v =>
    rw [Test.simple, Css.Simple.holds, valueMatches_eq, Test.passes, List.contains_eq_any_beq]
    exact List.any_congr rfl fun value => BEq.comm
  | contains a v =>
    rw [Test.simple, Css.Simple.holds, valueMatches_eq, Test.passes]
    simp only [Css.Operator.holds, comparable_isEmpty usual.2, Bool.not_false, Bool.true_and]
  | startsWith a v =>
    rw [Test.simple, Css.Simple.holds, valueMatches_eq, Test.passes]
    simp only [Css.Operator.holds, comparable_isEmpty usual.2, Bool.not_false, Bool.true_and]

theorem holds_name (name : NameTest) : name.simple.holds s = name.passes s.info := by
  cases name with
  | any => rfl
  | name n => simp [NameTest.simple, Css.Simple.holds, NameTest.passes]

theorem reaches_iff (n i : Nat) : Css.reaches 0 n i = (i == n) := by
  by_cases same : i = n
  · subst same
    simp [Css.reaches, Css.isWord]
  · have apart : ¬ (i : Int) - n = 0 := by omega
    simp [Css.reaches, apart, same]

theorem passes_of_counts {n : List Char} {t : Spot}
    (passes : (NameTest.name n).passes s.info = true)
    (counts : (NameTest.name n).counts s t = true) : (NameTest.name n).passes t.info = true := by
  simp only [NameTest.counts, Bool.and_eq_true, beq_iff_eq, decide_eq_true_eq] at counts
  have same : Css.isHtml t.info = Css.isHtml s.info := by simp [Css.isHtml, counts.2]
  simpa only [NameTest.passes, Css.nameFor, same, counts.1] using passes

theorem holds_position (name : NameTest) (n : Nat) :
    (name.passes s.info && (Simple.nth name.counting 0 n).holds s) =
      (Predicate.position n).narrow name.counts (fun s => name.passes s.info) s := by
  rw [Simple.holds, reaches_iff, Predicate.narrow]
  cases name with
  | any => simp [NameTest.passes, NameTest.counting, NameTest.counts, Css.position]
  | name m =>
    cases passes : (NameTest.name m).passes s.info with
    | false => rfl
    | true =>
      have same : (s.earlier.filter fun u =>
            (NameTest.name m).passes u.info && (NameTest.name m).counts s u) =
          s.earlier.filter fun u => (NameTest.name m).counts s u := by
        refine List.filter_congr fun u _ => ?_
        cases counts : (NameTest.name m).counts s u with
        | false => rw [Bool.and_false]
        | true => rw [passes_of_counts passes counts, Bool.and_true]
      rw [same]
      rfl

/-- The elements that pass the predicates of a step, its rank left aside. -/
def Step.kept (step : Step) : Spot → Bool := narrowed step.name step.predicates

theorem foldl_narrow (name : NameTest) {counts : Spot → Spot → Bool} {kept : Spot → Bool}
    {tests : List Predicate} (all : ∀ p ∈ tests, p.Usual ∧ ∃ t, p = .test t) :
    tests.foldl (Predicate.narrow counts) kept s =
      (kept s && (tests.map (Predicate.simple name)).all (Simple.holds s)) := by
  induction tests generalizing kept with
  | nil => simp
  | cons p rest ih =>
    obtain ⟨⟨usual, t, rfl⟩, others⟩ := List.forall_mem_cons.1 all
    have here : (Predicate.simple name (.test t)).holds s = t.passes s.info := holds_test usual
    rw [List.foldl_cons, ih others, List.map_cons, List.all_cons, here, Predicate.narrow,
      Bool.and_assoc]

theorem all_simples {step : Step} (arranged : Arranged step.predicates step.rank)
    (usual : ∀ p ∈ step.predicates, p.Usual) :
    step.simples.all (Simple.holds s) = step.kept s := by
  obtain ⟨tests, -⟩ := arranged
  rw [Step.simples, Step.kept, List.all_cons, holds_name]
  cases predicates : step.predicates with
  | nil => simp [narrowed]
  | cons p rest =>
    rw [predicates] at tests usual
    obtain ⟨here, others⟩ := List.forall_mem_cons.1 usual
    rw [narrowed, foldl_narrow step.name fun q hq => ⟨others q hq, tests q hq⟩,
      List.map_cons, List.all_cons, ← Bool.and_assoc]
    congr 1
    cases p with
    | test t => rw [Predicate.simple, holds_test here, Predicate.narrow]
    | position n => exact holds_position step.name n

theorem keeps_eq {step : Step} (arranged : Arranged step.predicates step.rank) :
    step.keeps s = (step.kept s &&
      step.rank.all fun n => (s.earlier.filter step.kept).length + 1 == n) := by
  rw [Step.keeps, Step.kept, Step.written]
  cases rank : step.rank with
  | none => simp
  | some n =>
    obtain ⟨p, rest, predicates⟩ :=
      List.exists_cons_of_ne_nil (arranged.behind (by simp [rank]))
    rw [predicates]
    simp [narrowed, Predicate.narrow]

end Toolwright.XPath
