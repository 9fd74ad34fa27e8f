import Mathlib.Algebra.Ring.Nat
import Toolwright.Proofs.Selector.Pieces
import Toolwright.Selector.Extract

/-!
The complex selectors that location paths are read as. Each step is a compound selector with one
simple selector for its name and one for each predicate.
-/

namespace Toolwright.XPath

open Css (Piece Simple Combinator Counting)

def Test.simple : Test → Simple
  | .has a => .hasAttribute .none (String.ofList a)
  | .equals a v => .attributeValue .none (String.ofList a) .equal (String.ofList v) .ofAttribute
  | .contains a v =>
    .attributeValue .none (String.ofList a) .contains (String.ofList v) .ofAttribute
  | .startsWith a v =>
    .attributeValue .none (String.ofList a) .starts (String.ofList v) .ofAttribute

def NameTest.counting : NameTest → Counting
  | .any => ⟨false, false⟩
  | .name _ => ⟨true, false⟩

def Predicate.simple (name : NameTest) : Predicate → Simple
  | .test t => t.simple
  | .position n => .nth name.counting 0 n

def NameTest.simple : NameTest → Simple
  | .any => .universal .any
  | .name n => .type .any (String.ofList n)

def Step.simples (step : Step) : List Simple :=
  step.name.simple :: step.predicates.map (Predicate.simple step.name)

def Step.combinator (step : Step) : Combinator :=
  if step.descendant then .descendant else .child

def joinedTo (left : Css.Complex) (path : Path) : Css.Complex :=
  path.foldl (fun left step => .combined left step.combinator step.simples) left

/-- The compound of a first step; one that goes to children begins at the root. -/
def Step.firstSimples (step : Step) : List Simple :=
  step.simples ++ if step.descendant then [] else [.root]

def Path.complex : Path → Css.Complex
  | [] => .compound []
  | first :: more => joinedTo (.compound first.firstSimples) more

theorem attributeSelector_piece (t : Test) :
    ∃ content, t.piece = .block .squareBracket content ∧
      Css.attributeSelector content = .ok t.simple := by
  cases t <;> exact ⟨_, rfl, rfl⟩

theorem counting_positionWord (name : NameTest) :
    Css.counting? name.positionWord = some name.counting := by
  cases name with
  | any => rfl
  | name _ => exact (rfl : Css.counting? "nth-of-type" = some ⟨true, false⟩)

theorem isOldPseudoElement_positionWord (name : NameTest) :
    Css.isOldPseudoElement name.positionWord = false := by
  cases name with
  | any => rfl
  | name _ => exact (rfl : Css.isOldPseudoElement "nth-of-type" = false)

theorem functional_position (name : NameTest) (n fuel : Nat) :
    Css.functional (fuel + 1) false name.positionWord [.leaf (.number (Css.positionNumeral n))] =
      .ok (.nth name.counting 0 n) := by
  rw [Css.functional, counting_positionWord]
  rfl

theorem simples_predicate {name : NameTest} {ps rest : List Piece} {more : List Simple}
    (p : Predicate) (fuel : Nat) (h : Css.simples (fuel + 1) false ps = .ok (more, rest)) :
    Css.simples (fuel + 2) false (p.pieces name ++ ps) = .ok (p.simple name :: more, rest) := by
  cases p with
  | test t =>
    obtain ⟨content, piece, read⟩ := attributeSelector_piece t
    rw [Predicate.pieces, piece]
    show Css.simples (fuel + 2) false (.block .squareBracket content :: ps) = _
    rw [Css.simples, read]
    simp [h, bind, Except.bind, Predicate.simple]
  | position n =>
    show Css.simples (fuel + 2) false (.leaf .colon :: .block (.function name.positionWord)
      [.leaf (.number (Css.positionNumeral n))] :: ps) = _
    rw [Css.simples, isOldPseudoElement_positionWord, functional_position]
    simp [h, bind, Except.bind, Predicate.simple]

theorem simples_predicates (name : NameTest) {ps rest : List Piece} {more : List Simple}
    (predicates : List Predicate) {fuel : Nat}
    (h : Css.simples (fuel + 1) false ps = .ok (more, rest)) :
    Css.simples (fuel + predicates.length + 1) false (predicatePieces name predicates ++ ps) =
      .ok (predicates.map (Predicate.simple name) ++ more, rest) := by
  induction predicates with
  | nil => exact h
  | cons p others ih =>
    rw [predicatePieces, List.flatMap_cons, List.append_assoc]
    exact simples_predicate p _ ih

def NameTest.asked : NameTest → Css.Qualified
  | .any => ⟨.any, none⟩
  | .name n => ⟨.any, some (String.ofList n)⟩

theorem qualified_piece (name : NameTest) {ps : List Piece}
    (behind : ps.head? ≠ some (.leaf (.delim '|'))) :
    Css.qualified false (name.piece :: ps) = .ok (some name.asked, ps) := by
  cases name <;>
  · simp only [NameTest.piece, Css.qualified]
    split
    · exact absurd rfl behind
    · rfl

theorem compound_step {ps rest : List Piece} {more : List Simple} (step : Step) (fuel : Nat)
    (behind : (predicatePieces step.name step.predicates ++ ps).head? ≠
      some (.leaf (.delim '|')))
    (h : Css.simples (fuel + 1) false ps = .ok (more, rest)) :
    Css.compound (fuel + step.predicates.length + 2) false (step.pieces ++ ps) =
      .ok (step.simples ++ more, rest) := by
  have found := qualified_piece step.name behind
  have others := simples_predicates step.name step.predicates h
  have start : Css.skipBlank (step.pieces ++ ps) =
      step.name.piece :: (predicatePieces step.name step.predicates ++ ps) := by
    rw [Step.pieces]
    cases step.name <;> rfl
  rw [Css.compound, start]
  simp only [found, others, bind, Except.bind]
  rw [Step.simples]
  cases step.name <;> rfl

theorem compound_blank (fuel : Nat) (text : String) (ps : List Piece) :
    Css.compound (fuel + 1) false (.leaf (.blank text) :: ps) =
      Css.compound (fuel + 1) false ps := by
  rw [Css.compound, Css.compound]
  rfl

theorem head?_joinedPieces (path : Path) :
    joinedPieces path = [] ∨ ∃ ps, joinedPieces path = .leaf (.blank " ") :: ps := by
  cases path with
  | nil => exact .inl rfl
  | cons step more =>
    rw [joinedPieces, List.flatMap_cons]
    cases step.descendant <;> exact .inr ⟨_, rfl⟩

theorem simples_joinedPieces (path : Path) (fuel : Nat) :
    Css.simples fuel false (joinedPieces path) = .ok ([], joinedPieces path) := by
  rcases head?_joinedPieces path with none | ⟨ps, blank⟩
  · rw [none]
    cases fuel <;> rfl
  · rw [blank]
    cases fuel <;> rfl

theorem head?_predicatePieces (name : NameTest) (predicates : List Predicate) {ps : List Piece}
    (h : ps.head? ≠ some (.leaf (.delim '|'))) :
    (predicatePieces name predicates ++ ps).head? ≠ some (.leaf (.delim '|')) := by
  cases predicates with
  | nil => exact h
  | cons p others =>
    rw [predicatePieces, List.flatMap_cons]
    cases p <;> rintro ⟨⟩

theorem head?_joinedPieces_ne (path : Path) :
    (joinedPieces path).head? ≠ some (.leaf (.delim '|')) := by
  rcases head?_joinedPieces path with none | ⟨ps, blank⟩
  · simp [none]
  · simp [blank]

def weight (path : Path) : Nat := (path.map fun step => step.predicates.length + 3).sum

theorem complex_joined {path : Path} {fuel : Nat} {left : Option (Css.Complex × Combinator)}
    {ps : List Piece} {first : List Simple} (enough : weight path ≤ fuel) (some_ : first ≠ [])
    (h : Css.compound fuel false ps = .ok (first, joinedPieces path)) :
    Css.complex (fuel + 1) false left ps = .ok (joinedTo (Css.attach left first) path, []) := by
  have begun : first.isEmpty = false := by simpa using some_
  induction path generalizing fuel left ps first with
  | nil =>
    rw [Css.complex, h]
    simp only [bind, Except.bind, begun]
    rfl
  | cons step more ih =>
    -- the weight of a path leaves fuel enough for its first step and for the others behind it
    obtain ⟨f, rfl⟩ : ∃ f, fuel = f + weight more + step.predicates.length + 3 := by
      refine ⟨fuel - weight (step :: more), ?_⟩
      simp only [weight, List.map_cons, List.sum_cons] at enough ⊢
      omega
    have behind := head?_predicatePieces step.name step.predicates (head?_joinedPieces_ne more)
    have here : Css.compound (f + weight more + step.predicates.length + 2) false
        (step.pieces ++ joinedPieces more) = .ok (step.simples, joinedPieces more) := by
      simpa using compound_step step (f + weight more) behind (simples_joinedPieces more _)
    have next : ∃ after, Css.combinator? false (joinedPieces (step :: more)) =
          some (step.combinator, after) ∧
        Css.compound (f + weight more + step.predicates.length + 2) false after =
          .ok (step.simples, joinedPieces more) := by
      rw [joinedPieces, List.flatMap_cons, Step.combinator]
      cases step.descendant with
      | true =>
        refine ⟨_, ?_, here⟩
        rw [Step.pieces]
        cases step.name <;> rfl
      | false =>
        exact ⟨.leaf (.blank " ") :: (step.pieces ++ joinedPieces more), rfl,
          (compound_blank _ _ _).trans here⟩
    obtain ⟨after, combinator, compound⟩ := next
    rw [Css.complex, h]
    simp only [bind, Except.bind, begun, combinator]
    exact ih (by omega) (by simp [Step.simples]) compound (by simp [Step.simples])

theorem compound_first (first : Step) (more : Path) (fuel : Nat) :
    Css.compound (fuel + first.predicates.length + 2) false
        (first.pieces ++ (rootPieces first.descendant ++ joinedPieces more)) =
      .ok (first.firstSimples, joinedPieces more) := by
  have behind := head?_joinedPieces_ne more
  have none := simples_joinedPieces more fuel
  rw [Step.firstSimples]
  cases first.descendant with
  | true =>
    exact compound_step first _ (head?_predicatePieces _ _ behind) (simples_joinedPieces more _)
  | false =>
    refine compound_step first _ (head?_predicatePieces _ _ (by rintro ⟨⟩)) ?_
    have old : Css.isOldPseudoElement "root" = false := rfl
    have root : Css.plainPseudo? "root" = some [.root] := rfl
    show Css.simples (fuel + 1) false
      (.leaf .colon :: .leaf (.ident "root") :: joinedPieces more) = _
    rw [Css.simples, old, root]
    simp [none, bind, Except.bind]

theorem length_le_pieceCount (ps : List Piece) : ps.length ≤ Css.pieceCount ps := by
  induction ps with
  | nil => exact Nat.zero_le _
  | cons p rest ih => cases p <;> simp only [Css.pieceCount, List.length_cons] <;> omega

theorem length_step_pieces (step : Step) : step.predicates.length + 1 ≤ step.pieces.length := by
  rw [Step.pieces, List.length_cons]
  refine Nat.succ_le_succ ?_
  induction step.predicates with
  | nil => exact Nat.zero_le _
  | cons p rest ih =>
    rw [predicatePieces, List.flatMap_cons, List.length_append]
    have one : 1 ≤ (p.pieces step.name).length := by cases p <;> simp [Predicate.pieces]
    rw [predicatePieces] at ih
    simp only [List.length_cons]
    omega

theorem weight_le (path : Path) : weight path ≤ 4 * (joinedPieces path).length := by
  induction path with
  | nil => exact Nat.zero_le _
  | cons step more ih =>
    have := length_step_pieces step
    simp only [weight, joinedPieces, List.map_cons, List.sum_cons, List.flatMap_cons,
      List.length_append] at ih ⊢
    omega

theorem splitCommas_eq {ps : List Piece} (h : ∀ p ∈ ps, p.token ≠ .comma) :
    Css.splitCommas ps = [ps] := by
  induction ps with
  | nil => rfl
  | cons p rest ih =>
    obtain ⟨here, behind⟩ := List.forall_mem_cons.1 h
    rw [Css.splitCommas, ih behind]
    split
    · exact absurd ‹_› here
    · rfl

theorem token_step_pieces (step : Step) : ∀ p ∈ step.pieces, p.token ≠ .comma := by
  intro p hp
  rw [Step.pieces, List.mem_cons, predicatePieces, List.mem_flatMap] at hp
  rcases hp with rfl | ⟨predicate, -, hp⟩
  · cases step.name <;> rintro ⟨⟩
  · cases predicate with
    | test t =>
      obtain rfl := List.mem_singleton.1 hp
      rintro ⟨⟩
    | position n =>
      rcases List.mem_pair.1 hp with rfl | rfl <;> rintro ⟨⟩

theorem token_pieces (path : Path) : ∀ p ∈ path.pieces, p.token ≠ .comma := by
  cases path with
  | nil => simp [Path.pieces]
  | cons first more =>
    intro p hp
    simp only [Path.pieces, joinedPieces, List.mem_append, List.mem_flatMap] at hp
    rcases hp with hp | hp | ⟨step, -, hp | hp⟩
    · exact token_step_pieces first p hp
    · rw [rootPieces] at hp
      split at hp
      · cases hp
      · rcases List.mem_pair.1 hp with rfl | rfl <;> rintro ⟨⟩
    · rw [joinPieces] at hp
      split at hp
      · obtain rfl := List.mem_singleton.1 hp
        rintro ⟨⟩
      · simp only [List.mem_cons, List.not_mem_nil, or_false] at hp
        rcases hp with rfl | rfl | rfl <;> rintro ⟨⟩
    · exact token_step_pieces step p hp

theorem parse_of_reads {s : List Char} {path : Path} (steps : path ≠ [])
    (reads : Css.Reads s path.pieces) : Css.parse s = .ok [path.complex] := by
  obtain ⟨first, more, rfl⟩ := List.exists_cons_of_ne_nil steps
  rw [Css.parse, Css.pieces_of_reads reads]
  simp only [splitCommas_eq (token_pieces _)]
  have count := length_le_pieceCount (Path.pieces (first :: more))
  generalize Css.pieceCount (Path.pieces (first :: more)) = n at count
  have size := length_step_pieces first
  have others := weight_le more
  simp only [Path.pieces, List.length_append] at count
  obtain ⟨fuel, enough⟩ : ∃ fuel, 4 * n + 6 = fuel + first.predicates.length + 2 :=
    ⟨4 * n + 4 - first.predicates.length, by omega⟩
  have read : Css.complex (4 * n + 7) false none (Path.pieces (first :: more)) =
      .ok (joinedTo (.compound first.firstSimples) more, []) :=
    complex_joined (by omega) (by simp [Step.firstSimples, Step.simples])
      (by rw [enough]; exact compound_first first more fuel)
  rw [Css.selectorList, read]
  rfl

theorem parse_css {path : Path} (steps : path ≠ []) (legible : ∀ step ∈ path, step.Legible) :
    Css.parse path.css = .ok [path.complex] :=
  parse_of_reads steps (reads_path legible)

end Toolwright.XPath
