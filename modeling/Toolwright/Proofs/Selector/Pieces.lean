import Toolwright.Proofs.Selector.Tokens

/-!
The pieces that the CSS of a location path is read as.
-/

namespace Toolwright.Css

open XPath (isName)

theorem leads_ident {a s last : List Char} {ts : List Token} (h : Leads s ts last)
    (hw : isName a = true) (stop : Stops s) (plain : s.head? ≠ some '(') :
    Leads (a ++ s) (.ident (String.ofList a) :: ts) last := by
  obtain ⟨c, more, rfl, -⟩ := exists_isNameStart hw
  exact h.cons (firstToken_ident hw stop plain) (by simp)

theorem Reads.ident {a s : List Char} {ps : List Piece} (h : Reads s ps) (hw : isName a = true)
    (stop : Stops s) (plain : s.head? ≠ some '(') :
    Reads (a ++ s) (.leaf (.ident (String.ofList a)) :: ps) := by
  obtain ⟨c, more, rfl, -⟩ := exists_isNameStart hw
  exact h.leaf (firstToken_ident hw stop plain) (by simp) rfl rfl

theorem leads_quoted {v s last : List Char} {ts : List Token} (h : Leads s ts last)
    (line : Unbroken v) :
    Leads (XPath.cssString v ++ s) (.quoted (String.ofList (held v)) :: ts) last := by
  have whole : XPath.cssString v ++ s = '"' :: (quotedBody v ++ '"' :: s) := by
    simp [XPath.cssString, quotedBody]
  rw [whole]
  exact h.cons (firstToken_quoted line) (by simp only [List.length_append, List.length_cons]; omega)

theorem Reads.blank {s : List Char} {ps : List Piece} (h : Reads s ps)
    (dense : ∀ c ∈ s.head?, isBlank c = false) : Reads (' ' :: s) (.leaf (.blank " ") :: ps) := by
  have none_ : s.takeWhile isBlank = [] := by
    cases s with
    | nil => rfl
    | cons c rest => simp [dense c rfl]
  have first : firstToken ' ' s = (.blank " ", s) := by
    have begins : firstToken ' ' s = (.blank (String.ofList (' ' :: s.takeWhile isBlank)),
        s.dropWhile isBlank) := rfl
    rw [begins, none_, Text.dropWhile_eq_self dense]
  exact h.leaf first (Nat.le_refl _) rfl rfl

theorem Reads.colon {s : List Char} {ps : List Piece} (h : Reads s ps) :
    Reads (':' :: s) (.leaf .colon :: ps) := h.leaf rfl (Nat.le_refl _) rfl rfl

theorem Reads.brackets {inner s : List Char} {content : List Token} {ps : List Piece}
    (h : Reads s ps) (leads : Leads (inner ++ ']' :: s) (content ++ [.closeSquareBracket]) s)
    (plain : ∀ u ∈ content, isComment u = false ∧ u.closer? = none ∧
      u.isCloser .closeSquareBracket = false) :
    Reads ('[' :: (inner ++ ']' :: s)) (.block .squareBracket (content.map .leaf) :: ps) :=
  h.block rfl (Nat.le_refl _) rfl rfl leads rfl
    (List.forall_mem_cons.2 ⟨rfl, fun u hu => (plain u hu).1⟩) fun u hu => (plain u hu).2

end Toolwright.Css

namespace Toolwright.XPath

open Css (Piece Token Reads OneLine Unbroken Leads)

/-- What is asked of the operands of a test: that they stay on a line, and that something is looked
for inside a value. -/
def Test.Usual : Test → Prop
  | .has _ => True
  | .equals _ v => OneLine v
  | .contains _ v => OneLine v ∧ v ≠ []
  | .startsWith _ v => OneLine v ∧ v ≠ []

def Predicate.Usual : Predicate → Prop
  | .test t => t.Usual
  | .position n => 1 ≤ n ∧ n < 2147483648

def Test.operand : Test → List Char
  | .has _ => []
  | .equals _ v => v
  | .contains _ v => v
  | .startsWith _ v => v

/-- The test with what a string of CSS holds of its operand. -/
def Test.held : Test → Test
  | .has a => .has a
  | .equals a v => .equals a (Css.held v)
  | .contains a v => .contains a (Css.held v)
  | .startsWith a v => .startsWith a (Css.held v)

theorem Test.Usual.unbroken {t : Test} (h : t.Usual) : Unbroken t.operand := by
  cases t with
  | has a => exact List.forall_mem_nil _
  | equals a v => exact OneLine.unbroken h
  | contains a v | startsWith a v => exact OneLine.unbroken h.1

theorem Test.Usual.held_eq {t : Test} (h : t.Usual) : t.held = t := by
  cases t with
  | has a => rfl
  | equals a v => rw [Test.held, OneLine.held_eq h]
  | contains a v | startsWith a v => rw [Test.held, OneLine.held_eq h.1]

def Test.attr : Test → List Char
  | .has a => a
  | .equals a _ => a
  | .contains a _ => a
  | .startsWith a _ => a

def Predicate.Named : Predicate → Prop
  | .test t => isName t.attr = true
  | .position _ => True

def NameTest.Named : NameTest → Prop
  | .any => True
  | .name n => isName n = true

def Test.piece (t : Test) : Piece :=
  .block .squareBracket (.leaf (.ident (String.ofList t.attr)) ::
    match t with
    | .has _ => []
    | .equals _ v => [.leaf (.delim '='), .leaf (.quoted (String.ofList v))]
    | .contains _ v => [.leaf .substringMatch, .leaf (.quoted (String.ofList v))]
    | .startsWith _ v => [.leaf .prefixMatch, .leaf (.quoted (String.ofList v))])

/-- The pseudo-class that positions behind a name test are written with. -/
def NameTest.positionWord : NameTest → String
  | .any => "nth-child"
  | .name _ => "nth-of-type"

def Predicate.pieces (name : NameTest) : Predicate → List Piece
  | .test t => [t.piece]
  | .position n =>
    [.leaf .colon, .block (.function name.positionWord) [.leaf (.number (Css.positionNumeral n))]]

def NameTest.piece : NameTest → Piece
  | .any => .leaf (.delim '*')
  | .name n => .leaf (.ident (String.ofList n))

def predicatePieces (name : NameTest) (predicates : List Predicate) : List Piece :=
  predicates.flatMap (Predicate.pieces name)

def Step.pieces (step : Step) : List Piece :=
  step.name.piece :: predicatePieces step.name step.predicates

def rootPieces (descendant : Bool) : List Piece :=
  if descendant then [] else [.leaf .colon, .leaf (.ident "root")]

def joinPieces (descendant : Bool) : List Piece :=
  if descendant then [.leaf (.blank " ")]
  else [.leaf (.blank " "), .leaf (.delim '>'), .leaf (.blank " ")]

def joinedPieces (path : Path) : List Piece :=
  path.flatMap fun step => joinPieces step.descendant ++ step.pieces

def Path.pieces : Path → List Piece
  | [] => []
  | first :: more => first.pieces ++ (rootPieces first.descendant ++ joinedPieces more)

def Ends (s : List Char) : Prop := ∀ c ∈ s.head?, c = '[' ∨ c = ':' ∨ c = ' '

theorem Ends.stops {s : List Char} (h : Ends s) : Css.Stops s ∧ s.head? ≠ some '(' := by
  constructor
  · intro c hc
    rcases h c hc with rfl | rfl | rfl <;> decide
  · intro open_
    rcases h _ open_ with same | same | same <;> exact absurd same (by decide)

theorem stops_cons {c : Char} {s : List Char}
    (h : Css.continuesName c = false ∧ c ≠ '\\' ∧ c ≠ '(') :
    Css.Stops (c :: s) ∧ (c :: s).head? ≠ some '(' := by
  constructor
  · rintro _ ⟨⟩
    exact ⟨h.1, h.2.1⟩
  · rintro ⟨⟩
    exact h.2.2 rfl

/-- The characters of an operator, which are read as one token behind a name. -/
structure Compares (op : List Char) (t : Token) : Prop where
  stops : ∀ s, Css.Stops (op ++ s) ∧ (op ++ s).head? ≠ some '('
  leads : ∀ {s ts last}, Leads s ts last → Leads (op ++ s) (t :: ts) last
  plain : Css.isComment t = false ∧ t.closer? = none ∧ t.isCloser .closeSquareBracket = false

theorem compares_equal : Compares ['='] (.delim '=') :=
  ⟨fun _ => stops_cons (by decide), fun leads => leads.cons rfl (Nat.le_refl _), rfl, rfl, rfl⟩

theorem compares_contains : Compares ['*', '='] .substringMatch :=
  ⟨fun _ => stops_cons (by decide), fun leads => leads.cons rfl (Nat.le_succ _), rfl, rfl, rfl⟩

theorem compares_starts : Compares ['^', '='] .prefixMatch :=
  ⟨fun _ => stops_cons (by decide), fun leads => leads.cons rfl (Nat.le_succ _), rfl, rfl, rfl⟩

theorem reads_operand {a v op s : List Char} {t : Token} {ps : List Piece} (h : Reads s ps)
    (compares : Compares op t) (named : isName a = true) (line : Unbroken v) :
    Reads ('[' :: (a ++ (op ++ (cssString v ++ ']' :: s))))
      (.block .squareBracket [.leaf (.ident (String.ofList a)), .leaf t,
        .leaf (.quoted (String.ofList (Css.held v)))] :: ps) := by
  have last : Leads (']' :: s) [.closeSquareBracket] s := (Leads.refl s).cons rfl (Nat.le_refl _)
  have inner : Leads (a ++ (op ++ (cssString v ++ ']' :: s))) ([.ident (String.ofList a), t,
      .quoted (String.ofList (Css.held v))] ++ [.closeSquareBracket]) s :=
    Css.leads_ident (compares.leads (Css.leads_quoted last line)) named (compares.stops _).1
      (compares.stops _).2
  have whole : a ++ (op ++ (cssString v ++ ']' :: s)) = (a ++ (op ++ cssString v)) ++ ']' :: s := by
    simp
  rw [whole] at inner ⊢
  refine h.brackets inner fun u hu => ?_
  simp only [List.mem_cons, List.not_mem_nil, or_false] at hu
  rcases hu with rfl | rfl | rfl
  · exact ⟨rfl, rfl, rfl⟩
  · exact compares.plain
  · exact ⟨rfl, rfl, rfl⟩

theorem reads_test {t : Test} {s : List Char} {ps : List Piece} (h : Reads s ps)
    (named : isName t.attr = true) (line : Unbroken t.operand) :
    Reads (t.css ++ s) (t.held.piece :: ps) := by
  cases t with
  | has a =>
    have last : Leads (']' :: s) [.closeSquareBracket] s := (Leads.refl s).cons rfl (Nat.le_refl _)
    have stops := stops_cons (c := ']') (s := s) (by decide)
    have inner : Leads (a ++ ']' :: s) ([.ident (String.ofList a)] ++ [.closeSquareBracket]) s :=
      Css.leads_ident last named stops.1 stops.2
    have whole : (Test.has a).css ++ s = '[' :: (a ++ ']' :: s) := by simp [Test.css]
    rw [whole]
    refine h.brackets inner fun u hu => ?_
    obtain rfl := List.mem_singleton.1 hu
    exact ⟨rfl, rfl, rfl⟩
  | equals a v =>
    have whole : (Test.equals a v).css ++ s =
        '[' :: (a ++ (['='] ++ (cssString v ++ ']' :: s))) := by
      simp [Test.css]
    rw [whole]
    exact reads_operand h compares_equal named line
  | contains a v =>
    have whole : (Test.contains a v).css ++ s =
        '[' :: (a ++ (['*', '='] ++ (cssString v ++ ']' :: s))) := by
      simp [Test.css]
    rw [whole]
    exact reads_operand h compares_contains named line
  | startsWith a v =>
    have whole : (Test.startsWith a v).css ++ s =
        '[' :: (a ++ (['^', '='] ++ (cssString v ++ ']' :: s))) := by
      simp [Test.css]
    rw [whole]
    exact reads_operand h compares_starts named line

theorem css_position (name : NameTest) (n : Nat) :
    Predicate.css name (.position n) =
      ':' :: (name.positionWord.toList ++ '(' :: (Nat.toDigits 10 n ++ [')'])) := by
  have text : (toString n).toList = Nat.toDigits 10 n := by
    rw [Nat.toString_eq_repr, Nat.toList_repr]
  cases name with
  | any =>
    have opening : ":nth-child(".toList = ':' :: ("nth-child".toList ++ ['(']) := rfl
    have whole : Predicate.css .any (.position n) =
        ":nth-child(".toList ++ (toString n).toList ++ [')'] := rfl
    rw [whole, opening, text]
    simp [NameTest.positionWord]
  | name m =>
    have opening : ":nth-of-type(".toList = ':' :: ("nth-of-type".toList ++ ['(']) := rfl
    have whole : Predicate.css (.name m) (.position n) =
        ":nth-of-type(".toList ++ (toString n).toList ++ [')'] := rfl
    rw [whole, opening, text]
    simp [NameTest.positionWord]

theorem reads_position {name : NameTest} {n : Nat} {s : List Char} {ps : List Piece}
    (h : Reads s ps) (fits : n < 2147483648) :
    Reads (Predicate.css name (.position n) ++ s) ((Predicate.position n).pieces name ++ ps) := by
  obtain ⟨c, more, digits⟩ : ∃ c more, Nat.toDigits 10 n = c :: more :=
    List.exists_cons_of_ne_nil Nat.toDigits_ne_nil
  have number : Leads (Nat.toDigits 10 n ++ ')' :: s)
      ([.number (Css.positionNumeral n)] ++ [.closeParenthesis]) s := by
    have last : Leads (')' :: s) [.closeParenthesis] s := (Leads.refl s).cons rfl (Nat.le_refl _)
    rw [digits]
    exact last.cons (Css.firstToken_position digits fits) (by simp)
  have called : ∀ (word : String) {c more}, word.toList = c :: more → isName word.toList = true →
      word.toList.map Char.toLower ≠ "url".toList →
      Reads (word.toList ++ '(' :: (Nat.toDigits 10 n ++ ')' :: s))
        (.block (.function word) [.leaf (.number (Css.positionNumeral n))] :: ps) := by
    intro word c more letters named other
    have first := Css.firstToken_function (Nat.toDigits 10 n ++ ')' :: s) letters named other
    rw [letters]
    refine h.block first (by simp; omega) rfl rfl number rfl ?_ ?_
    · intro u hu
      simp only [List.mem_cons, List.not_mem_nil, or_false] at hu
      rcases hu with rfl | rfl <;> rfl
    · intro u hu
      obtain rfl := List.mem_singleton.1 hu
      exact ⟨rfl, rfl⟩
  have whole : Predicate.css name (.position n) ++ s =
      ':' :: (name.positionWord.toList ++ '(' :: (Nat.toDigits 10 n ++ ')' :: s)) := by
    rw [css_position]
    simp
  rw [whole]
  cases name with
  | any => exact (called "nth-child" rfl (by decide) (by decide)).colon
  | name m => exact (called "nth-of-type" rfl (by decide) (by decide)).colon

structure Step.Legible (step : Step) : Prop where
  name : step.name.Named
  predicates : ∀ p ∈ step.predicates, p.Named ∧ p.Usual

theorem ends_predicates (name : NameTest) {s : List Char} (predicates : List Predicate)
    (h : Ends s) : Ends (predicates.flatMap (Predicate.css name) ++ s) := by
  cases predicates with
  | nil => exact h
  | cons p rest =>
    rw [List.flatMap_cons, List.append_assoc]
    cases p with
    | test t =>
      cases t <;> (rintro _ ⟨⟩; exact .inl rfl)
    | position n =>
      rw [css_position]
      rintro _ ⟨⟩
      exact .inr (.inl rfl)

theorem reads_predicates (name : NameTest) {predicates : List Predicate} {s : List Char}
    {ps : List Piece} (h : Reads s ps) (legible : ∀ p ∈ predicates, p.Named ∧ p.Usual) :
    Reads (predicates.flatMap (Predicate.css name) ++ s)
      (predicatePieces name predicates ++ ps) := by
  induction predicates with
  | nil => exact h
  | cons p rest ih =>
    obtain ⟨⟨named, usual⟩, more⟩ := List.forall_mem_cons.1 legible
    rw [predicatePieces, List.flatMap_cons, List.flatMap_cons, List.append_assoc, List.append_assoc]
    cases p with
    | test t =>
      have read := reads_test (ih more) named usual.unbroken
      rwa [usual.held_eq] at read
    | position n => exact reads_position (ih more) usual.2

theorem reads_step {step : Step} {s : List Char} {ps : List Piece} (h : Reads s ps) (ends : Ends s)
    (legible : step.Legible) : Reads (step.css ++ s) (step.pieces ++ ps) := by
  have behind := reads_predicates step.name h legible.predicates
  have stops := ends_predicates step.name step.predicates ends
  rw [Step.css, Step.pieces, List.append_assoc, List.cons_append]
  cases name : step.name with
  | any =>
    rw [name] at behind stops
    refine behind.leaf (t := .delim '*') ?_ (Nat.le_refl _) rfl rfl
    generalize step.predicates.flatMap (Predicate.css .any) ++ s = rest at stops
    cases rest with
    | nil => rfl
    | cons c rest =>
      rcases stops c rfl with rfl | rfl | rfl <;> rfl
  | name n =>
    have named := legible.name
    rw [name] at behind stops named
    exact behind.ident named stops.stops.1 stops.stops.2

theorem dense_step {step : Step} (legible : step.Legible) (s : List Char) :
    ∀ c ∈ (step.css ++ s).head?, Css.isBlank c = false := by
  rw [Step.css, List.append_assoc]
  cases name : step.name with
  | any =>
    rintro _ ⟨⟩
    rfl
  | name n =>
    have named := legible.name
    rw [name] at named
    obtain ⟨c, more, rfl, start⟩ := Css.exists_isNameStart named
    rintro _ ⟨⟩
    exact Css.not_isBlank_of_isNameStart start

theorem ends_joined (path : Path) : Ends (path.flatMap Step.joined) := by
  cases path with
  | nil => simp [Ends]
  | cons step rest =>
    rw [List.flatMap_cons, Step.joined]
    cases step.descendant <;> (rintro _ ⟨⟩; exact .inr (.inr rfl))

theorem reads_joined {path : Path} (legible : ∀ step ∈ path, step.Legible) :
    Reads (path.flatMap Step.joined) (joinedPieces path) := by
  induction path with
  | nil => exact Css.reads_nil
  | cons step rest ih =>
    obtain ⟨first, more⟩ := List.forall_mem_cons.1 legible
    have behind := reads_step (ih more) (ends_joined rest) first
    have dense := dense_step first (rest.flatMap Step.joined)
    rw [List.flatMap_cons, joinedPieces, List.flatMap_cons, Step.joined]
    cases step.descendant with
    | true => exact behind.blank dense
    | false =>
      have arrow : Reads ('>' :: ' ' :: (step.css ++ rest.flatMap Step.joined))
          (.leaf (.delim '>') :: .leaf (.blank " ") :: (step.pieces ++ joinedPieces rest)) :=
        (behind.blank dense).leaf rfl (Nat.le_refl _) rfl rfl
      exact arrow.blank (by rintro _ ⟨⟩; rfl)

theorem reads_path {path : Path} (legible : ∀ step ∈ path, step.Legible) :
    Reads path.css path.pieces := by
  cases path with
  | nil => exact Css.reads_nil
  | cons first more =>
    obtain ⟨ok, others⟩ := List.forall_mem_cons.1 legible
    have behind := reads_joined others
    rw [Path.css, Path.pieces, List.append_assoc]
    cases first.descendant with
    | true => exact reads_step behind (ends_joined more) ok
    | false =>
      have stops := (ends_joined more).stops
      have root := (Reads.ident (a := "root".toList) behind (by decide) stops.1 stops.2).colon
      rw [String.ofList_toList] at root
      exact reads_step root (by rintro _ ⟨⟩; exact .inr (.inl rfl)) ok

end Toolwright.XPath
