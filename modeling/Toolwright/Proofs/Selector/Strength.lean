import Toolwright.Proofs.Selector.Finding

/-!
Tests of one attribute by strength. A value that is equal to an operand starts with it, and one that
starts with it contains it; the selectors that ask for this succeed accordingly. The empty operand
is the exception: values may be equal to it, while no value starts with it or contains it. With a
line break in the operand none of the tests can be put into CSS.
-/

namespace Toolwright.Text

theorem occursIn_of_isPrefixOf {part s : List Char} (h : part.isPrefixOf s = true) :
    occursIn part s = true := by
  cases s with
  | nil => simpa [occursIn] using h
  | cons c rest => rw [occursIn, h, Bool.true_or]

end Toolwright.Text

namespace Toolwright.Css

variable {value operand : List Char}

theorem Operator.starts_of_equal (some_ : operand ≠ [])
    (h : Operator.equal.holds value operand = true) :
    Operator.starts.holds value operand = true := by
  obtain rfl : value = operand := by simpa [Operator.holds] using h
  simp [Operator.holds, some_]

theorem Operator.contains_of_starts (h : Operator.starts.holds value operand = true) :
    Operator.contains.holds value operand = true := by
  simp only [Operator.holds, Bool.and_eq_true] at h ⊢
  exact ⟨h.1, Text.occursIn_of_isPrefixOf h.2⟩

theorem exists_of_not_unbroken {v : List Char} (h : ¬ Unbroken v) :
    ∃ u c w, v = u ++ c :: w ∧ Unbroken u ∧ isNewline c = true := by
  induction v with
  | nil => exact absurd (List.forall_mem_nil _) h
  | cons c v ih =>
    cases line : isNewline c with
    | true => exact ⟨[], c, v, rfl, List.forall_mem_nil _, line⟩
    | false =>
      obtain ⟨u, d, w, rfl, unbroken, breaks⟩ :=
        ih fun unbroken => h (List.forall_mem_cons.2 ⟨line, unbroken⟩)
      exact ⟨c :: u, d, w, rfl, List.forall_mem_cons.2 ⟨line, unbroken⟩, breaks⟩

theorem pieces_of_leads {s more : List Char} {e : String} {content : List Token}
    (h : Leads s (.ident e :: .squareBracket :: content) more)
    (plain : ∀ u ∈ content, isComment u = false ∧ u.closer? = none ∧
      u.isCloser .closeSquareBracket = false) :
    ∃ inner behind, pieces s =
      .leaf (.ident e) :: .block .squareBracket (content.map .leaf ++ inner) :: behind := by
  obtain ⟨fuel, -, scanned⟩ := h.scan (s.length + 1) (Nat.le_succ _)
  have kept : content.filter (fun t => !isComment t) = content :=
    List.filter_eq_self.2 fun t ht => by rw [(plain t ht).1]; rfl
  have tokens : (scan (s.length + 1) s).filter (fun t => !isComment t) =
      .ident e :: .squareBracket :: (content ++ (scan fuel more).filter fun t => !isComment t) := by
    rw [scanned, List.filter_append, List.filter_cons_of_pos rfl, List.filter_cons_of_pos rfl, kept]
    rfl
  rw [pieces]
  simp only [tokens]
  generalize (scan fuel more).filter (fun t => !isComment t) = rest
  have size : (Token.ident e :: .squareBracket :: (content ++ rest)).length + 1 =
      (rest.length + 1 + content.length) + 1 + 1 := by
    simp only [List.length_cons, List.length_append]
    omega
  have leaves : nestFrom (rest.length + 1 + content.length) (some .closeSquareBracket)
      (content ++ rest) = _ := nestFrom_append (fun u hu => (plain u hu).2) (rest.length + 1)
  rw [size]
  refine ⟨(nestFrom (rest.length + 1) (some .closeSquareBracket) rest).1,
    (nestFrom (rest.length + 1 + content.length) none
      (nestFrom (rest.length + 1) (some .closeSquareBracket) rest).2).1, ?_⟩
  simp [nestFrom, Token.closer?, leaves]

theorem parse_of_fault {s : List Char} {e : String} {content behind : List Piece} {p : Problem}
    (h : pieces s = .leaf (.ident e) :: .block .squareBracket content :: behind)
    (fault : attributeSelector content = .error p) : parse s = .error p := by
  obtain ⟨first, others, split⟩ : ∃ first others, splitCommas (pieces s) =
      (.leaf (.ident e) :: .block .squareBracket content :: first) :: others := by
    rw [h]
    cases behind : splitCommas behind with
    | nil => exact ⟨[], [], by simp [splitCommas, Piece.token, behind]⟩
    | cons first others => exact ⟨first, others, by simp [splitCommas, Piece.token, behind]⟩
  rw [parse]
  simp only [split]
  simp [selectorList, complex, compound, skipBlank, isBlankPiece, qualified, simples, fault, bind,
    Except.bind]

theorem attributeSelector_badString {t : Token} (name text : String) (inner : List Piece)
    (operator : t = .delim '=' ∨ t = .substringMatch ∨ t = .prefixMatch) :
    attributeSelector (.leaf (.ident name) :: .leaf t :: .leaf (.badString text) :: inner) =
      .error (.badAttributeValue (.badString text)) := by
  rcases operator with rfl | rfl | rfl <;> rfl

theorem parse_broken {e a op v : List Char} {t : Token} (compares : XPath.Compares op t)
    (operator : t = .delim '=' ∨ t = .substringMatch ∨ t = .prefixMatch)
    (element : XPath.isName e = true) (attr : XPath.isName a = true) (broken : ¬ Unbroken v) :
    ∃ p, parse (e ++ '[' :: (a ++ (op ++ (XPath.cssString v ++ [']'])))) = .error p := by
  obtain ⟨u, c, w, rfl, unbroken, line⟩ := exists_of_not_unbroken broken
  have whole : XPath.cssString (u ++ c :: w) ++ [']'] =
      '"' :: (quotedBody u ++ c :: (quotedBody w ++ ['"', ']'])) := by
    have plain : ¬ (c = '\\' ∨ c = '"') := by rintro (rfl | rfl) <;> cases line
    simp [XPath.cssString, quotedBody, plain]
  have bad : Leads ('"' :: (quotedBody u ++ c :: (quotedBody w ++ ['"', ']'])))
      [.badString (String.ofList (held u))] (c :: (quotedBody w ++ ['"', ']'])) :=
    (Leads.refl _).cons (firstToken_broken unbroken line) (by simp)
  have test := leads_ident (compares.leads bad) attr (compares.stops _).1 (compares.stops _).2
  have bracket := XPath.stops_cons (c := '[')
    (s := a ++ (op ++ '"' :: (quotedBody u ++ c :: (quotedBody w ++ ['"', ']'])))) (by decide)
  have leads := leads_ident (test.cons (c := '[') rfl (Nat.le_refl _)) element bracket.1 bracket.2
  obtain ⟨inner, behind, pieces⟩ := pieces_of_leads leads fun t ht => by
    simp only [List.mem_cons, List.not_mem_nil, or_false] at ht
    rcases ht with rfl | rfl | rfl
    · exact ⟨rfl, rfl, rfl⟩
    · exact compares.plain
    · exact ⟨rfl, rfl, rfl⟩
  rw [whole]
  exact ⟨_, parse_of_fault pieces (attributeSelector_badString _ _ inner operator)⟩

end Toolwright.Css

namespace Toolwright.XPath

open Html (Spot)
open Css (Unbroken)

def asked (e : List Char) (t : Test) : Path := [⟨true, .name e, [.test t], none⟩]

variable {P : Char → List Char → Prop} {e s : List Char} {t : Test}

theorem named_asked (h : (asked e t).Written P s) : isName e = true ∧ isName t.attr = true := by
  obtain ⟨_, spelled, -⟩ := h
  obtain ⟨name, predicates⟩ := spelled.named.2 _ (List.mem_singleton_self _)
  exact ⟨name, predicates _ (List.mem_singleton_self _)⟩

theorem css_asked (e : List Char) (t : Test) : (asked e t).css = e ++ t.css := by
  have whole : (asked e t).css = e ++ (t.css ++ []) ++ [] ++ [] := rfl
  simpa using whole

theorem written_asked (name : isName e = true) (spelled : t.Spelled P s) :
    (asked e t).Written P ('/' :: '/' :: (e ++ '[' :: (s ++ [']']))) := by
  have bracketed : Bracketed P [.test t] ('[' :: (([] ++ (s ++ [])) ++ [']'])) :=
    .cons (.test spelled) .nil .nil .nil
  rw [List.append_nil, List.nil_append] at bracketed
  exact ⟨_, .last (.intro (.name name) ⟨by simp, by simp⟩ bracketed), .inl rfl⟩

theorem spelled_equals {a v : List Char} (attr : isName a = true) (single : '\'' ∉ v) :
    (Test.equals a v).Spelled Plain ('@' :: (a ++ '=' :: '\'' :: (v ++ ['\'']))) := by
  have spelled : (Test.equals a v).Spelled Plain
      ('@' :: (([] ++ (a ++ [])) ++ '=' :: ([] ++ '\'' :: (v ++ ['\''])))) :=
    .equals attr (.intro rfl single) .nil .nil .nil
  simpa using spelled

theorem spelled_call {a v : List Char} (function : String) (attr : isName a = true)
    (single : '\'' ∉ v) : Call Plain function a v
      (function.toList ++ '(' :: '@' :: (a ++ ',' :: '\'' :: (v ++ ['\'', ')']))) := by
  have call : Call Plain function a v (function.toList ++ ([] ++ '(' :: (([] ++ ('@' :: a ++ [])) ++
      ',' :: ([] ++ ('\'' :: (v ++ ['\'']) ++ [])) ++ [')']))) :=
    .intro attr (.intro rfl single) .nil .nil .nil .nil .nil
  simpa using call

theorem parse_asked (element : isName e = true) (attr : isName t.attr = true)
    (line : Unbroken t.operand) : Css.parse (asked e t).css = .ok [(asked e t.held).complex] := by
  have test := reads_test Css.reads_nil attr line
  have ends : Ends (t.css ++ []) := by
    cases t <;> (rintro _ ⟨⟩; exact .inl rfl)
  have reads : Css.Reads (e ++ (t.css ++ [])) (asked e t.held).pieces :=
    test.ident element ends.stops.1 ends.stops.2
  rw [List.append_nil, ← css_asked] at reads
  exact parse_of_reads (by simp [asked]) reads

theorem parse_asked_broken (element : isName e = true) (attr : isName t.attr = true)
    (broken : ¬ Unbroken t.operand) : ∃ p, Css.parse (asked e t).css = .error p := by
  rw [css_asked]
  cases t with
  | has a => exact absurd (List.forall_mem_nil _) broken
  | equals a v =>
    have fault := Css.parse_broken compares_equal (.inl rfl) element attr broken
    exact fault
  | contains a v =>
    have fault := Css.parse_broken compares_contains (.inr (.inl rfl)) element attr broken
    exact fault
  | startsWith a v =>
    have fault := Css.parse_broken compares_starts (.inr (.inr rfl)) element attr broken
    exact fault

theorem holds_asked (e : List Char) (t : Test) (s : Spot) :
    (asked e t).complex.holds s = ((NameTest.name e).passes s.info && t.simple.holds s) := by
  have whole : (asked e t).complex = .compound [(NameTest.name e).simple, t.simple] := rfl
  rw [whole, Css.holds_compound, List.all_cons, List.all_cons, List.all_nil, Bool.and_true,
    holds_name]

variable {a v : List Char} {p : Spot}

theorem held_ne_nil (some_ : v ≠ []) : Css.held v ≠ [] := by simpa [Css.held] using some_

theorem comparable_ne_nil {i : Html.Element} (some_ : v ≠ []) : comparable i a v ≠ [] := by
  simpa using comparable_isEmpty (e := i) (a := a) some_

theorem starts_of_equal (some_ : v ≠ []) (h : (Test.equals a v).held.simple.holds p = true) :
    (Test.startsWith a v).held.simple.holds p = true := by
  simp only [Test.held, Test.simple, Css.Simple.holds, valueMatches_eq, List.any_eq_true] at h ⊢
  obtain ⟨value, mem, equal⟩ := h
  exact ⟨value, mem, Css.Operator.starts_of_equal (comparable_ne_nil (held_ne_nil some_)) equal⟩

theorem contains_of_starts (h : (Test.startsWith a v).held.simple.holds p = true) :
    (Test.contains a v).held.simple.holds p = true := by
  simp only [Test.held, Test.simple, Css.Simple.holds, valueMatches_eq, List.any_eq_true] at h ⊢
  obtain ⟨value, mem, starts⟩ := h
  exact ⟨value, mem, Css.Operator.contains_of_starts starts⟩

theorem not_contains_nil : (Test.contains a []).held.simple.holds p = false := by
  have none_ : ∀ i, comparable i a (Css.held []) = [] := fun i => by
    rw [comparable]
    split <;> rfl
  simp [Test.held, Test.simple, Css.Simple.holds, valueMatches_eq, none_, Css.Operator.holds]

theorem not_starts_nil : (Test.startsWith a []).held.simple.holds p = false :=
  Bool.eq_false_iff.2 fun holds => by
    have contained := contains_of_starts holds
    rw [not_contains_nil] at contained
    cases contained

end Toolwright.XPath

namespace Toolwright.Selector

open XPath (Plain asked Test)
open Css (Unbroken)

variable {e selector html : List Char} {t : Test}

theorem extract_asked (written : (asked e t).Written Plain (Text.trim selector))
    (line : Unbroken t.operand) :
    extract html selector =
      match (Html.parse html).spots.find? fun s =>
        (XPath.NameTest.name e).passes s.info && t.held.simple.holds s with
      | some s => .ok s.text
      | none => .error .noMatch := by
  obtain ⟨element, attr⟩ := XPath.named_asked written
  have selected : selects [(asked e t.held).complex] (asked e t).rank =
      fun s => (XPath.NameTest.name e).passes s.info && t.held.simple.holds s := by
    funext s
    rw [← XPath.holds_asked, selects, matchesAny_singleton]
    exact Bool.and_true _
  have searched : extract html selector = _ :=
    extract_of_parse written (XPath.parse_asked element attr line)
  rw [selected] at searched
  cases found : (Html.parse html).spots.find? fun s =>
      (XPath.NameTest.name e).passes s.info && t.held.simple.holds s with
  | none => rwa [found] at searched
  | some s => rwa [found] at searched

theorem extract_asked_broken (written : (asked e t).Written Plain (Text.trim selector))
    (broken : ¬ Unbroken t.operand) : ∃ p, extract html selector = .error (.css p) := by
  obtain ⟨element, attr⟩ := XPath.named_asked written
  obtain ⟨p, fault⟩ := XPath.parse_asked_broken element attr broken
  refine ⟨p, ?_⟩
  rw [extract, find, compile_of_written written]
  simp only [bind, Except.bind, fault]

theorem extract_asked_eq_ok (written : (asked e t).Written Plain (Text.trim selector)) :
    (∃ text, extract html selector = .ok text) ↔
      Unbroken t.operand ∧ ∃ s ∈ (Html.parse html).spots,
        (XPath.NameTest.name e).passes s.info = true ∧ t.held.simple.holds s = true := by
  by_cases line : Unbroken t.operand
  · rw [extract_asked written line, and_iff_right line]
    cases search : (Html.parse html).spots.find? _ with
    | none => simpa using search
    | some s =>
      have holds := List.find?_some search
      rw [Bool.and_eq_true] at holds
      exact iff_of_true ⟨_, rfl⟩ ⟨s, List.mem_of_find?_eq_some search, holds⟩
  · obtain ⟨p, fault⟩ : ∃ p, extract html selector = .error (.css p) :=
      extract_asked_broken written line
    rw [fault]
    exact iff_of_false nofun fun found => line found.1

theorem extract_asked_noMatch (written : (asked e t).Written Plain (Text.trim selector))
    (line : Unbroken t.operand) (fails : ∀ s, t.held.simple.holds s = false) :
    extract html selector = .error .noMatch := by
  have unfound : (Html.parse html).spots.find? (fun s =>
      (XPath.NameTest.name e).passes s.info && t.held.simple.holds s) = none := by
    simp [fails]
  rw [extract_asked written line, unfound]

theorem extract_asked_nil {a starts contains : List Char}
    (startsWith : (asked e (.startsWith a [])).Written Plain (Text.trim starts))
    (containing : (asked e (.contains a [])).Written Plain (Text.trim contains)) :
    extract html starts = .error .noMatch ∧ extract html contains = .error .noMatch :=
  ⟨extract_asked_noMatch startsWith (List.forall_mem_nil _) fun _ => XPath.not_starts_nil,
    extract_asked_noMatch containing (List.forall_mem_nil _) fun _ => XPath.not_contains_nil⟩

theorem written_tests {a v : List Char} (name : XPath.isName e = true)
    (attr : XPath.isName a = true) (single : '\'' ∉ v) :
    (asked e (.equals a v)).Written Plain
        ('/' :: '/' :: (e ++ '[' :: ('@' :: (a ++ '=' :: '\'' :: (v ++ ['\''])) ++ [']']))) ∧
      (asked e (.startsWith a v)).Written Plain ('/' :: '/' :: (e ++ '[' :: ("starts-with".toList ++
        '(' :: '@' :: (a ++ ',' :: '\'' :: (v ++ ['\'', ')'])) ++ [']']))) ∧
      (asked e (.contains a v)).Written Plain ('/' :: '/' :: (e ++ '[' :: ("contains".toList ++
        '(' :: '@' :: (a ++ ',' :: '\'' :: (v ++ ['\'', ')'])) ++ [']']))) :=
  ⟨XPath.written_asked name (XPath.spelled_equals attr single),
    XPath.written_asked name (.startsWith (XPath.spelled_call _ attr single)),
    XPath.written_asked name (.contains (XPath.spelled_call _ attr single))⟩

/-- A selector succeeds with the test for values that contain an operand when it does with the one
for values that start with it, and with that one when it does with the one for values equal to it;
the latter only where the operand is not empty. -/
theorem extract_strength {a v equal starts contains : List Char}
    (equals : (asked e (.equals a v)).Written Plain (Text.trim equal))
    (startsWith : (asked e (.startsWith a v)).Written Plain (Text.trim starts))
    (containing : (asked e (.contains a v)).Written Plain (Text.trim contains)) :
    ((∃ text, extract html starts = .ok text) → ∃ text, extract html contains = .ok text) ∧
    (v ≠ [] → (∃ text, extract html equal = .ok text) → ∃ text, extract html starts = .ok text) ∧
    (v = [] → extract html starts = .error .noMatch ∧ extract html contains = .error .noMatch) := by
  rw [extract_asked_eq_ok equals, extract_asked_eq_ok startsWith, extract_asked_eq_ok containing]
  refine ⟨?_, ?_, ?_⟩
  · rintro ⟨line, s, mem, name, holds⟩
    exact ⟨line, s, mem, name, XPath.contains_of_starts holds⟩
  · rintro some_ ⟨line, s, mem, name, holds⟩
    exact ⟨line, s, mem, name, XPath.starts_of_equal some_ holds⟩
  · rintro rfl
    exact extract_asked_nil startsWith containing

def topPage : List Char := "<p class=top>x</p>".toList

theorem extract_strength_topPage :
    (∃ text, extract topPage "//p[starts-with(@class,'top')]".toList = .ok text) ∧
      ∃ text, extract topPage "//p[contains(@class,'top')]".toList = .ok text := by
  obtain ⟨equals, starts, contains⟩ :
      (asked ['p'] (.equals "class".toList "top".toList)).Written Plain
          (Text.trim "//p[@class='top']".toList) ∧
        (asked ['p'] (.startsWith "class".toList "top".toList)).Written Plain
          (Text.trim "//p[starts-with(@class,'top')]".toList) ∧
        (asked ['p'] (.contains "class".toList "top".toList)).Written Plain
          (Text.trim "//p[contains(@class,'top')]".toList) :=
    written_tests (by decide) (by decide) (by decide)
  have all : ((Html.parse topPage).placed.filter
      (selects [(asked ['p'] (.equals "class".toList "top".toList)).complex] none)).map
        (fun s => (s.info.number, s.text)) = [(3, "x")] := by decide +kernel
  have found : extract topPage "//p[@class='top']".toList = .ok "x" := by
    refine extract_of_placed 3 equals (equals.fine ?_) all (by simp) (by simp)
    simp [asked, XPath.Predicate.Usual, XPath.Test.Usual, Css.OneLine, Css.isNewline]
  obtain ⟨contained, started, -⟩ := @extract_strength ['p'] topPage _ _ _ _ _ equals starts contains
  have first := started (by decide) ⟨"x", found⟩
  exact ⟨first, contained first⟩

def emptyPage : List Char := "<p class=\"\">x</p>".toList

/-- An empty value is equal to an empty operand, but is not said to start with it. -/
theorem extract_emptyPage :
    extract emptyPage "//p[@class='']".toList = .ok "x" ∧
      extract emptyPage "//p[starts-with(@class,'')]".toList = .error .noMatch ∧
      extract emptyPage "//p[contains(@class,'')]".toList = .error .noMatch := by
  obtain ⟨equals, starts, contains⟩ :
      (asked ['p'] (.equals "class".toList [])).Written Plain (Text.trim "//p[@class='']".toList) ∧
        (asked ['p'] (.startsWith "class".toList [])).Written Plain
          (Text.trim "//p[starts-with(@class,'')]".toList) ∧
        (asked ['p'] (.contains "class".toList [])).Written Plain
          (Text.trim "//p[contains(@class,'')]".toList) :=
    written_tests (by decide) (by decide) (by simp)
  have all : ((Html.parse emptyPage).placed.filter
      (selects [(asked ['p'] (.equals "class".toList [])).complex] none)).map
        (fun s => (s.info.number, s.text)) = [(3, "x")] := by decide +kernel
  refine ⟨extract_of_placed 3 equals (equals.fine ?_) all (by simp) (by simp),
    extract_asked_nil starts contains⟩
  simp [asked, XPath.Predicate.Usual, XPath.Test.Usual, Css.OneLine]

end Toolwright.Selector
