import Mathlib.Data.List.Forall2
import Toolwright.Proofs.Selector.Finding

/-!
What location paths become in CSS. `Translated` says it step by step: a name with the predicates
behind it, and the steps joined by combinators. A path that is read becomes that text and no other.
No such text begins with a slash or has white space at its ends, so as a selector it stands for
itself.
-/

namespace Toolwright.XPath

open Text (Bare)

/-- An operand as it stands between double quotes: a backslash is put in front of every backslash
and every double quote. -/
inductive Marked : List Char → List Char → Prop
  | nil : Marked [] []
  | plain {c : Char} {v w : List Char} (backslash : c ≠ '\\') (quote : c ≠ '"')
      (more : Marked v w) : Marked (c :: v) (c :: w)
  | mark {c : Char} {v w : List Char} (special : c = '\\' ∨ c = '"') (more : Marked v w) :
      Marked (c :: v) ('\\' :: c :: w)

inductive Test.Translated : Test → List Char → Prop
  | has {a : List Char} : Test.Translated (.has a) ("[".toList ++ a ++ "]".toList)
  | equals {a v w : List Char} (marked : Marked v w) :
      Test.Translated (.equals a v) ("[".toList ++ a ++ "=\"".toList ++ w ++ "\"]".toList)
  | contains {a v w : List Char} (marked : Marked v w) :
      Test.Translated (.contains a v) ("[".toList ++ a ++ "*=\"".toList ++ w ++ "\"]".toList)
  | startsWith {a v w : List Char} (marked : Marked v w) :
      Test.Translated (.startsWith a v) ("[".toList ++ a ++ "^=\"".toList ++ w ++ "\"]".toList)

inductive Predicate.Translated : NameTest → Predicate → List Char → Prop
  | test {name : NameTest} {t : Test} {s : List Char} (translated : t.Translated s) :
      Predicate.Translated name (.test t) s
  | ofType {m : List Char} {n : Nat} : Predicate.Translated (.name m) (.position n)
      (":nth-of-type(".toList ++ (toString n).toList ++ ")".toList)
  | child {n : Nat} : Predicate.Translated .any (.position n)
      (":nth-child(".toList ++ (toString n).toList ++ ")".toList)

/-- The name as it is written in the path, and behind it each predicate. -/
inductive Step.Translated (step : Step) : List Char → Prop
  | intro {n : List Char} {parts : List (List Char)} (name : step.name.Spelled n)
      (predicates : List.Forall₂ (Predicate.Translated step.name) step.predicates parts) :
      Step.Translated step (n ++ parts.flatten)

inductive Path.Joined : Path → List Char → Prop
  | nil : Path.Joined [] []
  | cons {step : Step} {path : Path} {s rest : List Char} (here : step.Translated s)
      (more : Path.Joined path rest) : Path.Joined (step :: path)
        ((if step.descendant then " ".toList else " > ".toList) ++ s ++ rest)

inductive Path.Translated : Path → List Char → Prop
  | intro {first : Step} {path : Path} {s rest : List Char} (here : first.Translated s)
      (more : Path.Joined path rest) : Path.Translated (first :: path)
        (s ++ (if first.descendant then [] else ":root".toList) ++ rest)

variable {P : Char → List Char → Prop} {s css : List Char} {path : Path}

theorem marked_iff {v w : List Char} : Marked v w ↔ w = Css.quotedBody v := by
  constructor
  · intro h
    induction h with
    | nil => rfl
    | plain backslash quote _ ih => simp [ih, Css.quotedBody, backslash, quote]
    | mark special _ ih => simp [ih, Css.quotedBody, special]
  · rintro rfl
    induction v with
    | nil => exact .nil
    | cons c v ih =>
      by_cases special : c = '\\' ∨ c = '"'
      · simpa [Css.quotedBody, special] using Marked.mark special ih
      · obtain ⟨backslash, quote⟩ := not_or.1 special
        simpa [Css.quotedBody, special] using Marked.plain backslash quote ih

theorem cssString_eq (v : List Char) : cssString v = '"' :: (Css.quotedBody v ++ ['"']) := rfl

theorem Test.translated_iff {t : Test} : t.Translated s ↔ s = t.css := by
  constructor
  · intro h
    cases h with
    | has => rfl
    | equals marked | contains marked | startsWith marked =>
      rw [marked_iff.1 marked]
      simp [Test.css, cssString_eq]
  · rintro rfl
    have marked := fun v => (marked_iff (v := v)).2 rfl
    cases t with
    | has a => exact .has
    | equals a v => simpa [Test.css, cssString_eq] using Test.Translated.equals (a := a) (marked v)
    | contains a v =>
      simpa [Test.css, cssString_eq] using Test.Translated.contains (a := a) (marked v)
    | startsWith a v =>
      simpa [Test.css, cssString_eq] using Test.Translated.startsWith (a := a) (marked v)

theorem Predicate.translated_iff {name : NameTest} {p : Predicate} :
    p.Translated name s ↔ s = p.css name := by
  constructor
  · intro h
    cases h with
    | test translated => exact Test.translated_iff.1 translated
    | ofType => rfl
    | child => rfl
  · rintro rfl
    cases p with
    | test t => exact .test (Test.translated_iff.2 rfl)
    | position n =>
      cases name with
      | any => exact .child
      | name m => exact .ofType

theorem forall₂_translated_iff {name : NameTest} {ps : List Predicate} {parts : List (List Char)} :
    List.Forall₂ (Predicate.Translated name) ps parts ↔ parts = ps.map (Predicate.css name) := by
  have same : Predicate.Translated name = fun p s => Predicate.css name p = s := by
    funext p s
    exact propext (Predicate.translated_iff.trans eq_comm)
  rw [same, ← List.forall₂_map_left_iff, List.forall₂_eq_eq_eq, eq_comm]

theorem NameTest.spelled_iff {name : NameTest} {n : List Char} :
    name.Spelled n ↔ name.Named ∧ n = name.css := by
  constructor
  · intro h
    cases h with
    | any => exact ⟨trivial, rfl⟩
    | name isName => exact ⟨isName, rfl⟩
  · rintro ⟨named, rfl⟩
    cases name with
    | any => exact .any
    | name n => exact .name named

theorem Step.translated_iff {step : Step} (named : step.name.Named) :
    step.Translated s ↔ s = step.css := by
  rw [Step.css, List.flatMap_def]
  constructor
  · rintro ⟨name, predicates⟩
    rw [(NameTest.spelled_iff.1 name).2, forall₂_translated_iff.1 predicates]
  · rintro rfl
    exact .intro (NameTest.spelled_iff.2 ⟨named, rfl⟩) (forall₂_translated_iff.2 rfl)

theorem Path.joined_iff (named : ∀ step ∈ path, step.name.Named) :
    path.Joined css ↔ css = path.flatMap Step.joined := by
  induction path generalizing css with
  | nil => exact ⟨by rintro ⟨⟩; rfl, by rintro rfl; exact .nil⟩
  | cons step path ih =>
    obtain ⟨here, behind⟩ := List.forall_mem_cons.1 named
    have whole : (step :: path).flatMap Step.joined =
        (if step.descendant then " ".toList else " > ".toList) ++ step.css ++
          path.flatMap Step.joined := rfl
    rw [whole]
    constructor
    · rintro ⟨⟩
      rename_i s rest translated more
      rw [(Step.translated_iff here).1 translated, (ih behind).1 more]
    · rintro rfl
      exact .cons ((Step.translated_iff here).2 rfl) ((ih behind).2 rfl)

theorem Path.translated_iff (steps : path ≠ []) (named : ∀ step ∈ path, step.name.Named) :
    path.Translated css ↔ css = path.css := by
  cases path with
  | nil => exact absurd rfl steps
  | cons first path =>
    obtain ⟨here, behind⟩ := List.forall_mem_cons.1 named
    constructor
    · rintro ⟨translated, more⟩
      rw [(Step.translated_iff here).1 translated, (Path.joined_iff behind).1 more, Path.css]
    · rintro rfl
      exact .intro ((Step.translated_iff here).2 rfl) ((Path.joined_iff behind).2 rfl)

theorem Path.Written.translated_iff {text : List Char} (h : path.Written P text) :
    path.Translated css ↔ css = path.css := by
  obtain ⟨t, spelled, -⟩ := h
  obtain ⟨steps, named⟩ := spelled.named
  exact Path.translated_iff steps fun step mem => (named step mem).1

/-- What is emitted for a path so far: a text that is no path itself, with no white space at its
ends. -/
structure Emitted (s : List Char) : Prop where
  nonempty : s ≠ []
  bare : Bare s
  slash : s.head? ≠ some '/'

theorem Emitted.append {t : List Char} (h : Emitted s)
    (last : ∃ c ∈ t.getLast?, Text.isBlank c = false) : Emitted (s ++ t) := by
  obtain ⟨c, rest, rfl⟩ := List.exists_cons_of_ne_nil h.nonempty
  obtain ⟨d, there, plain⟩ := last
  refine ⟨by simp, ⟨?_, ?_⟩, h.slash⟩
  · rintro _ ⟨⟩
    exact h.bare.first c rfl
  · intro e he
    rw [List.getLast?_append, there, Option.some_or] at he
    cases he
    exact plain

theorem NameTest.Spelled.emitted {name : NameTest} {n : List Char} (h : name.Spelled n) :
    Emitted n := by
  obtain ⟨-, slash, -, nonempty⟩ := h.plain
  refine ⟨nonempty, ?_, fun first => slash (List.mem_of_mem_head? first)⟩
  cases h with
  | any => exact .of_forall (by simp; decide)
  | name isName => exact bare_name isName

theorem Predicate.Translated.last {name : NameTest} {p : Predicate} (h : p.Translated name s) :
    ∃ c ∈ s.getLast?, Text.isBlank c = false := by
  cases h with
  | test translated =>
    cases translated <;> exact ⟨']', by rw [List.getLast?_append]; rfl, by decide⟩
  | ofType | child => exact ⟨')', by rw [List.getLast?_append]; rfl, by decide⟩

theorem Step.Translated.emitted {step : Step} (h : step.Translated s) : Emitted s := by
  obtain ⟨name, predicates⟩ := h
  rename_i n parts
  have begun := name.emitted
  clear name
  generalize step.predicates = ps at predicates
  induction predicates generalizing n with
  | nil => simpa using begun
  | cons here _ ih =>
    rw [List.flatten_cons, ← List.append_assoc]
    exact ih (begun.append here.last)

theorem Emitted.last (h : Emitted s) : ∃ c ∈ s.getLast?, Text.isBlank c = false := by
  have there := List.getLast?_eq_some_getLast h.nonempty
  exact ⟨_, there, h.bare.last _ there⟩

theorem Path.Joined.emitted {rest : List Char} (h : path.Joined rest) (begun : Emitted s) :
    Emitted (s ++ rest) := by
  induction h generalizing s with
  | nil => simpa using begun
  | cons here _ ih =>
    obtain ⟨c, there, plain⟩ := here.emitted.last
    rw [← List.append_assoc]
    refine ih (begun.append ⟨c, ?_, plain⟩)
    rw [List.getLast?_append, there, Option.some_or]
    rfl

theorem Path.Translated.emitted (h : path.Translated css) : Emitted css := by
  obtain ⟨here, more⟩ := h
  rename_i first path s rest
  refine more.emitted ?_
  cases first.descendant with
  | true => simpa using here.emitted
  | false => exact here.emitted.append ⟨'t', rfl, by decide⟩

end Toolwright.XPath

namespace Toolwright.Selector

open Text (Bare)
open XPath (Plain Closed Emitted)

variable {selector css : List Char}

theorem toCss_eq_ok : toCss selector = .ok css ↔ compile selector = .ok ⟨css, none⟩ := by
  rw [toCss]
  cases compile selector with
  | error p => exact ⟨nofun, nofun⟩
  | ok compiled =>
    obtain ⟨text, rank⟩ := compiled
    cases rank <;> simp [bind, Except.bind]

/-- The steps of a path, translated one by one, are what the path is compiled to; a rank is kept
beside them, and then there is no CSS for the whole path. -/
theorem toCss_of_written {path : XPath.Path} (written : path.Written Plain (Text.trim selector)) :
    ∃ css, (∀ text, path.Translated text ↔ text = css) ∧
      (path.rank = none → toCss selector = .ok css) ∧
      ∀ n, path.rank = some n →
        toCss selector = .error .rankOutsideCss ∧ compile selector = .ok ⟨css, some n⟩ := by
  have compiled := compile_of_written written
  refine ⟨path.css, fun text => written.translated_iff, fun unranked => ?_, fun n ranked => ?_⟩
  · rw [toCss_eq_ok, compiled, unranked]
  · rw [ranked] at compiled
    exact ⟨by simp [toCss, compiled, bind, Except.bind], compiled⟩

/-- Links below the root, the second of each parent, with an address in which all stands that ends
something elsewhere. -/
def markedLinks : XPath.Path :=
  [⟨false, .name "html".toList, [], none⟩,
    ⟨true, .name ['a'], [.position 2, .test (.contains "href".toList "/[x]),=\"\\".toList)], none⟩]

theorem written_markedLinks : markedLinks.Written Plain
    (Text.trim "/html//a[2][ contains( @href , '/[x]),=\"\\' ) ]/text()".toList) := by
  have second : (XPath.Predicate.position 2).Spelled Plain ['2'] :=
    @XPath.Predicate.Spelled.position Plain ['2'] (by decide) (by decide) (by decide) (by decide)
  have blank : Text.Blanks [' '] := by
    intro c hc
    obtain rfl := List.mem_singleton.1 hc
    decide
  have quoted : XPath.Quoted Plain "/[x]),=\"\\".toList "'/[x]),=\"\\'".toList :=
    .intro (q := '\'') (by decide) (show '\'' ∉ _ by decide)
  have call : XPath.Call Plain "contains" "href".toList "/[x]),=\"\\".toList
      "contains( @href , '/[x]),=\"\\' )".toList :=
    @XPath.Call.intro Plain _ _ _ [] [' '] [' '] [' '] [' '] _ (by decide) quoted .nil blank blank
      blank blank
  exact ⟨_, .cons (.intro (.name (by decide)) ⟨by simp, by simp⟩ .nil) rfl
    (.last (.intro (.name (by decide)) ⟨by simp, by simp⟩
      (.cons second .nil .nil (@XPath.Bracketed.cons Plain _ _ [' '] [' '] _ []
        (.test (.contains call)) blank blank .nil)))), .inr rfl⟩

theorem toCss_of_written_markedLinks :
    (markedLinks.Translated "html:root a:nth-of-type(2)[href*=\"/[x]),=\\\"\\\\\"]".toList ∧
      toCss "/html//a[2][ contains( @href , '/[x]),=\"\\' ) ]/text()".toList =
        .ok "html:root a:nth-of-type(2)[href*=\"/[x]),=\\\"\\\\\"]".toList) ∧
    toCss "//p[@class][2]".toList = .error .rankOutsideCss ∧
      compile "//p[@class][2]".toList = .ok ⟨"p[class]".toList, some 2⟩ := by
  obtain ⟨css, one, plain, -⟩ := toCss_of_written written_markedLinks
  obtain ⟨css', one', -, ranked⟩ := toCss_of_written written_secondOfClass
  obtain rfl : XPath.Path.css markedLinks = css :=
    (one _).1 (written_markedLinks.translated_iff.2 rfl)
  obtain rfl : XPath.Path.css secondOfClass = css' :=
    (one' _).1 (written_secondOfClass.translated_iff.2 rfl)
  exact ⟨⟨(one _).2 rfl, plain rfl⟩, ranked 2 rfl⟩

theorem compile_emitted (h : Emitted css) : compile css = .ok ⟨css, none⟩ := by
  have whole : Text.trim css = css := by simpa using Text.trim_pad h.bare .nil .nil
  rw [compile, whole]
  split
  · exact absurd rfl h.nonempty
  · exact absurd rfl h.slash
  · rfl

theorem emitted_of_compile {rank : Option Nat} (h : compile selector = .ok ⟨css, rank⟩) :
    Emitted css := by
  rw [compile] at h
  split at h
  · cases h
  · split at h
    · next path read =>
      cases h
      have written := XPath.parse_eq_ok.1 read
      exact (written.translated_iff.2 rfl).emitted
    · cases h
  · next nonempty slash =>
    cases h
    refine ⟨nonempty, Text.bare_trim selector, fun first => ?_⟩
    obtain ⟨rest, whole⟩ := List.head?_eq_some_iff.1 first
    exact slash rest whole

/-- What a selector is translated to is translated to itself, and both find the same. -/
theorem toCss_toCss (h : toCss selector = .ok css) :
    toCss css = .ok css ∧ ∀ html, extract html css = extract html selector := by
  have compiled := toCss_eq_ok.1 h
  have again := compile_emitted (emitted_of_compile compiled)
  refine ⟨toCss_eq_ok.2 again, fun html => ?_⟩
  simp only [extract, find, compiled, again]

theorem toCss_toCss_spaced :
    toCss " //div[@id='x/y']/p[2]/text()\n".toList =
      .ok "div[id=\"x/y\"] > p:nth-of-type(2)".toList ∧
    toCss "div[id=\"x/y\"] > p:nth-of-type(2)".toList =
      .ok "div[id=\"x/y\"] > p:nth-of-type(2)".toList ∧
    ∀ html, extract html "div[id=\"x/y\"] > p:nth-of-type(2)".toList =
      extract html " //div[@id='x/y']/p[2]/text()\n".toList := by
  have translated : toCss " //div[@id='x/y']/p[2]/text()\n".toList =
      .ok "div[id=\"x/y\"] > p:nth-of-type(2)".toList := by rfl
  exact ⟨translated, toCss_toCss translated⟩

end Toolwright.Selector
