import Toolwright.Proofs.Selector.Reader
import Toolwright.Proofs.Selector.Reading

/-!
Location paths find what they say. The selector that a path is compiled to is matched from the last
step backwards, while a path is read from the first step on; both agree on every element of a
document. So `extract` answers with the text of the first element that the path finds.
-/

namespace Toolwright.XPath

open Html (Document Spot)
open Css (Simple)

structure Path.Fine (path : Path) : Prop where
  steps : path ≠ []
  legible : ∀ step ∈ path, step.Legible
  arranged : ∀ step ∈ path, Arranged step.predicates step.rank
  unranked : ∀ step ∈ path.dropLast, step.rank = none

variable {P : Char → List Char → Prop}

theorem Predicate.Spelled.named {p : Predicate} {s : List Char} (h : p.Spelled P s) : p.Named := by
  cases h with
  | position => trivial
  | test spelled =>
    cases spelled with
    | has name => exact name
    | equals name => exact name
    | contains call => cases call; assumption
    | startsWith call => cases call; assumption

theorem Bracketed.named {ps : List Predicate} {s : List Char} (h : Bracketed P ps s) :
    ∀ p ∈ ps, p.Named := by
  induction h with
  | nil => simp
  | cons spelled _ _ _ ih => exact List.forall_mem_cons.2 ⟨spelled.named, ih⟩

theorem Step.Spelled.named {step : Step} {s : List Char} (h : step.Spelled P s) :
    step.name.Named ∧ ∀ p ∈ step.predicates, p.Named := by
  obtain ⟨name, -, bracketed⟩ := h
  refine ⟨?_, fun p hp => bracketed.named p (List.mem_append_left _ hp)⟩
  generalize step.name = test at name
  cases name with
  | any => trivial
  | name named => exact named

theorem Path.Spelled.named {path : Path} {s : List Char} (h : path.Spelled P s) :
    path ≠ [] ∧ ∀ step ∈ path, step.name.Named ∧ ∀ p ∈ step.predicates, p.Named := by
  induction h with
  | last spelled => exact ⟨by simp, by simpa using spelled.named⟩
  | cons spelled _ _ ih => exact ⟨by simp, List.forall_mem_cons.2 ⟨spelled.named, ih.2⟩⟩

theorem Step.Spelled.legible {step : Step} {s : List Char} (h : step.Spelled P s)
    (usual : ∀ p ∈ step.predicates, p.Usual) :
    step.Legible ∧ Arranged step.predicates step.rank := by
  obtain ⟨name, predicates⟩ := h.named
  obtain ⟨-, arranged, -⟩ := h
  exact ⟨⟨name, fun p hp => ⟨predicates p hp, usual p hp⟩⟩, arranged⟩

theorem Path.Spelled.fine {path : Path} {s : List Char} (h : path.Spelled P s)
    (usual : ∀ step ∈ path, ∀ p ∈ step.predicates, p.Usual) : path.Fine := by
  induction h with
  | last spelled =>
    obtain ⟨legible, arranged⟩ := spelled.legible (usual _ (List.mem_singleton_self _))
    exact ⟨by simp, by simpa using legible, by simpa using arranged, by simp⟩
  | @cons step path _ _ spelled unranked more ih =>
    obtain ⟨here, others⟩ := List.forall_mem_cons.1 usual
    obtain ⟨legible, arranged⟩ := spelled.legible here
    obtain ⟨steps, fine⟩ := ih others
    refine ⟨by simp, List.forall_mem_cons.2 ⟨legible, ‹_›⟩,
      List.forall_mem_cons.2 ⟨arranged, ‹_›⟩, ?_⟩
    rw [List.dropLast_cons_of_ne_nil steps]
    exact List.forall_mem_cons.2 ⟨unranked, ‹_›⟩

theorem Path.Written.fine {path : Path} {s : List Char} (h : path.Written P s)
    (usual : ∀ step ∈ path, ∀ p ∈ step.predicates, p.Usual) : path.Fine := by
  obtain ⟨t, spelled, -⟩ := h
  exact spelled.fine usual

theorem complex_append {path : Path} (steps : path ≠ []) (last : Step) :
    Path.complex (path ++ [last]) = .combined path.complex last.combinator last.simples := by
  obtain ⟨first, more, rfl⟩ := List.exists_cons_of_ne_nil steps
  simp [Path.complex, joinedTo, List.foldl_append]

theorem select_append {path : Path} (steps : path ≠ []) (last : Step) (d : Document) :
    Path.select d (path ++ [last]) = (path.select d).flatMap last.from := by
  obtain ⟨first, more, rfl⟩ := List.exists_cons_of_ne_nil steps
  simp [Path.select, List.foldl_append]

/-- What a path asks of the elements above the one that its last step goes to. -/
def Tied (path : Path) (last : Step) (s : Spot) : Prop :=
  if path = [] then last.descendant = true ∨ s.above = .document
  else if last.descendant then ∃ p ∈ s.ancestors, path.complex.holds p = true
  else ∃ p, s.above = .element p ∧ path.complex.holds p = true

theorem Tied.congr {path : Path} {last : Step} {s t : Spot} (h : t.above = s.above) :
    Tied path last t ↔ Tied path last s := by
  rw [Tied, Tied, Html.ancestors_congr h, h]

theorem holds_append (path : Path) {last : Step} (arranged : Arranged last.predicates last.rank)
    (usual : ∀ p ∈ last.predicates, p.Usual) (s : Spot) :
    (Path.complex (path ++ [last])).holds s = true ↔ last.kept s = true ∧ Tied path last s := by
  have compound : last.simples.all (Simple.holds s) = last.kept s := all_simples arranged usual
  by_cases steps : path = []
  · subst steps
    have whole : (Path.complex ([] ++ [last])).holds s = last.firstSimples.all (Simple.holds s) :=
      Css.holds_compound s _
    have root : Simple.root.holds s = true ↔ s.above = .document := by
      rw [Simple.holds]
      cases s.above <;> simp
    rw [whole, Step.firstSimples, List.all_append, compound, Bool.and_eq_true, Tied, if_pos rfl]
    cases last.descendant <;> simp [root]
  · rw [complex_append steps, Tied, if_neg steps, Step.combinator]
    cases last.descendant with
    | true =>
      rw [if_pos rfl, if_pos rfl, Css.holds_descendant, compound, Bool.and_eq_true,
        List.any_eq_true]
    | false =>
      rw [if_neg Bool.false_ne_true, if_neg Bool.false_ne_true, Css.holds_child, compound,
        Bool.and_eq_true, Spot.parent?]
      cases s.above <;> simp

def Unranked (path : Path) : Prop :=
  ∀ step ∈ path, step.rank = none ∧ Arranged step.predicates step.rank ∧
    ∀ p ∈ step.predicates, p.Usual

/-- A path is read from its first step on; what it finds are the elements of the document at which
its last step holds with all others above. -/
theorem mem_select_append {path : Path} (unranked : Unranked path) (last : Step) (d : Document)
    (s : Spot) :
    s ∈ Path.select d (path ++ [last]) ↔
      s ∈ d.all ∧ last.keeps s = true ∧ Tied path last s := by
  induction path using List.reverseRecOn generalizing last s with
  | nil =>
    have whole : Path.select d ([] ++ [last]) = last.start d := rfl
    rw [whole, Step.start, List.mem_filter, Tied, if_pos rfl]
    cases last.descendant with
    | true => simp
    | false =>
      rw [if_neg Bool.false_ne_true, Document.mem_tops_iff]
      simp [and_assoc, and_comm]
  | append_singleton init prev ih =>
    obtain ⟨others, here⟩ := List.forall_mem_append.1 unranked
    obtain ⟨rank, arranged, usual⟩ := here prev (List.mem_singleton_self prev)
    have steps : init ++ [prev] ≠ [] := by simp
    -- what was selected so far is what the steps before hold at, with its rank left aside
    have before : ∀ p, p ∈ Path.select d (init ++ [prev]) ↔
        p ∈ d.all ∧ (Path.complex (init ++ [prev])).holds p = true := by
      intro p
      have keeps : prev.keeps p = prev.kept p := by simp [keeps_eq arranged, rank]
      rw [ih others, keeps, holds_append init arranged usual]
    rw [select_append steps, List.mem_flatMap, Tied, if_neg steps]
    simp only [before, Step.from, List.mem_filter]
    cases last.descendant with
    | true =>
      simp only [if_true]
      constructor
      · rintro ⟨p, ⟨hp, holds⟩, below, keeps⟩
        have hs := Document.descendants_subset_all hp below
        exact ⟨hs, keeps, p, (Document.mem_ancestors_iff hs).2 ⟨hp, below⟩, holds⟩
      · rintro ⟨hs, keeps, p, ancestor, holds⟩
        obtain ⟨hp, below⟩ := (Document.mem_ancestors_iff hs).1 ancestor
        exact ⟨p, ⟨hp, holds⟩, below, keeps⟩
    | false =>
      simp only [Bool.false_eq_true, if_false]
      constructor
      · rintro ⟨p, ⟨hp, holds⟩, child, keeps⟩
        exact ⟨Document.childElements_subset_all hp child, keeps, p,
          Html.above_of_mem_childElements child, holds⟩
      · rintro ⟨hs, keeps, p, above, holds⟩
        obtain ⟨hp, child⟩ := Document.parent_mem_all hs above
        exact ⟨p, ⟨hp, holds⟩, child, keeps⟩

end Toolwright.XPath

namespace Toolwright.Selector

open XPath (Step Tied Unranked Arranged Plain)
open Html (Document Spot)

theorem matchesAny_singleton (c : Css.Complex) (s : Spot) : matchesAny [c] s = c.holds s := by
  simp [matchesAny, Css.anyHolds, Css.Complex.holds]

/-- Siblings have the same elements above them, so that the rank counts those that pass the last
step. -/
theorem selects_append {path : XPath.Path} {last : Step}
    (arranged : Arranged last.predicates last.rank)
    (usual : ∀ p ∈ last.predicates, p.Usual) (s : Spot) :
    selects [XPath.Path.complex (path ++ [last])] last.rank s = true ↔
      last.keeps s = true ∧ Tied path last s := by
  have holds := XPath.holds_append path arranged usual
  rw [selects, matchesAny_singleton, Bool.and_eq_true, holds, XPath.keeps_eq arranged,
    Bool.and_eq_true]
  by_cases tied : Tied path last s
  · have siblings : s.earlier.filter (matchesAny [XPath.Path.complex (path ++ [last])]) =
        s.earlier.filter last.kept := by
      refine List.filter_congr fun t ht => ?_
      rw [matchesAny_singleton, Bool.eq_iff_iff, holds,
        Tied.congr (Html.above_of_mem_earlier ht)]
      simp [tied]
    simp only [siblingRank, siblings, tied, and_true]
  · simp [tied]

theorem selects_iff {path : XPath.Path} (fine : path.Fine) {d : Document} {s : Spot}
    (h : s ∈ d.all) :
    selects [path.complex] path.rank s = true ↔ s ∈ path.select d := by
  obtain ⟨init, last, rfl⟩ := (List.eq_nil_or_concat' path).resolve_left fine.steps
  have unranked : Unranked init := by
    intro step mem
    have here : step ∈ init ++ [last] := List.mem_append_left _ mem
    have rank := fine.unranked step (by rwa [List.dropLast_concat])
    exact ⟨rank, fine.arranged step here, fun p hp => ((fine.legible step here).predicates p hp).2⟩
  have mem : last ∈ init ++ [last] := List.mem_append_right _ (List.mem_singleton_self last)
  have rank : XPath.Path.rank (init ++ [last]) = last.rank := by simp [XPath.Path.rank]
  rw [rank, selects_append (fine.arranged last mem)
    (fun p hp => ((fine.legible last mem).predicates p hp).2),
    XPath.mem_select_append unranked]
  simp [h]

theorem compile_of_written {selector : List Char} {path : XPath.Path}
    (h : path.Written Plain (Text.trim selector)) :
    compile selector = .ok ⟨path.css, path.rank⟩ := by
  have read := XPath.parse_of_plain h
  obtain ⟨rest, slash⟩ : ∃ rest, Text.trim selector = '/' :: rest := by
    obtain ⟨t, spelled, whole⟩ := h
    obtain ⟨rest, rfl⟩ := spelled.head
    rcases whole with whole | whole <;> exact ⟨_, whole⟩
  rw [slash] at read
  rw [compile, slash]
  simp only [read]

theorem extract_of_parse {html selector : List Char} {path : XPath.Path} {c : Css.Complex}
    (written : path.Written Plain (Text.trim selector)) (read : Css.parse path.css = .ok [c]) :
    extract html selector =
      match (Html.parse html).spots.find? (selects [c] path.rank) with
      | some s => .ok s.text
      | none => .error .noMatch := by
  rw [extract, find, compile_of_written written]
  simp only [bind, Except.bind, read]
  cases (Html.parse html).spots.find? (selects [c] path.rank) <;> rfl

theorem extract_eq {html selector : List Char} {path : XPath.Path}
    (written : path.Written Plain (Text.trim selector)) (fine : path.Fine) :
    extract html selector =
      match (Html.parse html).spots.find? (selects [path.complex] path.rank) with
      | some s => .ok s.text
      | none => .error .noMatch :=
  extract_of_parse written (XPath.parse_css fine.steps fine.legible)

theorem extract_of_placed {html selector : List Char} {path : XPath.Path}
    {found : List (Nat × String)}
    {text : String} (n : Nat) (written : path.Written Plain (Text.trim selector)) (fine : path.Fine)
    (all : ((Html.parse html).placed.filter (selects [path.complex] path.rank)).map
      (fun s => (s.info.number, s.text)) = found)
    (mem : (n, text) ∈ found) (least : ∀ m ∈ found, m = (n, text) ∨ n < m.1) :
    extract html selector = .ok text := by
  rw [extract_eq written fine]
  cases first : (Html.parse html).spots.find? (selects [path.complex] path.rank) <;>
    simpa [first] using Document.text_of_find?_spots all mem least

theorem extract_of_placed_nil {html selector : List Char} {path : XPath.Path}
    (written : path.Written Plain (Text.trim selector)) (fine : path.Fine)
    (none : (Html.parse html).placed.filter (selects [path.complex] path.rank) = []) :
    extract html selector = .error .noMatch := by
  have unfound : (Html.parse html).spots.find? (selects [path.complex] path.rank) =
      Option.none := by
    refine List.find?_eq_none.2 fun s hs => ?_
    exact List.filter_eq_nil_iff.1 none s (Document.mem_spots_iff.1 hs)
  rw [extract_eq written fine, unfound]

def IsFirst (P : Spot → Prop) (l : List Spot) (s : Spot) : Prop :=
  ∃ before after, l = before ++ s :: after ∧ P s ∧ ∀ t ∈ before, ¬ P t

theorem find?_eq_some_iff {P : Spot → Prop} {q : Spot → Bool} {l : List Spot}
    (h : ∀ s ∈ l, (q s = true ↔ P s)) {s : Spot} : l.find? q = some s ↔ IsFirst P l s := by
  rw [List.find?_eq_some_iff_append, IsFirst]
  constructor
  · rintro ⟨holds, before, after, rfl, none⟩
    refine ⟨before, after, rfl, (h s (by simp)).1 holds, fun t ht is => ?_⟩
    have no := none t ht
    rw [(h t (List.mem_append_left _ ht)).2 is] at no
    cases no
  · rintro ⟨before, after, rfl, is, none⟩
    refine ⟨(h s (by simp)).2 is, before, after, rfl, fun t ht => ?_⟩
    have no : q t ≠ true := fun holds => none t ht ((h t (List.mem_append_left _ ht)).1 holds)
    simp [no]

/-- The text that a path extracts is that of the first element that the path finds. Elements are
gone through by number, which is the order of the tree where the numbers ascend along it. -/
theorem extract_path {html selector : List Char} {path : XPath.Path}
    (written : path.Written Plain (Text.trim selector))
    (usual : ∀ step ∈ path, ∀ p ∈ step.predicates, p.Usual) :
    (∀ text, extract html selector = .ok text ↔
      ∃ s, IsFirst (· ∈ path.select (Html.parse html)) (Html.parse html).spots s ∧ s.text = text) ∧
    (extract html selector = .error .noMatch ↔
      ∀ s ∈ (Html.parse html).spots, s ∉ path.select (Html.parse html)) ∧
    ((Html.parse html).placed.Pairwise (fun s t => s.info.number ≤ t.info.number) →
      (Html.parse html).spots = (Html.parse html).placed) := by
  have fine := written.fine usual
  have found : ∀ s ∈ (Html.parse html).spots,
      (selects [path.complex] path.rank s = true ↔ s ∈ path.select (Html.parse html)) :=
    fun s hs => selects_iff fine (Document.placed_subset_all (Document.mem_spots_iff.1 hs))
  rw [extract_eq written fine]
  refine ⟨fun text => ?_, ?_, Document.spots_eq_placed⟩
  · have first := fun s => find?_eq_some_iff (s := s) found
    simp only [← first]
    cases (Html.parse html).spots.find? (selects [path.complex] path.rank) <;> simp
  · cases search : (Html.parse html).spots.find? (selects [path.complex] path.rank) with
    | none =>
      rw [List.find?_eq_none] at search
      exact iff_of_true rfl fun s hs selected => search s hs ((found s hs).2 selected)
    | some s =>
      have hs := List.mem_of_find?_eq_some search
      have holds := List.find?_some search
      exact iff_of_false (by rintro ⟨⟩) fun none => none s hs ((found s hs).1 holds)

def secondOfClass : XPath.Path := [⟨true, .name ['p'], [.test (.has "class".toList)], some 2⟩]

theorem written_secondOfClass :
    secondOfClass.Written Plain (Text.trim "//p[@class][2]".toList) := by
  have two : (XPath.Predicate.position 2).Spelled Plain ['2'] :=
    @XPath.Predicate.Spelled.position Plain ['2'] (by decide) (by decide) (by decide) (by decide)
  have marked : (XPath.Predicate.test (.has "class".toList)).Spelled Plain "@class".toList :=
    .test (.has (by decide))
  exact ⟨_, .last (.intro (.name (by decide)) ⟨by simp, by simp⟩
    (.cons marked .nil .nil (.cons two .nil .nil .nil))), .inl rfl⟩

theorem usual_secondOfClass : ∀ step ∈ secondOfClass, ∀ p ∈ step.predicates, p.Usual := by
  simp [secondOfClass, XPath.Predicate.Usual, XPath.Test.Usual]

def classPage : List Char := "<p>a</p><p class=x>b</p><p class=y>c</p>".toList

theorem extract_path_secondOfClass :
    extract classPage "//p[@class][2]".toList = .ok "c" ∧
      ∃ s, IsFirst (· ∈ secondOfClass.select (Html.parse classPage))
      (Html.parse classPage).spots s ∧
        s.text = "c" := by
  have all : ((Html.parse classPage).placed.filter
      (selects [secondOfClass.complex] secondOfClass.rank)).map (fun s => (s.info.number, s.text)) =
        [(5, "c")] := by decide +kernel
  have text : extract classPage "//p[@class][2]".toList = .ok "c" :=
    extract_of_placed 5 written_secondOfClass
      (written_secondOfClass.fine usual_secondOfClass) all (by simp) (by simp)
  exact ⟨text, ((extract_path written_secondOfClass usual_secondOfClass).1 "c").1 text⟩

def paragraphs : XPath.Path := [⟨true, .name ['p'], [], none⟩]

theorem written_paragraphs : paragraphs.Written Plain (Text.trim "//p".toList) :=
  ⟨_, .last (.intro (.name (by decide)) ⟨by simp, by simp⟩ .nil), .inl rfl⟩

theorem fine_paragraphs : paragraphs.Fine :=
  written_paragraphs.fine (by simp [paragraphs])

theorem exists_isFirst_placed {path : XPath.Path} (fine : path.Fine) {d : Document} {n : Nat}
    {text : String} {rest : List (Nat × String)}
    (all : (d.placed.filter (selects [path.complex] path.rank)).map
      (fun s => (s.info.number, s.text)) = (n, text) :: rest) :
    ∃ s, IsFirst (· ∈ path.select d) d.placed s ∧ s.text = text := by
  have first : (d.placed.find? (selects [path.complex] path.rank)).map
      (fun s => (s.info.number, s.text)) = some (n, text) := by
    rw [← List.head?_filter, ← List.head?_map, all]
    rfl
  obtain ⟨s, found, same⟩ := Option.map_eq_some_iff.1 first
  refine ⟨s, ?_, congrArg Prod.snd same⟩
  exact (find?_eq_some_iff fun t ht => selects_iff fine (Document.placed_subset_all ht)).1 found

/-- A table with a paragraph inside and one that has no place in it, which is moved in front of the
table but came to be after the other one. -/
def tablePage : List Char := "<table><tr><td><p>in</p></td></tr><p>out</p></table>".toList

theorem matches_tablePage : ((Html.parse tablePage).placed.filter
    (selects [paragraphs.complex] paragraphs.rank)).map (fun s => (s.info.number, s.text)) =
      [(8, "out"), (7, "in")] := by decide +kernel

def framePage : List Char := "<p></p><frameset>".toList

theorem matches_framePage : ((Html.parse framePage).placed.filter
    (selects [paragraphs.complex] paragraphs.rank)).map (fun s => (s.info.number, s.text)) =
      [(3, "")] := by decide +kernel

theorem tree_framePage : ((Html.spotsOf true .document [] (Html.parse framePage).nodes).filter
    (selects [paragraphs.complex] paragraphs.rank)).map (fun s => s.info.number) = [] := by
  decide +kernel

def templatePage : List Char := "<template><p>in</p></template>".toList

theorem matches_templatePage : ((Html.parse templatePage).placed.filter
    (selects [paragraphs.complex] paragraphs.rank)).map (fun s => (s.info.number, s.text)) =
      [(3, "in")] := by decide +kernel

def belowTemplates : XPath.Path :=
  [⟨true, .name "template".toList, [], none⟩, ⟨true, .name ['p'], [], none⟩]

theorem written_belowTemplates : belowTemplates.Written Plain (Text.trim "//template//p".toList) :=
  ⟨_, .cons (.intro (.name (by decide)) ⟨by simp, by simp⟩ .nil) rfl
    (.last (.intro (.name (by decide)) ⟨by simp, by simp⟩ .nil)), .inl rfl⟩

theorem below_templatePage : ((Html.parse templatePage).placed.filter
    (selects [belowTemplates.complex] belowTemplates.rank)).map (fun s => s.info.number) = [] := by
  decide +kernel

/-- What is found is not what stands first in the tree of a document: a later element may come
first, an element that was cut off is found, and what a template holds is not below it. -/
theorem extract_unlike_tree :
    (extract tablePage "//p".toList = .ok "in" ∧
      ∃ s, IsFirst (· ∈ paragraphs.select (Html.parse tablePage)) (Html.parse tablePage).placed s ∧
        s.text = "out") ∧
    (extract framePage "//p".toList = .ok "" ∧
      ∀ s ∈ Html.spotsOf true .document [] (Html.parse framePage).nodes,
        s ∉ paragraphs.select (Html.parse framePage)) ∧
    extract templatePage "//p".toList = .ok "in" ∧
      extract templatePage "//template//p".toList = .error .noMatch := by
  refine ⟨⟨?_, exists_isFirst_placed fine_paragraphs matches_tablePage⟩,
    ⟨?_, fun s hs => ?_⟩, ?_, ?_⟩
  · exact extract_of_placed 7 written_paragraphs fine_paragraphs matches_tablePage (by simp)
      (by simp)
  · exact extract_of_placed 3 written_paragraphs fine_paragraphs matches_framePage (by simp)
      (by simp)
  · rw [← selects_iff fine_paragraphs (List.mem_append_left _ hs)]
    exact List.filter_eq_nil_iff.1 (List.map_eq_nil_iff.1 tree_framePage) s hs
  · exact extract_of_placed 3 written_paragraphs fine_paragraphs matches_templatePage (by simp)
      (by simp)
  · exact extract_of_placed_nil written_belowTemplates
      (written_belowTemplates.fine (by simp [belowTemplates]))
      (List.map_eq_nil_iff.1 below_templatePage)

end Toolwright.Selector
