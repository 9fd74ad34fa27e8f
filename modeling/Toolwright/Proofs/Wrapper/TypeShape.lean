import Mathlib.Data.List.TakeWhile
import Toolwright.Proofs.Text.Blank
import Toolwright.Wrapper.TypeShape

/-!
How types are spelled. A list is a wrapper around its element or an element with brackets behind it,
a map is a wrapper around a key and an element or an element alone; any other text names a single
element. White space around a type or an element does not count. The shape of a declared type is
read off its spelling, one container deep.
-/

namespace Toolwright.Wrapper

open Text

def Wraps (wrappers : List String) (name inner : List Char) : Prop :=
  ∃ w ∈ wrappers, name = w.toList ++ '<' :: (inner ++ ['>'])

def ListSpelled (name element : List Char) : Prop :=
  Wraps listWrappers name element ∨ name = element ++ ['[', ']']

/-- The text of a map and that of its values: what stands behind the first comma, if there is
one. -/
def MapSpelled (name element : List Char) : Prop :=
  (∃ key, ',' ∉ key ∧ Wraps mapWrappers name (key ++ ',' :: element)) ∨
    (',' ∉ element ∧ Wraps mapWrappers name element)

def SingleSpelled (name : List Char) : Prop :=
  ∀ element, ¬ ListSpelled name element ∧ ¬ MapSpelled name element

theorem Wraps.unique {wrappers wrappers' : List String} {name inner inner' : List Char}
    (h : Wraps wrappers name inner) (h' : Wraps wrappers' name inner')
    (plain : ∀ w ∈ wrappers ++ wrappers', '<' ∉ w.toList) :
    inner = inner' ∧ ∃ w ∈ wrappers, w ∈ wrappers' := by
  obtain ⟨w, hw, rfl⟩ := h
  obtain ⟨w', hw', same⟩ := h'
  have clean : '<' ∉ w.toList := plain w (List.mem_append_left _ hw)
  have clean' : '<' ∉ w'.toList := plain w' (List.mem_append_right _ hw')
  obtain ⟨front, behind⟩ : w.toList = w'.toList ∧ inner ++ ['>'] = inner' ++ ['>'] := by
    have heads := congrArg (List.takeWhile (· != '<')) same
    have take : ∀ {s : List Char}, '<' ∉ s → ∀ rest,
        (s ++ '<' :: rest).takeWhile (· != '<') = s := fun {s} hs rest => by
      rw [List.takeWhile_append_of_pos fun c hc => by simpa using ne_of_mem_of_not_mem hc hs]
      simp
    rw [take clean, take clean'] at heads
    rw [heads] at same
    exact ⟨heads, (List.cons.inj (List.append_cancel_left same)).2⟩
  exact ⟨List.append_cancel_right behind, w, hw, String.toList_inj.1 front ▸ hw'⟩

theorem wrappers_plain : ∀ w ∈ listWrappers ++ mapWrappers, '<' ∉ w.toList := by decide

theorem Wraps.last {wrappers : List String} {name inner : List Char}
    (h : Wraps wrappers name inner) :
    name.getLast? = some '>' := by
  obtain ⟨w, _, rfl⟩ := h
  rw [← List.cons_append, ← List.append_assoc]
  exact List.getLast?_concat

theorem argumentOf?_eq_some {declared wrapper argument : List Char} :
    argumentOf? declared wrapper = some argument ↔
      ∃ inner, declared = wrapper ++ '<' :: (inner ++ ['>']) ∧ argument = trim inner := by
  unfold argumentOf?
  constructor
  · intro h
    split at h
    · rename_i rest front
      obtain ⟨inner, back, rfl⟩ := Option.map_eq_some_iff.1 h
      rw [List.isPrefixOf?_eq_some_iff_append_eq] at front
      rw [List.isSuffixOf?_eq_some_iff_append_eq] at back
      exact ⟨inner, by rw [← front, ← back], rfl⟩
    · cases h
  · rintro ⟨inner, rfl, rfl⟩
    rw [List.isPrefixOf?_eq_some_iff_append_eq.2 rfl]
    simp [List.isSuffixOf?_eq_some_iff_append_eq.2]

theorem argumentOfAny?_of_wraps {wrappers : List String} {name inner : List Char}
    (plain : ∀ w ∈ wrappers, '<' ∉ w.toList) (h : Wraps wrappers name inner) :
    argumentOfAny? name wrappers = some (trim inner) := by
  have plain₂ : ∀ w ∈ wrappers ++ wrappers, '<' ∉ w.toList := fun w hw =>
    plain w ((List.mem_append.1 hw).elim id id)
  -- another wrapper may be tried first, but it cannot be in front of the same bracket
  cases found : argumentOfAny? name wrappers with
  | none =>
    obtain ⟨w, hw, text⟩ := h
    have missed := List.findSome?_eq_none_iff.1 found w hw
    rw [argumentOf?_eq_some.2 ⟨inner, text, rfl⟩] at missed
    cases missed
  | some argument =>
    obtain ⟨w, hw, read⟩ := List.exists_of_findSome?_eq_some found
    obtain ⟨other, text, rfl⟩ := argumentOf?_eq_some.1 read
    rw [(Wraps.unique h ⟨w, hw, text⟩ plain₂).1]

theorem argumentOfAny?_eq_none {wrappers : List String} {name : List Char}
    (h : ∀ inner, ¬ Wraps wrappers name inner) : argumentOfAny? name wrappers = none := by
  refine List.findSome?_eq_none_iff.2 fun w hw => Option.eq_none_iff_forall_ne_some.2 ?_
  intro argument read
  obtain ⟨inner, text, _⟩ := argumentOf?_eq_some.1 read
  exact h inner ⟨w, hw, text⟩

@[simp] theorem trim_trim (s : List Char) : trim (trim s) = trim s := trim_of_bare (bare_trim s)

@[simp] theorem elementOf_trim (t : Tool) (s : List Char) :
    elementOf t (trim s) = elementOf t s := by
  simp only [elementOf, trim_trim]

theorem afterComma_append {key : List Char} (plain : ',' ∉ key) (element : List Char) :
    afterComma (key ++ ',' :: element) = element := by
  have cut : (key ++ ',' :: element).dropWhile (· != ',') = ',' :: element := by
    rw [List.dropWhile_append_of_pos fun c hc => by simpa using ne_of_mem_of_not_mem hc plain]
    simp
  rw [afterComma, cut]

theorem afterComma_eq_self {element : List Char} (plain : ',' ∉ element) :
    afterComma element = element := by
  have cut : element.dropWhile (· != ',') = [] :=
    List.dropWhile_eq_nil_iff.2 fun c hc => by simpa using ne_of_mem_of_not_mem hc plain
  rw [afterComma, cut]

theorem trim_comma (key element : List Char) :
    trim (key ++ ',' :: element) = trimStart key ++ ',' :: trimEnd element := by
  obtain ⟨b, blanks, front⟩ := exists_trimStart key
  obtain ⟨b', blanks', behind⟩ := exists_trimEnd element
  have bare : Bare (trimStart key ++ ',' :: trimEnd element) := by
    constructor
    · intro c hc
      rcases mem_head?_append hc with inside | comma
      · exact head?_dropWhile key c inside
      · cases comma
        decide
    · intro c hc
      rw [← List.singleton_append, ← List.append_assoc] at hc
      rcases mem_getLast?_append hc with comma | inside
      · rw [List.getLast?_concat] at comma
        cases comma
        decide
      · rw [trimEnd, dropEnd, List.getLast?_reverse] at inside
        exact head?_dropWhile element.reverse c inside
  have whole : key ++ ',' :: element = b ++ ((trimStart key ++ ',' :: trimEnd element) ++ b') := by
    conv_lhs => rw [front, behind]
    simp only [List.append_assoc, List.cons_append]
  rw [whole, trim_pad bare blanks blanks']

theorem trim_trimEnd (s : List Char) : trim (trimEnd s) = trim s := by
  obtain ⟨b, blanks, whole⟩ := exists_trimEnd s
  have around := trim_around Blanks.nil blanks (trimEnd s)
  rw [List.nil_append, ← whole] at around
  exact around.symm

theorem trim_afterComma_trim {inner element : List Char}
    (h : (∃ key, ',' ∉ key ∧ inner = key ++ ',' :: element) ∨ (',' ∉ element ∧ inner = element)) :
    trim (afterComma (trim inner)) = trim element := by
  rcases h with ⟨key, plain, rfl⟩ | ⟨plain, rfl⟩
  · have front : ',' ∉ trimStart key := fun comma => plain ((List.dropWhile_sublist _).subset comma)
    rw [trim_comma, afterComma_append front, trim_trimEnd]
  · have cut : ',' ∉ trim inner := fun comma => by
      obtain ⟨b₁, b₂, _, _, whole⟩ := exists_trim inner
      exact plain (by rw [whole]; simp [comma])
    rw [afterComma_eq_self cut, trim_trim]

theorem MapSpelled.wraps {name element : List Char} (h : MapSpelled name element) :
    ∃ inner, Wraps mapWrappers name inner ∧ trim (afterComma (trim inner)) = trim element := by
  rcases h with ⟨key, plain, wraps⟩ | ⟨plain, wraps⟩
  · exact ⟨_, wraps, trim_afterComma_trim (.inl ⟨key, plain, rfl⟩)⟩
  · exact ⟨_, wraps, trim_afterComma_trim (.inr ⟨plain, rfl⟩)⟩

theorem exists_mapSpelled {name inner : List Char} (h : Wraps mapWrappers name inner) :
    ∃ element, MapSpelled name element := by
  by_cases comma : ',' ∈ inner
  · obtain ⟨key, element, rfl, plain⟩ := List.eq_append_cons_of_mem comma
    exact ⟨element, .inl ⟨key, plain, h⟩⟩
  · exact ⟨inner, .inr ⟨comma, h⟩⟩

theorem not_listSpelled_of_wraps {name inner element : List Char}
    (h : Wraps mapWrappers name inner) :
    ¬ ListSpelled name element := by
  rintro (wraps | rfl)
  · obtain ⟨_, w, hw, hw'⟩ := wraps.unique h wrappers_plain
    have apart : ∀ w ∈ listWrappers, w ∉ mapWrappers := by decide
    exact apart w hw hw'
  · have last := h.last
    simp at last

theorem listArgument?_of_spelled {name element : List Char} (h : ListSpelled name element) :
    ∃ argument, listArgument? name = some argument ∧ trim argument = trim element := by
  have plain : ∀ w ∈ listWrappers, '<' ∉ w.toList := fun w hw =>
    wrappers_plain w (List.mem_append_left _ hw)
  rcases h with wraps | rfl
  · exact ⟨trim element, by simp [listArgument?, argumentOfAny?_of_wraps plain wraps], trim_trim _⟩
  · have other : argumentOfAny? (element ++ ['[', ']']) listWrappers = none :=
      argumentOfAny?_eq_none fun inner wraps => by
        have last := wraps.last
        simp at last
    have cut : List.isSuffixOf? ['[', ']'] (element ++ ['[', ']']) = some element :=
      List.isSuffixOf?_eq_some_iff_append_eq.2 rfl
    exact ⟨element, by simp [listArgument?, other, cut], rfl⟩

theorem listArgument?_eq_none {name : List Char} (h : ∀ element, ¬ ListSpelled name element) :
    listArgument? name = none := by
  have none_ : argumentOfAny? name listWrappers = none :=
    argumentOfAny?_eq_none fun inner wraps => h inner (.inl wraps)
  rw [listArgument?, none_]
  refine Option.eq_none_iff_forall_ne_some.2 fun element cut => ?_
  exact h element (.inr (List.isSuffixOf?_eq_some_iff_append_eq.1 cut).symm)

variable (t : Tool) {declared element : List Char}

theorem typeShapeOf_list (h : ListSpelled (trim declared) element) :
    typeShapeOf t declared = .list (elementOf t element) := by
  obtain ⟨argument, found, same⟩ := listArgument?_of_spelled h
  rw [typeShapeOf]
  simp only [found]
  rw [← elementOf_trim, same, elementOf_trim]

theorem typeShapeOf_map (h : MapSpelled (trim declared) element) :
    typeShapeOf t declared = .map (elementOf t element) := by
  obtain ⟨inner, wraps, same⟩ := h.wraps
  have plain : ∀ w ∈ mapWrappers, '<' ∉ w.toList := fun w hw =>
    wrappers_plain w (List.mem_append_right _ hw)
  have list := listArgument?_eq_none fun _ => not_listSpelled_of_wraps wraps
  have found : mapArgument? (trim declared) = some (afterComma (trim inner)) := by
    rw [mapArgument?, argumentOfAny?_of_wraps plain wraps, Option.map_some]
  rw [typeShapeOf]
  simp only [list, found]
  rw [← elementOf_trim, same, elementOf_trim]

theorem typeShapeOf_single (h : SingleSpelled (trim declared)) :
    typeShapeOf t declared =
      if lowerCase (trim declared) ∈ ["bool", "boolean"] then .bool
      else .scalar (elementOf t declared) := by
  have list := listArgument?_eq_none fun element => (h element).1
  have map : mapArgument? (trim declared) = none := by
    rw [mapArgument?, Option.map_eq_none_iff]
    refine argumentOfAny?_eq_none fun inner wraps => ?_
    obtain ⟨element, spelled⟩ := exists_mapSpelled wraps
    exact (h element).2 spelled
  rw [typeShapeOf]
  simp only [list, map, elementOf_trim, List.mem_cons, List.not_mem_nil, or_false]

def brackets : List Char := ['<', '>', '[', ']']

def primitiveNames : List String :=
  ["string", "bool", "boolean", "int", "long", "uint", "ulong", "float", "double", "decimal"]

theorem plain_of_lowerCase {name : List Char} (h : lowerCase name ∈ primitiveNames) :
    ∀ c ∈ name, c ∉ brackets := by
  have same : ∀ c ∈ brackets, c.toLower = c := by simp [brackets]
  have clean : ∀ type ∈ primitiveNames, ∀ c ∈ brackets, c ∉ type.toList := by
    simp [brackets, primitiveNames]
  intro c hc bracket
  refine clean _ h c bracket ?_
  rw [lowerCase, String.toList_ofList, ← same c bracket]
  exact List.mem_map_of_mem hc

theorem singleSpelled_of_plain {name : List Char} (plain : ∀ c ∈ name, c ∉ brackets) :
    SingleSpelled name := by
  have noWrapper : ∀ wrappers inner, ¬ Wraps wrappers name inner := by
    rintro wrappers inner ⟨w, _, rfl⟩
    exact plain '<' (by simp) (by simp [brackets])
  refine fun element => ⟨?_, ?_⟩
  · rintro (wraps | rfl)
    · exact noWrapper _ _ wraps
    · exact plain '[' (by simp) (by simp [brackets])
  · rintro (⟨_, _, wraps⟩ | ⟨_, wraps⟩) <;> exact noWrapper _ _ wraps

theorem spelled_cases (name : List Char) :
    (∃ element, ListSpelled name element) ∨ (∃ element, MapSpelled name element) ∨
      SingleSpelled name := by
  by_cases list : ∃ element, ListSpelled name element
  · exact .inl list
  · by_cases map : ∃ element, MapSpelled name element
    · exact .inr (.inl map)
    · exact .inr (.inr fun element => ⟨fun h => list ⟨element, h⟩, fun h => map ⟨element, h⟩⟩)

end Toolwright.Wrapper
