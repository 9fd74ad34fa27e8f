import Toolwright.Proofs.Wrapper.TypeShape

/-!
Lists and maps in all their spellings. However a container is written, and whatever white space
stands around it or around its element, it is stored with the same element; and that is the element
which the text stands for alone, where it is neither a container nor a switch.
-/

namespace Toolwright.Wrapper

open Text

def listForms (element : String) : List String :=
  [element ++ "[]", "List<" ++ element ++ ">", "IEnumerable<" ++ element ++ ">",
    "IReadOnlyList<" ++ element ++ ">"]

def mapForms (key element : String) : List String :=
  ["Dictionary<" ++ key ++ "," ++ element ++ ">",
    "IReadOnlyDictionary<" ++ key ++ "," ++ element ++ ">",
    "Map<" ++ key ++ "," ++ element ++ ">"]

/-- The text of `s` is that of `inner` with white space around it. -/
def Padded (inner s : String) : Prop :=
  ∃ b₁ b₂, Blanks b₁ ∧ Blanks b₂ ∧ s.toList = b₁ ++ (inner.toList ++ b₂)

section Spellings

variable {t : Tool} {name inner element : List Char} {d s : String}

theorem Padded.trim_eq (h : Padded d s) : trim s.toList = trim d.toList := by
  obtain ⟨b₁, b₂, h₁, h₂, whole⟩ := h
  rw [whole, trim_around h₁ h₂]

theorem Padded.typeShape_eq (h : Padded d s) : typeShape t s = typeShape t d := by
  simp only [typeShape, typeShapeOf, h.trim_eq]

theorem Padded.elementOf_eq (h : Padded d s) : elementOf t s.toList = elementOf t d.toList := by
  rw [← elementOf_trim, h.trim_eq, elementOf_trim]

theorem wrappers_begin : ∀ w ∈ listWrappers ++ mapWrappers,
    w.toList.head?.any (fun c => !isBlank c) = true := by decide +kernel

theorem Wraps.bare {wrappers : List String} (h : Wraps wrappers name inner)
    (known : ∀ w ∈ wrappers, w ∈ listWrappers ++ mapWrappers) : Bare name := by
  obtain ⟨w, hw, rfl⟩ := h
  have begins := wrappers_begin w (known w hw)
  have close : ∀ d ∈ ['>'].getLast?, isBlank d = false := by
    rintro d ⟨⟩
    decide
  cases front : w.toList with
  | nil => simp [front] at begins
  | cons c rest =>
    have first : isBlank c = false := by simpa [front] using begins
    have ends := Bare.of_ends (s := rest ++ '<' :: inner) first (by simp) close
    simpa using ends

theorem trim_wraps {wrappers : List String} (h : Wraps wrappers name inner)
    (known : ∀ w ∈ wrappers, w ∈ listWrappers ++ mapWrappers) :
    Wraps wrappers (trim name) inner := by
  rwa [trim_of_bare (h.bare known)]

theorem trim_brackets (element : List Char) :
    trim (element ++ ['[', ']']) = trimStart element ++ ['[', ']'] := by
  obtain ⟨b, blanks, whole⟩ := exists_trimStart element
  have bare : Bare (trimStart element ++ ['[', ']']) := by
    constructor
    · intro c hc
      rcases mem_head?_append hc with inside | bracket
      · exact head?_dropWhile element c inside
      · cases bracket
        decide
    · intro c hc
      rw [List.getLast?_append] at hc
      cases hc
      decide
  have padded := trim_pad bare blanks .nil
  rw [List.append_nil, ← List.append_assoc, ← whole] at padded
  exact padded

theorem typeShapeOf_brackets (element : List Char) :
    typeShapeOf t (element ++ ['[', ']']) = .list (elementOf t element) := by
  have spelled : ListSpelled (trim (element ++ ['[', ']'])) (trimStart element) :=
    .inr (trim_brackets element)
  obtain ⟨b, blanks, whole⟩ := exists_trimStart element
  have same : trim (trimStart element) = trim element := by
    have around := trim_around blanks .nil (trimStart element)
    rw [List.append_nil, ← whole] at around
    exact around.symm
  rw [typeShapeOf_list t spelled, ← elementOf_trim, same, elementOf_trim]

theorem typeShape_of_mem_listForms {e : String} (h : d ∈ listForms e) :
    typeShape t d = .list (elementOf t e.toList) := by
  have wrapped : ∀ w ∈ listWrappers, d.toList = w.toList ++ '<' :: (e.toList ++ ['>']) →
      typeShape t d = .list (elementOf t e.toList) := by
    intro w hw whole
    have wraps : Wraps listWrappers d.toList e.toList := ⟨w, hw, whole⟩
    exact typeShapeOf_list t (.inl (trim_wraps wraps fun w hw => List.mem_append_left _ hw))
  simp only [listForms, List.mem_cons, List.not_mem_nil, or_false] at h
  rcases h with brackets | list | enumerable | readOnly
  · rw [brackets, typeShape, String.toList_append]
    exact typeShapeOf_brackets e.toList
  · exact wrapped "List" (by simp [listWrappers]) (by simp [list])
  · exact wrapped "IEnumerable" (by simp [listWrappers]) (by simp [enumerable])
  · exact wrapped "IReadOnlyList" (by simp [listWrappers]) (by simp [readOnly])

theorem typeShape_of_mem_mapForms {k e : String} (plain : ',' ∉ k.toList) (h : d ∈ mapForms k e) :
    typeShape t d = .map (elementOf t e.toList) := by
  have wrapped : ∀ w ∈ mapWrappers,
      d.toList = w.toList ++ '<' :: ((k.toList ++ ',' :: e.toList) ++ ['>']) →
      typeShape t d = .map (elementOf t e.toList) := by
    intro w hw whole
    have wraps : Wraps mapWrappers d.toList (k.toList ++ ',' :: e.toList) := ⟨w, hw, whole⟩
    refine typeShapeOf_map t (.inl ⟨k.toList, plain, ?_⟩)
    exact trim_wraps wraps fun w hw => List.mem_append_right _ hw
  simp only [mapForms, List.mem_cons, List.not_mem_nil, or_false] at h
  rcases h with dictionary | readOnly | map
  · exact wrapped "Dictionary" (by simp [mapWrappers]) (by simp [dictionary])
  · exact wrapped "IReadOnlyDictionary" (by simp [mapWrappers]) (by simp [readOnly])
  · exact wrapped "Map" (by simp [mapWrappers]) (by simp [map])

theorem typeShape_eq_scalar {e : String} :
    typeShape t e = .scalar (elementOf t e.toList) ↔
      SingleSpelled (trim e.toList) ∧ lowerCase (trim e.toList) ∉ ["bool", "boolean"] := by
  rcases spelled_cases (trim e.toList) with ⟨inner, list⟩ | ⟨inner, map⟩ | single
  · rw [typeShape, typeShapeOf_list t list]
    exact ⟨nofun, fun h => absurd list (h.1 inner).1⟩
  · rw [typeShape, typeShapeOf_map t map]
    exact ⟨nofun, fun h => absurd map (h.1 inner).2⟩
  · rw [typeShape, typeShapeOf_single t single]
    split
    · rename_i switch
      exact ⟨nofun, fun h => absurd switch h.2⟩
    · rename_i other
      exact ⟨fun _ => ⟨single, other⟩, fun _ => rfl⟩

end Spellings

/-- All spellings of a container have the same element, and it is the one that the element text
stands for alone where it stands for one. -/
theorem typeShape_container (t : Tool) (e : String) :
    ∃ element : Element,
      (∀ padded d s, Padded e padded → d ∈ listForms padded → Padded d s →
        typeShape t s = .list element) ∧
      (∀ k padded d s, ',' ∉ k.toList → Padded e padded → d ∈ mapForms k padded → Padded d s →
        typeShape t s = .map element) ∧
      (typeShape t e = .scalar element ↔
        SingleSpelled (trim e.toList) ∧ lowerCase (trim e.toList) ∉ ["bool", "boolean"]) := by
  refine ⟨elementOf t e.toList, ?_, ?_, typeShape_eq_scalar⟩
  · intro padded d s around form outside
    rw [outside.typeShape_eq, typeShape_of_mem_listForms form, around.elementOf_eq]
  · intro k padded d s plain around form outside
    rw [outside.typeShape_eq, typeShape_of_mem_mapForms plain form, around.elementOf_eq]

/-- A tool with an enumeration that properties may be made of. -/
def gradedTool : Tool where
  name := "demo"
  enumerations := [{ name := "Level", values := ["low", "high"] }]

theorem typeShape_container_level : ∃ element : Element,
    Padded "Level" " Level " ∧ ',' ∉ "List<string>[]".toList ∧
    typeShape gradedTool " Level []\n" = .list element ∧
    typeShape gradedTool "Map<List<string>[], Level >" = .map element ∧
    typeShape gradedTool "Level" = .scalar element := by
  have blank : Blanks [' '] ∧ Blanks ['\n'] := by
    constructor <;> exact List.forall_mem_singleton.2 (by decide)
  have around : Padded "Level" " Level " := ⟨[' '], [' '], blank.1, blank.1, by decide⟩
  have plain : ',' ∉ "List<string>[]".toList := by decide
  obtain ⟨element, list, map, scalar⟩ := typeShape_container gradedTool "Level"
  refine ⟨element, around, plain, ?_, ?_, scalar.2 ⟨?_, by decide⟩⟩
  · exact list " Level " " Level []" _ around (by decide) ⟨[], ['\n'], .nil, blank.2, by decide⟩
  · exact map "List<string>[]" " Level " "Map<List<string>[], Level >" _ plain around (by decide)
      ⟨[], [], .nil, .nil, by decide⟩
  · have unbracketed : ∀ c ∈ ['L', 'e', 'v', 'e', 'l'], c ∉ brackets := by simp [brackets]
    exact singleSpelled_of_plain unbracketed

end Toolwright.Wrapper
