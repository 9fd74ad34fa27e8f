import Toolwright.Proofs.Text.Literal
import Toolwright.Proofs.Wrapper.Line
import Toolwright.Proofs.Wrapper.Variant

/-!
What variants are shown as. The lines of an enumeration that show a variant as a text are read one
by one; together they pair the variants with the values, and nothing else on the lines is read as
such a pair. As no two variants are called the same, each is shown as its own value.
-/

namespace Toolwright.Wrapper

open Text (mem_head?_append readLiteral readLiteral_literal literalOf)

/-- A line that shows a variant as a text: the variant and the text. -/
def arm? (line : String) : Option (String × String) := do
  let named ← behind? "            Self::" line.toList
  let shown ← behind? " => " (named.dropWhile Char.isAlphanum)
  let (value, rest) ← readLiteral shown
  if rest = [','] then some (String.ofList (named.takeWhile Char.isAlphanum), String.ofList value)
  else none

theorem arm?_of_clash {known : String}
    (h : clash "            Self::".toList known.toList = true) (rest : String) :
    arm? (known ++ rest) = none := by
  rw [arm?, String.toList_append, behind?_of_clash h]
  rfl

theorem arm?_of_clash_append {known : String}
    (h : clash "            Self::".toList known.toList = true) (inside behind : String) :
    arm? (known ++ inside ++ behind) = none := by
  rw [String.append_assoc]
  exact arm?_of_clash h _

theorem arm?_shown {ident : String} (name : ∀ c ∈ ident.toList, c.isAlphanum = true)
    (value : String) :
    arm? (indent (indent (indent ("Self::" ++ ident ++ " => " ++ literalOf value ++ ",")))) =
      some (ident, value) := by
  have text : indent (indent (indent ("Self::" ++ ident ++ " => " ++ literalOf value ++ ","))) =
      "            Self::" ++ (ident ++ (" => " ++ (literalOf value ++ ","))) := by
    simp only [String.append_assoc]
    rw [indent_append (by decide), indent_append (by decide), indent_append (by decide)]
    rfl
  have stops : ∀ c ∈ (" => ".toList ++ ((literalOf value).toList ++ ",".toList)).head?,
      c.isAlphanum = false := by
    intro c hc
    cases hc
    decide
  obtain ⟨run, rest⟩ := takeWhile_run name stops
  have literal : readLiteral ((literalOf value).toList ++ ",".toList) =
      some (value.toList, ",".toList) := by
    rw [literalOf, String.toList_ofList, readLiteral_literal]
  rw [text, arm?, String.toList_append, behind?_append]
  simp only [bind, Option.bind_some, String.toList_append, run, rest, behind?_append, literal,
    String.ofList_toList]
  rfl

theorem arm?_indent {line : String} (outer : ∀ c ∈ line.toList.head?, c ≠ ' ') :
    arm? (indent line) = none := by
  by_cases empty : line = ""
  · subst empty
    rfl
  · have other : behind? "            Self::" ("    ".toList ++ line.toList) = none :=
      behind?_eq_none (@not_prefix_deeper "    ".toList "       Self::".toList _ outer)
    rw [indent_eq empty, arm?, String.toList_append, other]
    rfl

/-- The text that the lines of an enumeration show a variant as. -/
def EnumerationItem.shown? (e : EnumerationItem) (ident : String) : Option String :=
  (e.lines.filterMap arm?).lookup ident

theorem arm?_declared {ident : String} (name : ∀ c ∈ ident.toList, c.isAlphanum = true) :
    arm? (indent (ident ++ ",")) = none := by
  refine arm?_indent fun c hc => ?_
  rw [String.toList_append] at hc
  rcases mem_head?_append hc with inside | comma
  · rintro rfl
    exact absurd (name _ (List.mem_of_mem_head? inside)) (by decide)
  · cases comma
    decide

theorem filterMap_arm?_branches {vs : List Variant}
    (names : ∀ v ∈ vs, ∀ c ∈ v.ident.toList, c.isAlphanum = true) :
    (((if vs.isEmpty then ["match *self \x7b\x7d"] else block "match self"
      (vs.map fun v => "Self::" ++ v.ident ++ " => " ++ literalOf v.value ++ ",")).map
        indent).map indent).filterMap arm? = vs.map fun v => (v.ident, v.value) := by
  have shown : ∀ v ∈ vs, arm? (indent (indent (indent
      ("Self::" ++ v.ident ++ " => " ++ literalOf v.value ++ ",")))) = some (v.ident, v.value) :=
    fun v hv => arm?_shown (names v hv) v.value
  have first : arm? (indent (indent ("match self" ++ " \x7b"))) = none := by rfl
  have last : arm? (indent (indent "\x7d")) = none := by rfl
  split
  · rename_i none_
    rw [List.isEmpty_iff.1 none_]
    rfl
  · rw [List.filterMap_map, List.filterMap_map, filterMap_block, List.filterMap_map,
      List.filterMap_map]
    simp only [Function.comp_apply, first, last, Option.toList_none, List.nil_append,
      List.append_nil]
    rw [← List.filterMap_eq_map]
    exact List.filterMap_congr shown

theorem arms_enumeration {e : EnumerationItem}
    (names : ∀ v ∈ e.variants, ∀ c ∈ v.ident.toList, c.isAlphanum = true) :
    e.lines.filterMap arm? = e.variants.map fun v => (v.ident, v.value) := by
  have doc := filterMap_docComment (arm?_of_clash (by decide)) e.doc
  have head := @arm?_of_clash_append "pub enum " (by decide) e.name " \x7b"
  have members : ((e.variants.map fun v => v.ident ++ ",").map indent).filterMap arm? = [] :=
    List.filterMap_eq_nil_iff.2 fun line hl => by
      simp only [List.map_map, List.mem_map, Function.comp_apply] at hl
      obtain ⟨v, hv, rfl⟩ := hl
      exact arm?_declared (names v hv)
  have implementation := @arm?_of_clash_append "impl " (by decide) e.name " \x7b"
  have values : arm? (indent ("pub const VALUES: &'static [&'static str] = &[" ++
      literalList (e.variants.map (·.value)) ++ "];")) = none := by
    rw [String.append_assoc, indent_append (by decide)]
    exact arm?_of_clash (by decide) _
  have display := @arm?_of_clash_append "impl std::fmt::Display for " (by decide) e.name " \x7b"
  have inner := filterMap_arm?_branches names
  have derive : arm? "#[derive(Debug, Clone, Copy, PartialEq, Eq, Hash)]" = none := by rfl
  have blank : arm? "" = none ∧ arm? (indent "") = none := ⟨by rfl, by rfl⟩
  have close : arm? "\x7d" = none ∧ arm? (indent "\x7d") = none := ⟨by rfl, by rfl⟩
  have text : arm? (indent ("pub fn as_str(&self) -> &'static str" ++ " \x7b")) = none := by rfl
  have format : arm? (indent
      ("fn fmt(&self, f: &mut std::fmt::Formatter<'_>) -> std::fmt::Result" ++ " \x7b")) =
        none := by
    rfl
  have write : arm? (indent (indent "f.write_str(self.as_str())")) = none := by rfl
  simp only [EnumerationItem.lines, List.filterMap_append, List.filterMap_cons, List.filterMap_nil,
    filterMap_block, filterMap_indent_block, List.map_append, List.map_cons, List.map_nil,
    doc, head, members, implementation, values, display, inner, derive, blank, close, text,
    format, write, Option.toList_none, List.nil_append, List.append_nil]

theorem arms_ofEnumeration (e : Enumeration) :
    (EnumerationItem.ofEnumeration e).lines.filterMap arm? =
      (variants e).map fun v => (v.ident, v.value) :=
  arms_enumeration fun v hv => isPascal_all (isPascal_variantsFrom [] e.values v hv)

theorem shown?_variant {e : Enumeration} {v : Variant} (h : v ∈ variants e) :
    (EnumerationItem.ofEnumeration e).shown? v.ident = some v.value := by
  rw [EnumerationItem.shown?, arms_ofEnumeration, List.lookup_eq_some_iff]
  -- a lookup finds the first pair, so nothing in front may be called the same
  obtain ⟨before, after, whole⟩ := List.append_of_mem h
  have distinct := nodup_idents e
  change ∃ l₁ l₂, (variants e).map _ = _ ∧ _
  rw [whole] at distinct ⊢
  refine ⟨before.map fun v => (v.ident, v.value), after.map fun v => (v.ident, v.value), by simp,
    fun pair hp => ?_⟩
  obtain ⟨other, ho, rfl⟩ := List.mem_map.1 hp
  rw [List.map_append, List.map_cons, List.nodup_middle, List.nodup_cons] at distinct
  exact bne_iff_ne.2 fun same => distinct.1 (List.mem_append_left _ (same ▸ List.mem_map_of_mem ho))

def Item.enumeration? (type : String) : Item → Option EnumerationItem
  | .enumeration e => if e.name = type then some e else none
  | _ => none

def Source.enumeration? (s : Source) (type : String) : Option EnumerationItem :=
  s.items.findSome? (Item.enumeration? type)

theorem enumeration?_ofTool {t : Tool} {type : String} {e : Enumeration}
    (found : t.enumerations.find? (fun e => pascalCase e.name == type) = some e) :
    (Source.ofTool t).enumeration? type = some (EnumerationItem.ofEnumeration e) := by
  obtain ⟨fits, before, after, whole, others⟩ := List.find?_eq_some_iff_append.1 found
  have own : Item.enumeration? type (.enumeration (EnumerationItem.ofEnumeration e)) =
      some (EnumerationItem.ofEnumeration e) := if_pos (beq_iff_eq.1 fits)
  have earlier : before.findSome? (fun e =>
      Item.enumeration? type (.enumeration (EnumerationItem.ofEnumeration e))) = none :=
    List.findSome?_eq_none_iff.2 fun other ho => by
      have apart : ¬ pascalCase other.name = type := by simpa using others other ho
      exact if_neg apart
  have first : (t.enumerations.map fun e =>
      Item.enumeration (EnumerationItem.ofEnumeration e)).findSome? (Item.enumeration? type) =
        some (EnumerationItem.ofEnumeration e) := by
    rw [List.findSome?_map, whole, List.findSome?_append]
    simp only [Function.comp_def, earlier, List.findSome?_cons, own, Option.none_or]
  rw [Source.enumeration?, Source.ofTool, List.append_assoc, List.findSome?_append]
  simp only [first, Option.some_or]

end Toolwright.Wrapper
