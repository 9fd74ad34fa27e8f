import Toolwright.Proofs.Json.RoundTrip
import Toolwright.Proofs.Wrapper.ClassText
import Toolwright.Proofs.Wrapper.Meaning
import Toolwright.Proofs.Wrapper.TypeShape

/-!
Defaults of properties in a wrapper. A property of a declared type can be given some JSON values: a
text or a number for a text, a switch, a whole number in the range of its type, a value of an
enumeration, and lists and maps of these. The expression that the wrapper has for such a default is
read as that very value; for any other default, and for zero, it is the empty value, so a list or a
map is whole or not there at all.
-/

namespace Toolwright.Wrapper

open Json (Number FreeValue)
open Text (mem_head?_append trim)

inductive ElementKind where
  | text
  | switch
  | signed
  | unsigned
  | choice (e : Enumeration)

inductive StoredKind where
  | one (element : ElementKind)
  | list (element : ElementKind)
  | map (element : ElementKind)

/-- The value of an element that a JSON value stands for. A number stands for its text where a text
is wanted. -/
inductive ElementKind.Represents : ElementKind → Json → Meaning → Prop
  | text (s : String) : Represents .text (.string s) (.text s)
  | spelled (n : Number) : Represents .text (.number n) (.text (String.ofList n.text))
  | switch (b : Bool) : Represents .switch (.bool b) (.switch b)
  | signed {n : Number} {i : Int} (whole : n.toInt? = some i) (least : -0x8000000000000000 ≤ i)
      (most : i < 0x8000000000000000) : Represents .signed (.number n) (.number i)
  | unsigned {n : Number} {i : Int} (whole : n.toInt? = some i) (least : 0 ≤ i)
      (most : i < 0x10000000000000000) : Represents .unsigned (.number n) (.number i)
  | choice {e : Enumeration} {s : String} (among : s ∈ e.values) :
    Represents (.choice e) (.string s) (.text s)

/-- The content that a JSON value stands for: every item and every member counts. -/
inductive StoredKind.Represents : StoredKind → Json → Content → Prop
  | one {k : ElementKind} {value : Json} {m : Meaning} (h : k.Represents value m) :
    Represents (.one k) value (.present m)
  | list {k : ElementKind} {items : List Json} {values : List Meaning}
      (h : List.Forall₂ k.Represents items values) :
    Represents (.list k) (.array items) (.items values)
  | map {k : ElementKind} {members : List (String × Json)} {values : List (String × Meaning)}
      (h : List.Forall₂ (fun member value => member.1 = value.1 ∧ k.Represents member.2 value.2)
        members values) :
    Represents (.map k) (.object members) (.entries values)

/-- Names of element types, in any case of letters, and names of enumerations as they are. -/
inductive Names (t : Tool) (name : List Char) : ElementKind → Prop
  | text (h : lowerCase name = "string") : Names t name .text
  | switch (h : lowerCase name ∈ ["bool", "boolean"]) : Names t name .switch
  | signed (h : lowerCase name ∈ ["int", "long"]) : Names t name .signed
  | unsigned (h : lowerCase name ∈ ["uint", "ulong"]) : Names t name .unsigned
  | choice {e : Enumeration} (among : e ∈ t.enumerations) (own : e.name.toList = name)
      (plain : ∀ c ∈ name, c ∉ brackets) (other : primitiveType? (lowerCase name) = none) :
    Names t name (.choice e)

inductive Typed (t : Tool) (declared : List Char) : StoredKind → Prop
  | one {k : ElementKind} (h : Names t (trim declared) k) : Typed t declared (.one k)
  | list {k : ElementKind} {element : List Char} (spelled : ListSpelled (trim declared) element)
      (h : Names t (trim element) k) : Typed t declared (.list k)
  | map {k : ElementKind} {element : List Char} (spelled : MapSpelled (trim declared) element)
      (h : Names t (trim element) k) : Typed t declared (.map k)

def StoredKind.empty : StoredKind → String
  | .one _ => "None"
  | .list _ => "Vec::new()"
  | .map _ => "BTreeMap::new()"

def Content.KeysDistinct : Content → Prop
  | .entries values => (values.map (·.1)).Nodup
  | _ => True

structure Says (source : Source) (kind : StoredKind) (default : Json)
    (storage expression : String) :
    Prop where
  whole : default.isZero = false → ∀ content, kind.Represents default content →
    readStored source storage expression = some content ∧ content.KeysDistinct
  empty : (default.isZero = true ∨ ¬ ∃ content, kind.Represents default content) →
    expression = kind.empty

structure EnumerationsApart (t : Tool) : Prop where
  distinct : (t.enumerations.map (pascalCase ·.name)).Nodup
  noText : ∀ e ∈ t.enumerations, pascalCase e.name ≠ "String"

def ElementKind.type : ElementKind → String
  | .text => "String"
  | .switch => "bool"
  | .signed => "i64"
  | .unsigned => "u64"
  | .choice e => pascalCase e.name

def ElementKind.Of (t : Tool) : ElementKind → Prop
  | .choice e => e ∈ t.enumerations
  | _ => True

theorem exists_elementOf {t : Tool} {declared : List Char} {k : ElementKind}
    (h : Names t (trim declared) k) : (∃ p, elementOf t declared = ⟨k.type, p⟩) ∧ k.Of t := by
  have primitive : ∀ type, primitiveType? (lowerCase (trim declared)) = some type →
      elementOf t declared = ⟨type, true⟩ := fun type known => by simp only [elementOf, known]
  cases h with
  | text h => exact ⟨⟨true, primitive _ (by rw [h]; rfl)⟩, trivial⟩
  | switch h | signed h | unsigned h =>
    simp only [List.mem_cons, List.not_mem_nil, or_false] at h
    rcases h with h | h <;> exact ⟨⟨true, primitive _ (by rw [h]; rfl)⟩, trivial⟩
  | choice among own plain other =>
    refine ⟨⟨(t.enumeration? (String.ofList (trim declared))).isSome, ?_⟩, among⟩
    simp only [elementOf, other, ElementKind.type, pascalCase, own]

section Related

variable {α β γ : Type} {R : α → β → Prop} {xs : List α} {ys : List β}

theorem forall₂_between {P : α → γ → Prop} {Q : γ → β → Prop}
    (between : ∀ x y, R x y → ∃ z, P x z ∧ Q z y) (h : List.Forall₂ R xs ys) :
    ∃ zs, List.Forall₂ P xs zs ∧ List.Forall₂ Q zs ys := by
  induction h with
  | nil => exact ⟨[], .nil, .nil⟩
  | cons first _ ih =>
    obtain ⟨z, left, right⟩ := between _ _ first
    obtain ⟨zs, lefts, rights⟩ := ih
    exact ⟨z :: zs, .cons left lefts, .cons right rights⟩

theorem exists_forall₂ {P : α → γ → Prop} (other : ∀ x y, R x y → ∃ z, P x z)
    (h : List.Forall₂ R xs ys) : ∃ zs, List.Forall₂ P xs zs := by
  obtain ⟨zs, related, _⟩ := forall₂_between (P := P) (Q := fun _ _ => True)
    (fun x y h => (other x y h).imp fun _ hz => ⟨hz, trivial⟩) h
  exact ⟨zs, related⟩

end Related

theorem signed64?_eq_some {n : Number} {i : Int} :
    signed64? n = some i ↔ n.toInt? = some i ∧ i < 0x8000000000000000 := by
  simp [signed64?, Option.bind_eq_some_iff, and_comm]

theorem unsigned64?_eq_some {n : Number} {i : Int} :
    unsigned64? n = some i ↔ n.toInt? = some i ∧ 0 ≤ i := by
  simp [unsigned64?, Option.bind_eq_some_iff, and_comm]

theorem toInt?_bounds {n : Number} {i : Int} (h : n.toInt? = some i) :
    -0x8000000000000000 ≤ i ∧ i < 0x10000000000000000 := by
  cases n with
  | natural n =>
    obtain rfl := Option.some.inj h
    have bound := n.toNat_lt
    omega
  | negative n =>
    obtain rfl := Option.some.inj h
    have bound := n.isLt
    omega
  | real x => cases h

theorem atom?_string_of_lower (t : Tool) {type : String} (lower : isPascal type.toList = false)
    (s : String) (text : type ≠ "String") : atom? t type (.string s) = none := by
  have missed : t.enumerations.find? (fun e => pascalCase e.name == type) = none :=
    List.find?_eq_none.2 fun e _ same => by
      rw [← beq_iff_eq.1 same, isPascal_pascalCase] at lower
      cases lower
  rw [atom?, if_neg text, variantAtom?, missed]
  rfl

section Elements

variable {t : Tool} (apart : EnumerationsApart t)
include apart

theorem find?_enumeration {e : Enumeration} (among : e ∈ t.enumerations) :
    t.enumerations.find? (fun other => pascalCase other.name == pascalCase e.name) = some e := by
  cases found : t.enumerations.find? (fun other => pascalCase other.name == pascalCase e.name) with
  | none =>
    have missed := List.find?_eq_none.1 found e among
    simp at missed
  | some other =>
    have same : pascalCase other.name = pascalCase e.name := by simpa using List.find?_some found
    rw [List.inj_on_of_nodup_map apart.distinct (List.mem_of_find?_eq_some found) among same]

theorem type_choice {e : Enumeration} (among : e ∈ t.enumerations) :
    pascalCase e.name ∉ ["String", "bool", "i64", "u64", "f64"] := by
  intro other
  rcases List.mem_cons.1 other with text | lower
  · exact apart.noText e among text
  · have all : ∀ type ∈ ["bool", "i64", "u64", "f64"], isPascal type.toList = false := by decide
    have small := all _ lower
    rw [isPascal_pascalCase] at small
    cases small

theorem exists_variantAtom {e : Enumeration} (among : e ∈ t.enumerations) {s : String}
    (value : s ∈ e.values) :
    ∃ atom, variantAtom? t (pascalCase e.name) s = some atom ∧
      Reads (readElement (Source.ofTool t) (pascalCase e.name)) atom.source.toList (.text s) := by
  obtain ⟨v, found⟩ : ∃ v, (variants e).find? (fun v => v.value == s) = some v := by
    rw [← map_value_variants e] at value
    obtain ⟨v, hv, rfl⟩ := List.mem_map.1 value
    exact Option.isSome_iff_exists.1 (List.find?_isSome.2 ⟨v, hv, by simp⟩)
  have there := List.mem_of_find?_eq_some found
  have same : v.value = s := by simpa using List.find?_some found
  have enumeration := find?_enumeration apart among
  refine ⟨.variant (pascalCase e.name) v.ident, ?_, readElement_variant ?_ ?_⟩
  · simp only [variantAtom?, bind, Option.bind_some, enumeration, found]
  · intro other
    have all : ∀ type ∈ ["String", "bool", "i64", "u64"],
        type ∈ ["String", "bool", "i64", "u64", "f64"] := by decide
    exact type_choice apart among (all _ other)
  · rw [← same]
    exact reads_variant (enumeration?_ofTool enumeration)
      (isPascal_all (isPascal_variantsFrom [] e.values v there)) (shown?_variant there)

theorem mem_values_of_variantAtom {e : Enumeration} (among : e ∈ t.enumerations) {s : String}
    {atom : Atom} (h : variantAtom? t (pascalCase e.name) s = some atom) : s ∈ e.values := by
  obtain ⟨other, enumeration, h⟩ := Option.bind_eq_some_iff.1 h
  obtain ⟨v, found, _⟩ := Option.bind_eq_some_iff.1 h
  rw [find?_enumeration apart among] at enumeration
  obtain rfl := Option.some.inj enumeration
  have same : v.value = s := by simpa using List.find?_some found
  rw [← map_value_variants, ← same]
  exact List.mem_map_of_mem (List.mem_of_find?_eq_some found)

theorem exists_atom {k : ElementKind} (known : k.Of t) {value : Json} {m : Meaning}
    (h : k.Represents value m) : ∃ atom, atom? t k.type value = some atom ∧
      Reads (readElement (Source.ofTool t) k.type) atom.source.toList m := by
  cases h with
  | text s => exact ⟨.text s, rfl, readElement_text _ s⟩
  | spelled n => exact ⟨.text (String.ofList n.text), rfl, readElement_text _ _⟩
  | switch b => exact ⟨.bool b, rfl, readElement_switch _ b⟩
  | @signed n i whole least most =>
    have atom : atom? t "i64" (.number n) = (signed64? n).map .integer := rfl
    exact ⟨.integer i, by rw [ElementKind.type, atom, signed64?_eq_some.2 ⟨whole, most⟩]; rfl,
      readElement_signed _ least most⟩
  | @unsigned n i whole least most =>
    have atom : atom? t "u64" (.number n) = (unsigned64? n).map .integer := rfl
    exact ⟨.integer i, by rw [ElementKind.type, atom, unsigned64?_eq_some.2 ⟨whole, least⟩]; rfl,
      readElement_unsigned _ least most⟩
  | @choice e s among =>
    have other := type_choice apart known
    simp only [List.mem_cons, List.not_mem_nil, or_false, not_or] at other
    have atom : atom? t (pascalCase e.name) (.string s) = variantAtom? t (pascalCase e.name) s :=
      if_neg other.1
    rw [ElementKind.type, atom]
    exact exists_variantAtom apart known among

theorem represents_of_atom {k : ElementKind} (known : k.Of t) {value : Json} {atom : Atom}
    (h : atom? t k.type value = some atom) : ∃ m, k.Represents value m := by
  have lower : ∀ type ∈ ["bool", "i64", "u64"], ∀ s, atom? t type (.string s) = none := by
    have small : ∀ type ∈ ["bool", "i64", "u64"],
        isPascal type.toList = false ∧ type ≠ "String" := by decide
    exact fun type ht s => atom?_string_of_lower t (small type ht).1 s (small type ht).2
  cases k with
  | text =>
    cases value with
    | string s => exact ⟨_, .text s⟩
    | number n => exact ⟨_, .spelled n⟩
    | null | bool _ | array _ | object _ => cases h
  | switch =>
    cases value with
    | bool b => exact ⟨_, .switch b⟩
    | string s =>
      rw [lower _ (by simp [ElementKind.type])] at h
      cases h
    | null | number _ | array _ | object _ => cases h
  | signed =>
    cases value with
    | number n =>
      change (signed64? n).map .integer = some atom at h
      obtain ⟨i, whole, _⟩ := Option.map_eq_some_iff.1 h
      obtain ⟨whole, most⟩ := signed64?_eq_some.1 whole
      exact ⟨_, .signed whole (toInt?_bounds whole).1 most⟩
    | string s =>
      rw [lower _ (by simp [ElementKind.type])] at h
      cases h
    | null | bool _ | array _ | object _ => cases h
  | unsigned =>
    cases value with
    | number n =>
      change (unsigned64? n).map .integer = some atom at h
      obtain ⟨i, whole, _⟩ := Option.map_eq_some_iff.1 h
      obtain ⟨whole, least⟩ := unsigned64?_eq_some.1 whole
      exact ⟨_, .unsigned whole least (toInt?_bounds whole).2⟩
    | string s =>
      rw [lower _ (by simp [ElementKind.type])] at h
      cases h
    | null | bool _ | array _ | object _ => cases h
  | choice e =>
    -- the type of an enumeration is none of those that other values are written for
    have other := type_choice apart known
    simp only [List.mem_cons, List.not_mem_nil, or_false, not_or] at other
    obtain ⟨text, switch, signed, unsigned, real⟩ := other
    cases value with
    | string s =>
      have found : variantAtom? t (pascalCase e.name) s = some atom := by
        rw [← h]
        exact (if_neg text).symm
      exact ⟨_, .choice (mem_values_of_variantAtom apart known found)⟩
    | number n =>
      have none_ : numberAtom? (pascalCase e.name) n = none := by
        rw [numberAtom?, if_neg text, if_neg signed, if_neg unsigned, if_neg real]
      rw [ElementKind.type, atom?, none_] at h
      cases h
    | bool b =>
      rw [ElementKind.type, atom?, if_neg switch] at h
      cases h
    | null | array _ | object _ => cases h

end Elements

inductive StoredKind.Fits : StoredKind → TypeShape → Prop
  | switch : Fits (.one .switch) .bool
  | one (k : ElementKind) (p : Bool) : Fits (.one k) (.scalar ⟨k.type, p⟩)
  | list (k : ElementKind) (p : Bool) : Fits (.list k) (.list ⟨k.type, p⟩)
  | map (k : ElementKind) (p : Bool) : Fits (.map k) (.map ⟨k.type, p⟩)

def StoredKind.Of (t : Tool) : StoredKind → Prop
  | .one k | .list k | .map k => k.Of t

theorem Names.plain {t : Tool} {name : List Char} {k : ElementKind} (h : Names t name k) :
    ∀ c ∈ name, c ∉ brackets := by
  have lower : ∀ types : List String, types ⊆ primitiveNames → lowerCase name ∈ types →
      ∀ c ∈ name, c ∉ brackets := fun types known h => plain_of_lowerCase (known h)
  cases h with
  | text h => exact lower ["string"] (by decide) (List.mem_singleton.2 h)
  | switch h | signed h | unsigned h => exact lower _ (by decide) h
  | choice _ _ plain _ => exact plain

theorem Names.eq_switch {t : Tool} {name : List Char} {k : ElementKind} (h : Names t name k)
    (switch : lowerCase name ∈ ["bool", "boolean"]) : k = .switch := by
  cases h with
  | text h => exact absurd switch (by rw [h]; decide)
  | switch _ => rfl
  | signed h | unsigned h =>
    simp only [List.mem_cons, List.not_mem_nil, or_false] at h
    rcases h with h | h <;> exact absurd switch (by rw [h]; decide)
  | choice _ _ _ other =>
    simp only [List.mem_cons, List.not_mem_nil, or_false] at switch
    rcases switch with switch | switch <;> rw [switch] at other <;> cases other

theorem fits_of_typed {t : Tool} {declared : List Char} {kind : StoredKind}
    (h : Typed t declared kind) : kind.Fits (typeShapeOf t declared) ∧ kind.Of t := by
  cases h with
  | @one k h =>
    obtain ⟨⟨p, element⟩, known⟩ := exists_elementOf h
    refine ⟨?_, known⟩
    rw [typeShapeOf_single t (singleSpelled_of_plain h.plain)]
    split
    · rename_i switch
      obtain rfl := h.eq_switch switch
      exact .switch
    · rw [element]
      exact .one k p
  | @list k item spelled h =>
    obtain ⟨⟨p, element⟩, known⟩ := exists_elementOf h
    refine ⟨?_, known⟩
    rw [typeShapeOf_list t spelled, element]
    exact .list k p
  | @map k value spelled h =>
    obtain ⟨⟨p, element⟩, known⟩ := exists_elementOf h
    refine ⟨?_, known⟩
    rw [typeShapeOf_map t spelled, element]
    exact .map k p

theorem keysDistinct_of_represents {kind : StoredKind} {value : Json} {content : Content}
    (ordered : value.Ordered) (h : kind.Represents value content) : content.KeysDistinct := by
  cases h with
  | one _ | list _ => trivial
  | @map k members values h =>
    have keys : members.map (·.1) = values.map (·.1) :=
      List.forall₂_eq_eq_eq ▸ List.forall₂_map_left_iff.2
        (List.forall₂_map_right_iff.2 (h.imp fun _ _ both => both.1))
    have distinct : (members.map (·.1)).Nodup :=
      List.pairwise_map.2 ((Json.keysAscend_iff.1 ordered.1).imp
        fun {a b} (less : a.1 < b.1) (same : a.1 = b.1) => String.lt_irrefl b.1 (same ▸ less))
    rwa [keys] at distinct

section Stored

variable {t : Tool} (apart : EnumerationsApart t) {kind : StoredKind} {shape : TypeShape}
include apart

/-- A default that a property can hold has an expression that is read as it. -/
theorem exists_expression (fits : kind.Fits shape) (known : kind.Of t) {value : Json}
    {content : Content} (h : kind.Represents value content) (nonzero : value.isZero = false) :
    ∃ e, expression? t shape value = some e ∧
      readStored (Source.ofTool t) shape.storage e.source = some content := by
  cases h with
  | @one k _ m h =>
    obtain ⟨atom, found, read⟩ := exists_atom apart known h
    refine ⟨.present atom, ?_, ?_⟩
    · cases fits with
      | switch =>
        cases h
        obtain rfl := Option.some.inj found
        rfl
      | one _ p => simp only [expression?, found, Option.map_some]
    · have storage : shape.storage = "Option<" ++ k.type ++ ">" := by cases fits <;> rfl
      rw [storage, readStored_scalar, readOptional_present read]
  | @list k items values h =>
    obtain ⟨p, rfl⟩ : ∃ p, shape = .list ⟨k.type, p⟩ := by cases fits; exact ⟨_, rfl⟩
    obtain ⟨atoms, found, read⟩ := forall₂_between (fun _ _ h => exists_atom apart known h) h
    -- an empty list is zero, and is written otherwise
    have some_ : atoms ≠ [] := by
      rintro rfl
      cases found
      cases nonzero
    refine ⟨.items atoms, ?_, ?_⟩
    · rw [expression?, mapM_eq_some.2 found, Option.map_some]
    · exact (readStored_list _ _ _).trans (readItems_items read some_)
  | @map k members values h =>
    obtain ⟨p, rfl⟩ : ∃ p, shape = .map ⟨k.type, p⟩ := by cases fits; exact ⟨_, rfl⟩
    obtain ⟨atoms, found, read⟩ := forall₂_between
      (P := fun member entry => keyedAtom? t k.type member = some entry)
      (Q := fun entry (value : String × Meaning) => entry.1 = value.1 ∧
        Reads (readElement (Source.ofTool t) k.type) entry.2.source.toList value.2)
      (fun member value both => by
        obtain ⟨atom, found, read⟩ := exists_atom apart known both.2
        exact ⟨(member.1, atom), by rw [keyedAtom?, found, Option.map_some], both.1, read⟩) h
    have some_ : atoms ≠ [] := by
      rintro rfl
      cases found
      cases nonzero
    refine ⟨.entries atoms, ?_, ?_⟩
    · rw [expression?, mapM_eq_some.2 found, Option.map_some]
    · exact (readStored_map _ _ _).trans (readEntries_entries read some_)

theorem exists_represents (fits : kind.Fits shape) (known : kind.Of t) {value : Json}
    {e : Expression} (h : expression? t shape value = some e) :
    ∃ content, kind.Represents value content := by
  cases fits with
  | switch =>
    cases value with
    | bool b => exact ⟨_, .one (.switch b)⟩
    | null | number _ | string _ | array _ | object _ => cases h
  | one k p =>
    rw [expression?] at h
    obtain ⟨atom, found, _⟩ := Option.map_eq_some_iff.1 h
    obtain ⟨m, represents⟩ := represents_of_atom apart known found
    exact ⟨_, .one represents⟩
  | list k p =>
    cases value with
    | array items =>
      rw [expression?] at h
      obtain ⟨atoms, found, _⟩ := Option.map_eq_some_iff.1 h
      obtain ⟨values, represents⟩ := exists_forall₂ (fun _ _ h => represents_of_atom apart known h)
        (mapM_eq_some.1 found)
      exact ⟨_, .list represents⟩
    | null | bool _ | number _ | string _ | object _ => cases h
  | map k p =>
    cases value with
    | object members =>
      rw [expression?] at h
      obtain ⟨atoms, found, _⟩ := Option.map_eq_some_iff.1 h
      obtain ⟨values, represents⟩ := exists_forall₂
        (P := fun member (value : String × Meaning) =>
          member.1 = value.1 ∧ k.Represents member.2 value.2)
        (fun member entry h => by
          obtain ⟨atom, found, _⟩ := Option.map_eq_some_iff.1 h
          obtain ⟨m, represents⟩ := represents_of_atom apart known found
          exact ⟨(member.1, m), rfl, represents⟩) (mapM_eq_some.1 found)
      exact ⟨_, .map represents⟩
    | null | bool _ | number _ | string _ | array _ => cases h

theorem says_default (fits : kind.Fits shape) (known : kind.Of t) (default : FreeValue) :
    Says (Source.ofTool t) kind default.tree shape.storage
      (defaultExpression t shape default.tree).source := by
  constructor
  · intro nonzero content h
    obtain ⟨e, found, read⟩ := exists_expression apart fits known h nonzero
    rw [defaultExpression, if_neg (by simp [nonzero]), found, Option.getD_some]
    exact ⟨read, keysDistinct_of_represents default.ordered h⟩
  · intro h
    have nothing : defaultExpression t shape default.tree = shape.empty := by
      rcases h with zero | nothing
      · rw [defaultExpression, if_pos zero]
      · have none_ : expression? t shape default.tree = none :=
          Option.eq_none_iff_forall_ne_some.2 fun e found =>
            nothing (exists_represents apart fits known found)
        rw [defaultExpression, none_, Option.getD_none, ite_self]
    rw [nothing]
    cases fits <;> rfl

end Stored

def storedForm : LineForm := ⟨.field, "    ", ": "⟩

def defaultForm : LineForm := ⟨.field, "            ", ": "⟩

def LineForm.text? (form : LineForm) (line : String) : Option String := do
  let _ ← form.read? line.toList
  let behind := (line.toList.drop form.before.toList.length).dropWhile isNameChar
  let text ← List.isSuffixOf? [','] (behind.drop form.after.toList.length)
  some (String.ofList text)

/-- The types of the fields with the values that they begin with. -/
def storedDefaults (lines : List String) : List (String × String) :=
  (lines.filterMap storedForm.text?).zip (lines.filterMap defaultForm.text?)

theorem LineForm.text?_of_refuses {form : LineForm} {known : String}
    (h : form.refuses known.toList = true) (rest : String) : form.text? (known ++ rest) = none := by
  rw [text?, String.toList_append, LineForm.read?_of_refuses h]
  rfl

theorem LineForm.text?_line {form : LineForm} (ends : endsName form.after.toList = true)
    {name : String} (readable : IsNameText name) (text : String) :
    form.text? (form.before ++ (name ++ (form.after ++ (text ++ ",")))) = some text := by
  have line : (form.before ++ (name ++ (form.after ++ (text ++ ",")))).toList =
      form.line name (text ++ ",").toList := by
    simp only [String.toList_append, LineForm.line]
  have behind : ((form.line name (text ++ ",").toList).drop form.before.toList.length).dropWhile
      isNameChar = form.after.toList ++ (text ++ ",").toList := by
    rw [LineForm.line, List.drop_left, List.dropWhile_append_of_pos readable,
      dropWhile_of_endsName (endsName_append ends _)]
  have cut : List.isSuffixOf? [','] (text ++ ",").toList = some text.toList :=
    List.isSuffixOf?_eq_some_iff_append_eq.2 (by rw [String.toList_append]; rfl)
  rw [text?, line, LineForm.read?_line readable ends]
  simp only [bind, Option.bind_some, behind, List.drop_left, cut, String.ofList_toList]

def fieldForms : List LineForm := [storedForm, defaultForm]

theorem skipsFrame_fieldForms {form : LineForm} (among : form ∈ fieldForms) :
    SkipsFrame form.text? := by
  constructor
  · have all : ∀ form ∈ fieldForms, ∀ line ∈ ["", "\x7d", "    \x7d", "        \x7d",
        "        Self \x7b", "    fn default() -> Self \x7b", "#[derive(Debug, Clone, PartialEq)]"],
        form.text? line = none := by decide
    exact all form among
  · have all : ∀ form ∈ fieldForms, ∀ known ∈ ["/// ", "pub struct ", "impl Default for ", "impl ",
        "    pub const SECRET_PROPERTIES: &'static [&'static str] = &["],
        form.refuses known.toList = true := by decide
    exact fun known hk rest => LineForm.text?_of_refuses (all form among known hk) rest

def bodyBegins : List String :=
  ["self", "&self", "let mut args", "push_formatted(", "    push_formatted(", "if ", "for ", "\x7d",
    "args"]

theorem begins_argumentsMethod (definitive : Option String) (pushes : List Push) :
    ∀ line ∈ (argumentsMethod definitive pushes).body,
      ∃ known ∈ bodyBegins, known.toList <+: line.toList := by
  intro line hl
  simp only [argumentsMethod, List.mem_append, List.mem_singleton, Option.mem_toList,
    Option.map_eq_some_iff, List.mem_flatMap] at hl
  rcases hl with ((rfl | ⟨format, _, rfl⟩) | ⟨p, _, among⟩) | rfl
  · exact ⟨"let mut args", by decide, by decide⟩
  · exact ⟨"push_formatted(", by decide, begins_pushStatement _ _ _⟩
  · rw [Push.lines_eq, block, blockThen] at among
    simp only [List.map_cons, List.map_nil, List.cons_append, List.nil_append, List.mem_cons,
      List.not_mem_nil, or_false] at among
    rcases among with rfl | rfl | rfl
    · unfold Push.head
      cases p.guard with
      | flag | valued => exact ⟨"if ", by decide, by simp⟩
      | eachItem | eachEntry => exact ⟨"for ", by decide, by simp⟩
    · have statement : "push_formatted(".toList <+: p.statement.toList := by
        unfold Push.statement
        cases p.guard <;> exact begins_pushStatement _ _ _
      obtain ⟨rest, whole⟩ := statement
      have visible : p.statement ≠ "" := fun empty => by simp [empty] at whole
      refine ⟨"    push_formatted(", by decide, rest, ?_⟩
      rw [indent_eq visible, String.toList_append, ← whole]
      rfl
    · exact ⟨"\x7d", by decide, by decide⟩
  · exact ⟨"args", by decide, by decide⟩

theorem begins_methods {c : Class} (names : ∀ f ∈ c.fields, IsNameText f.ident) :
    ∀ m ∈ c.methods, ∀ line ∈ m.body, ∃ known ∈ bodyBegins, known.toList <+: line.toList := by
  intro m hm line hl
  rcases List.mem_append.1 hm with field | own
  · obtain ⟨f, hf, among⟩ := List.mem_flatMap.1 field
    obtain ⟨known, hk, begins⟩ := (Field.body_methods (names f hf) m among line hl).begins
    have all : ∀ known ∈ ["self", "&self"], known ∈ bodyBegins := by decide
    exact ⟨known, all known hk, begins⟩
  · cases kind : c.kind with
    | data => rw [kind] at own; cases own
    | settings definitive =>
      rw [kind] at own
      obtain rfl := List.mem_singleton.1 own
      exact begins_argumentsMethod _ _ line hl

theorem filterMap_methods {c : Class} (names : ∀ f ∈ c.fields, IsNameText f.ident)
    {form : LineForm} (among : form ∈ fieldForms) :
    (c.methods.flatMap fun m => (m.lines.map indent).filterMap form.text?) = [] := by
  have fixed : ∀ form ∈ fieldForms, form.text? "    \x7d" = none ∧
      form.refuses "    /// ".toList = true ∧ form.refuses "    pub fn ".toList = true ∧
      ∀ known ∈ bodyBegins, form.refuses ("        " ++ known).toList = true := by decide
  obtain ⟨close, doc, head, body⟩ := fixed form among
  refine List.flatMap_eq_nil_iff.2 fun m hm => ?_
  rw [filterMap_method (LineForm.text?_of_refuses doc) close fun line hl => ?_, Method.head,
    LineForm.text?_of_refuses head]
  · rfl
  · obtain ⟨known, hk, rest, whole⟩ := begins_methods names m hm line hl
    have visible : ∀ known ∈ bodyBegins, known ≠ "" ∧ "    " ++ known ≠ "" := by decide
    have text : line = known ++ String.ofList rest :=
      String.toList_inj.1 (by rw [String.toList_append, String.toList_ofList, whole])
    have margin : "    " ++ ("    " ++ known) = "        " ++ known := by
      rw [← String.append_assoc]
      rfl
    rw [text, indent_append (visible known hk).1, indent_append (visible known hk).2, margin]
    exact LineForm.text?_of_refuses (body known hk) _

theorem defaultForm_storedLine {f : Field} (name : IsNameText f.ident) :
    defaultForm.text? f.storedLine = none := by
  have first : ∀ c ∈ (f.ident ++ (": " ++ (f.shape.storage ++ ","))).toList.head?, c ≠ ' ' := by
    intro c hc
    have colon : (": " ++ (f.shape.storage ++ ",")).toList.head? = some ':' := by simp
    rw [String.toList_append] at hc
    rcases mem_head?_append hc with own | behind
    · rintro rfl
      exact absurd (name _ (List.mem_of_mem_head? own)) (by decide)
    · rw [colon] at behind
      cases behind
      decide
  have other : ¬ defaultForm.before.toList <+: f.storedLine.toList := by
    rw [Field.storedLine, String.toList_append]
    exact @not_prefix_deeper "    ".toList "       ".toList _ first
  rw [← List.isPrefixOf_iff_prefix, Bool.not_eq_true] at other
  simp only [LineForm.text?, LineForm.read?, other, Bool.false_and]
  rfl

theorem storedDefaults_class {c : Class} (names : ∀ f ∈ c.fields, IsNameText f.ident) :
    storedDefaults c.lines = c.fields.map fun f => (f.shape.storage, f.default.source) := by
  have apart : ∀ form ∈ fieldForms, endsName form.after.toList = true := by decide
  have own : ∀ {form : LineForm} {text : Field → String}, form ∈ fieldForms →
      (c.fields.filterMap fun f =>
        form.text? (form.before ++ (f.ident ++ (form.after ++ (text f ++ ","))))) =
        c.fields.map text := fun {form text} among => by
    rw [← List.filterMap_eq_map]
    exact List.filterMap_congr fun f hf =>
      LineForm.text?_line (apart form among) (names f hf) (text f)
  have isForm : storedForm ∈ fieldForms ∧ defaultForm ∈ fieldForms := by simp [fieldForms]
  have stored : c.lines.filterMap storedForm.text? = c.fields.map (·.shape.storage) := by
    have refused : (c.fields.filterMap fun f => storedForm.text? f.defaultLine) = [] :=
      List.filterMap_eq_nil_iff.2 fun f _ => LineForm.text?_of_refuses (by decide) _
    rw [filterMap_class (skipsFrame_fieldForms isForm.1), filterMap_methods names isForm.1, refused,
      List.append_nil, List.append_nil]
    exact own isForm.1
  have defaults : c.lines.filterMap defaultForm.text? = c.fields.map (·.default.source) := by
    have refused : (c.fields.filterMap fun f => defaultForm.text? f.storedLine) = [] :=
      List.filterMap_eq_nil_iff.2 fun f hf => defaultForm_storedLine (names f hf)
    rw [filterMap_class (skipsFrame_fieldForms isForm.2), filterMap_methods names isForm.2, refused,
      List.append_nil, List.nil_append]
    exact own isForm.2
  rw [storedDefaults, stored, defaults, List.zip_map']

variable {t : Tool}

/-- Every default is written as what it is. The classes of a wrapper belong to the property lists of
the tool, their fields to the properties. What the lines of a class say of the default of a property
is, read as a value of the type that the lines say the field is stored in, that default in full if
the property can hold it and it is not zero; otherwise it is the empty value of the type. -/
theorem says_defaults (apart : EnumerationsApart t) :
    List.Forall₂ (fun properties (c : Class) =>
      List.Forall₂ (fun (p : Property) (said : String × String) =>
        ∀ kind, Typed t p.type.toList kind →
          Says (Source.ofTool t) kind p.default.tree said.1 said.2)
        properties (storedDefaults c.textLines))
      (propertyLists t) (Source.ofTool t).classes := by
  have one : ∀ name help properties kind,
      List.Forall₂ (fun (p : Property) (said : String × String) =>
        ∀ kind, Typed t p.type.toList kind →
          Says (Source.ofTool t) kind p.default.tree said.1 said.2)
        properties (storedDefaults (Class.ofProperties t name help properties kind).textLines) := by
    intro name help properties kind
    rw [textLines_ofProperties, storedDefaults_class fun _ hf => isNameText_of_mem_fields hf]
    change List.Forall₂ _ _ ((properties.map (Field.ofProperty t)).map _)
    rw [List.map_map, List.forall₂_map_right_iff]
    refine List.forall₂_same.2 fun p _ kind typed => ?_
    obtain ⟨fits, known⟩ := fits_of_typed typed
    exact says_default apart fits known p.default
  rw [propertyLists, classes_ofTool]
  refine List.rel_append ?_ ?_
  · rw [List.forall₂_map_left_iff, List.forall₂_map_right_iff]
    exact List.forall₂_same.2 fun d _ => one _ _ _ _
  · rw [List.forall₂_map_left_iff, List.forall₂_map_right_iff]
    exact List.forall₂_same.2 fun task _ => one _ _ _ _

/-- An enumeration with two values that would be called the same. -/
def levels : Enumeration := { name := "Level", values := ["low", "Low", "high"] }

def levelsByName : FreeValue where
  tree := .object [("a", .string "high"), ("b", .string "Low")]
  ordered :=
    ⟨⟨List.forall_mem_singleton.2 (by decide), List.forall_mem_nil _, trivial⟩, trivial, trivial,
      trivial⟩

def levelTool : Tool where
  name := "demo"
  enumerations := [levels]
  dataClasses := [{
    name := "Plan"
    properties := [{ name := "Levels", type := "Map<string, Level>", default := levelsByName }] }]

theorem enumerationsApart_levels : EnumerationsApart levelTool := ⟨by decide, by decide⟩

theorem typed_levels : Typed levelTool "Map<string, Level>".toList (.map (.choice levels)) := by
  have spelled : MapSpelled (trim "Map<string, Level>".toList) " Level".toList :=
    .inl ⟨"string".toList, by decide, "Map", by decide, by decide⟩
  have cut : trim " Level".toList = levels.name.toList := by decide
  refine .map spelled ?_
  rw [cut]
  exact .choice (List.mem_singleton_self levels) rfl (by simp [levels, brackets]) (by decide)

theorem says_defaults_levels :
    EnumerationsApart levelTool ∧
      ∃ c storage expression, (Source.ofTool levelTool).classes = [c] ∧
        storedDefaults c.textLines = [(storage, expression)] ∧
        readStored (Source.ofTool levelTool) storage expression =
          some (.entries [("a", .text "high"), ("b", .text "Low")]) := by
  have represents : (StoredKind.map (.choice levels)).Represents levelsByName.tree
      (.entries [("a", .text "high"), ("b", .text "Low")]) :=
    .map (.cons ⟨rfl, .choice (by decide)⟩ (.cons ⟨rfl, .choice (by decide)⟩ .nil))
  obtain ⟨one, last⟩ : _ ∧ List.Forall₂ _ [] [] :=
    List.forall₂_cons.1 (says_defaults enumerationsApart_levels)
  obtain ⟨said, none_, written, nothing, text⟩ := List.forall₂_cons_left_iff.1 one
  cases nothing
  exact ⟨enumerationsApart_levels, _, said.1, said.2, rfl, text,
    ((written _ typed_levels).whole rfl _ represents).1⟩

end Toolwright.Wrapper
