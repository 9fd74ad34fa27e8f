import Toolwright.Proofs.Text.Literal
import Toolwright.Proofs.Wrapper.Line
import Toolwright.Proofs.Wrapper.Preamble

/-!
The text of a class. Whatever a tool says, it says it on one line: names and types have no line
feed, help texts are cut into lines, and literals have their line feeds escaped. So the lines of the
text of a class are the lines that the class is laid out in.
-/

namespace Toolwright.Wrapper

open Text (literalOf)

theorem feed_notMem_toString (n : Nat) : '\n' ∉ (toString n).toList := fun feed => by
  have digit := Nat.isDigit_of_mem_toDigits (b := 10) (n := n) (by omega) (by omega)
    (by simpa using feed)
  exact absurd digit (by decide)

theorem feed_notMem_digitChars (ds : List Nat) : '\n' ∉ Decimal.digitChars ds := by
  intro feed
  obtain ⟨d, _, same⟩ := List.mem_map.1 feed
  have code : (Char.ofNat (48 + d)).toNat = 10 := congrArg Char.toNat same
  by_cases valid : (48 + d).isValidChar
  · have ten : 48 + d = 10 := (congrArg Char.toNat (dif_pos valid)).symm.trans code
    omega
  · exact absurd ((congrArg Char.toNat (dif_neg valid)).symm.trans code) (by decide)

theorem feed_notMem_positional (d : Decimal.Digits) : '\n' ∉ Decimal.positional d := by
  have digits := feed_notMem_digitChars d.digits
  have front : ∀ p, '\n' ∉ (Decimal.digitChars d.digits).take p :=
    fun p feed => digits (List.mem_of_mem_take feed)
  have behind : ∀ p, '\n' ∉ (Decimal.digitChars d.digits).drop p :=
    fun p feed => digits (List.mem_of_mem_drop feed)
  unfold Decimal.positional
  split
  · simp [digits]
  · simp [digits]
  · dsimp only
    split <;> simp [front, behind]

theorem feed_notMem_scientific {style : Decimal.Style} (plus : '\n' ∉ style.plus.toList)
    (d : Decimal.Digits) : '\n' ∉ Decimal.scientific style d := by
  have digits := feed_notMem_digitChars d.digits
  have exponent := feed_notMem_toString (d.point - 1).natAbs
  unfold Decimal.scientific
  simp only [List.mem_append, not_or]
  constructor
  · split
    · decide
    · rename_i first whole
      rwa [whole] at digits
    · rename_i first more _ whole
      rw [whole, List.mem_cons, not_or] at digits
      simp [digits]
  · split
    · simpa using exponent
    · simp only [List.mem_append, not_or]
      exact ⟨plus, exponent⟩

theorem feed_notMem_render {style : Decimal.Style} (plus : '\n' ∉ style.plus.toList) (x : Float) :
    '\n' ∉ style.render x := by
  have sign : '\n' ∉ (if Decimal.isNegative x then ['-'] else [] : List Char) := by split <;> decide
  have magnitude : ∀ d, '\n' ∉ style.magnitude d := fun d => by
    unfold Decimal.Style.magnitude
    dsimp only
    split
    · exact feed_notMem_positional d
    · exact feed_notMem_scientific plus d
  unfold Decimal.Style.render
  dsimp only
  cases Decimal.digits? x with
  | none => simp [sign]
  | some d => exact fun feed => (List.mem_append.1 feed).elim sign (magnitude d)

def IsLine (s : String) : Prop := '\n' ∉ s.toList

instance (s : String) : Decidable (IsLine s) := inferInstanceAs (Decidable ('\n' ∉ s.toList))

@[simp] theorem isLine_append {s t : String} : IsLine (s ++ t) ↔ IsLine s ∧ IsLine t := by
  simp [IsLine]

@[simp] theorem isLine_literalOf (s : String) : IsLine (literalOf s) := Text.feed_notMem_literalOf s

theorem isLine_of_isNameText {s : String} (h : IsNameText s) : IsLine s := fun feed =>
  absurd (h _ feed) (by decide)

theorem isLine_of_isPascal {s : String} (h : isPascal s.toList = true) : IsLine s :=
  isLine_of_isNameText (isNameText_of_isPascal h)

theorem isLine_snakeCase (s : String) : IsLine (snakeCase s) :=
  isLine_of_isNameText (isNameText_snakeCase s)

theorem isLine_plainIdent (s : String) : IsLine (plainIdent (snakeCase s)) :=
  isLine_of_isNameText (isNameText_plainIdent (isNameText_snakeCase s))

theorem isLine_toString (i : Int) : IsLine (toString i) := by
  cases i with
  | ofNat n => exact feed_notMem_toString n
  | negSucc n =>
    have text : toString (Int.negSucc n) = "-" ++ toString (n + 1) := rfl
    rw [text, isLine_append]
    exact ⟨by decide, feed_notMem_toString (n + 1)⟩

theorem isLine_join {texts : List String} (h : ∀ s ∈ texts, IsLine s) :
    IsLine (String.join texts) := by
  intro feed
  rw [String.toList_join, List.mem_flatMap] at feed
  obtain ⟨s, hs, feed⟩ := feed
  exact h s hs feed

theorem isLine_intercalate {texts : List String} (h : ∀ s ∈ texts, IsLine s) :
    IsLine (", ".intercalate texts) := by
  induction texts with
  | nil => decide
  | cons s rest ih =>
    obtain ⟨first, others⟩ := List.forall_mem_cons.1 h
    cases rest with
    | nil => simpa using first
    | cons next rest =>
      rw [String.intercalate_cons_cons, isLine_append, isLine_append]
      exact ⟨⟨first, by decide⟩, ih others⟩

theorem isLine_atom {t : Tool} {type : String} (line : IsLine type) {value : Json} {atom : Atom}
    (h : atom? t type value = some atom) : IsLine atom.source := by
  have text : ∀ s, IsLine (Atom.text s).source := fun s =>
    isLine_append.2 ⟨isLine_literalOf s, by decide⟩
  cases value with
  | string s =>
    rw [atom?] at h
    split at h
    · obtain rfl := Option.some.inj h
      exact text s
    · obtain ⟨e, _, h⟩ := Option.bind_eq_some_iff.1 h
      obtain ⟨v, found, h⟩ := Option.bind_eq_some_iff.1 h
      obtain rfl := Option.some.inj h
      have ident := isPascal_variantsFrom [] e.values v (List.mem_of_find?_eq_some found)
      exact isLine_append.2 ⟨isLine_append.2 ⟨line, by decide⟩, isLine_of_isPascal ident⟩
  | number n =>
    rw [atom?, numberAtom?] at h
    split_ifs at h
    · obtain rfl := Option.some.inj h
      exact text _
    · obtain ⟨i, _, rfl⟩ := Option.map_eq_some_iff.1 h
      exact isLine_toString i
    · obtain ⟨i, _, rfl⟩ := Option.map_eq_some_iff.1 h
      exact isLine_toString i
    · obtain rfl := Option.some.inj h
      rw [Atom.source, IsLine, String.toList_ofList]
      exact feed_notMem_render (by decide) _
  | bool b =>
    rw [atom?] at h
    split at h
    · obtain rfl := Option.some.inj h
      cases b <;> decide
    · cases h
  | null | array _ | object _ => cases h

theorem isLine_entry {t : Tool} {type : String} (line : IsLine type) {member : String × Json}
    {entry : String × Atom} (h : keyedAtom? t type member = some entry) :
    IsLine (entrySource entry) := by
  obtain ⟨atom, found, rfl⟩ := Option.map_eq_some_iff.1 h
  have value := isLine_atom line found
  unfold entrySource
  simp only [isLine_append, isLine_literalOf, value, and_true]
  decide

theorem mapM_eq_some {α β : Type} {f : α → Option β} {xs : List α} {ys : List β} :
    xs.mapM f = some ys ↔ List.Forall₂ (fun x y => f x = some y) xs ys := by
  induction xs generalizing ys with
  | nil =>
    rw [List.mapM_nil, List.forall₂_nil_left_iff]
    exact ⟨fun h => (Option.some.inj h).symm, fun h => congrArg some h.symm⟩
  | cons x xs ih =>
    rw [List.mapM_cons, List.forall₂_cons_left_iff]
    constructor
    · intro h
      obtain ⟨y, first, h⟩ := Option.bind_eq_some_iff.1 h
      obtain ⟨rest, others, h⟩ := Option.bind_eq_some_iff.1 h
      cases h
      exact ⟨y, rest, first, ih.1 others, rfl⟩
    · rintro ⟨y, rest, first, others, rfl⟩
      rw [first, ih.2 others]
      rfl

theorem exists_of_mapM {α β : Type} {f : α → Option β} {xs : List α} {ys : List β}
    (h : xs.mapM f = some ys) : ∀ y ∈ ys, ∃ x, f x = some y := by
  induction mapM_eq_some.1 h with
  | nil => exact List.forall_mem_nil _
  | cons first _ ih => exact List.forall_mem_cons.2 ⟨⟨_, first⟩, ih (mapM_eq_some.2 ‹_›)⟩

def TypeShape.IsLine : TypeShape → Prop
  | .scalar e | .list e | .map e => Wrapper.IsLine e.type
  | .bool => True

theorem isLine_typeShape (t : Tool) (declared : String) : (typeShape t declared).IsLine := by
  have element : ∀ declared, IsLine (elementOf t declared).type := fun declared => by
    unfold elementOf
    dsimp only
    split
    · rename_i type found
      unfold primitiveType? at found
      split_ifs at found <;> cases found <;> decide
    · have pascal := isPascal_pascalCase (String.ofList (Text.trim declared))
      exact isLine_of_isPascal (by simpa [pascalCase] using pascal)
  unfold typeShape typeShapeOf
  dsimp only
  split
  · exact element _
  · split
    · exact element _
    · split
      · trivial
      · exact element _

theorem isLine_default {t : Tool} {shape : TypeShape} (types : shape.IsLine) (value : Json) :
    IsLine (defaultExpression t shape value).source := by
  have empty : IsLine shape.empty.source := by
    cases shape with
    | scalar _ | bool => exact (by decide : IsLine "None")
    | list _ => exact (by decide : IsLine "Vec::new()")
    | map _ => exact (by decide : IsLine "BTreeMap::new()")
  have some_ : ∀ e, expression? t shape value = some e → IsLine e.source := fun e h => by
    cases shape with
    | scalar element =>
      rw [expression?] at h
      obtain ⟨atom, found, rfl⟩ := Option.map_eq_some_iff.1 h
      exact isLine_append.2 ⟨isLine_append.2 ⟨by decide, isLine_atom types found⟩, by decide⟩
    | bool =>
      cases value with
      | bool b =>
        obtain rfl := Option.some.inj h
        cases b <;> decide
      | null | number _ | string _ | array _ | object _ => cases h
    | list element =>
      cases value with
      | array items =>
        rw [expression?] at h
        obtain ⟨atoms, found, rfl⟩ := Option.map_eq_some_iff.1 h
        refine isLine_append.2 ⟨isLine_append.2 ⟨by decide, isLine_intercalate ?_⟩, by decide⟩
        intro s hs
        obtain ⟨atom, ha, rfl⟩ := List.mem_map.1 hs
        obtain ⟨item, own⟩ := exists_of_mapM found atom ha
        exact isLine_atom types own
      | null | bool _ | number _ | string _ | object _ => cases h
    | map element =>
      cases value with
      | object members =>
        rw [expression?] at h
        obtain ⟨entries, found, rfl⟩ := Option.map_eq_some_iff.1 h
        refine isLine_append.2 ⟨isLine_append.2 ⟨by decide, isLine_intercalate ?_⟩, by decide⟩
        intro s hs
        obtain ⟨entry, he, rfl⟩ := List.mem_map.1 hs
        obtain ⟨member, own⟩ := exists_of_mapM found entry he
        exact isLine_entry types own
      | null | bool _ | number _ | string _ | array _ => cases h
  unfold defaultExpression
  split
  · exact empty
  · cases found : expression? t shape value with
    | none => exact empty
    | some e => exact some_ e found

theorem isLine_indent {line : String} (h : IsLine line) : IsLine (indent line) := by
  unfold indent
  split
  · exact h
  · exact isLine_append.2 ⟨by decide, h⟩

theorem isLine_block {head : String} {body : List String} (first : IsLine head)
    (inner : ∀ line ∈ body, IsLine line) : ∀ line ∈ block head body, IsLine line := by
  refine List.forall_mem_cons.2 ⟨isLine_append.2 ⟨first, by decide⟩,
    List.forall_mem_append.2 ⟨?_, ?_⟩⟩
  · intro line hl
    obtain ⟨deeper, hd, rfl⟩ := List.mem_map.1 hl
    exact isLine_indent (inner deeper hd)
  · exact List.forall_mem_singleton.2 (by decide)

theorem isLine_docComment {doc : List String} (h : ∀ line ∈ doc, IsLine line) :
    ∀ line ∈ docComment doc, IsLine line := fun line hl => by
  obtain ⟨text, ht, rfl⟩ := List.mem_map.1 hl
  exact isLine_append.2 ⟨by decide, h text ht⟩

theorem isLine_docLines (help : Option String) : ∀ line ∈ docLines help, IsLine line :=
  fun _ hl => feed_notMem_of_mem_docLines hl

structure Method.HasLines (m : Method) : Prop where
  doc : ∀ line ∈ m.doc, IsLine line
  name : IsLine m.name
  parameters : IsLine m.parameters
  result : IsLine m.result
  body : ∀ line ∈ m.body, IsLine line

theorem Method.HasLines.lines {m : Method} (h : m.HasLines) : ∀ line ∈ m.lines, IsLine line := by
  refine List.forall_mem_append.2 ⟨isLine_docComment h.doc, isLine_block ?_ h.body⟩
  simp only [isLine_append, h.name, h.parameters, h.result, and_true]
  decide

theorem isLine_storage {shape : TypeShape} (h : shape.IsLine) : IsLine shape.storage := by
  unfold TypeShape.storage
  cases shape with
  | bool => decide
  | scalar e | list e | map e => exact isLine_append.2 ⟨isLine_append.2 ⟨by decide, h⟩, by decide⟩

structure Field.HasLines (f : Field) : Prop where
  ident : IsLine f.ident
  getter : IsLine f.getter
  snake : IsLine f.snake
  doc : ∀ line ∈ f.doc, IsLine line
  shape : f.shape.IsLine
  default : IsLine f.default.source
  push : ∀ p, f.push? = some p → IsLine p.field

theorem hasLines_fluent {name parameters step : String} (hn : IsLine name) (hp : IsLine parameters)
    (hs : IsLine step) : (fluent name parameters step).HasLines where
  doc := List.forall_mem_nil _
  name := hn
  parameters := isLine_append.2 ⟨by decide, hp⟩
  result := (by decide : IsLine "Self")
  body := List.forall_mem_cons.2 ⟨hs, List.forall_mem_singleton.2 (by decide)⟩

section Fields

variable {f : Field} (h : f.HasLines)
include h

theorem hasLines_getter : f.getterMethod.HasLines where
  doc := h.doc
  name := h.getter
  parameters := (by decide : IsLine "&self")
  result := by
    have shape := h.shape
    change IsLine f.shape.view
    unfold TypeShape.view
    cases kind : f.shape with
    | bool => decide
    | scalar e | list e | map e =>
      rw [kind] at shape
      exact isLine_append.2 ⟨isLine_append.2 ⟨by decide, shape⟩, by decide⟩
  body := by
    refine List.forall_mem_singleton.2 ?_
    unfold viewBody
    cases f.shape <;> simp only [isLine_append, h.ident, and_true] <;> decide

theorem hasLines_mutators : ∀ m ∈ f.mutators, m.HasLines := by
  have ident : '\n' ∉ f.ident.toList := h.ident
  have snake : '\n' ∉ f.snake.toList := h.snake
  have shape := h.shape
  unfold Field.mutators
  cases kind : f.shape with
  | bool =>
    repeat refine List.forall_mem_cons.2 ⟨hasLines_fluent (by simp [IsLine, snake])
      (by simp [IsLine]) (by simp [IsLine, ident]), ?_⟩
    exact List.forall_mem_nil _
  | scalar e | list e | map e =>
    rw [kind] at shape
    have type : '\n' ∉ e.type.toList := shape
    have parameter : '\n' ∉ e.parameter.toList := by
      unfold Element.parameter
      split
      · decide
      · exact type
    have passed : '\n' ∉ e.passed.toList := by
      unfold Element.passed
      split <;> decide
    repeat refine List.forall_mem_cons.2 ⟨hasLines_fluent (by simp [IsLine, snake])
      (by simp [IsLine, type, parameter]) (by simp [IsLine, ident, passed]), ?_⟩
    exact List.forall_mem_nil _

theorem hasLines_methods : ∀ m ∈ f.methods, m.HasLines := by
  refine List.forall_mem_cons.2 ⟨hasLines_getter h, ?_⟩
  cases f.settable with
  | true => exact hasLines_mutators h
  | false => exact List.forall_mem_nil _

end Fields

theorem isLine_pushStatement {format key value : String} (hk : IsLine key) (hv : IsLine value) :
    IsLine (pushStatement format key value) := by
  unfold pushStatement
  simp only [isLine_append, isLine_literalOf, hk, hv, and_true]
  decide

theorem isLine_push {p : Push} (field : IsLine p.field) : ∀ line ∈ p.lines, IsLine line := by
  rw [Push.lines_eq]
  refine isLine_block ?_ (List.forall_mem_singleton.2 ?_)
  · unfold Push.head
    cases p.guard with
    | flag => exact isLine_append.2 ⟨isLine_append.2 ⟨by decide, field⟩, by decide⟩
    | valued | eachItem | eachEntry => exact isLine_append.2 ⟨by decide, field⟩
  · unfold Push.statement
    cases p.guard <;> exact isLine_pushStatement (by decide) (by decide)

theorem hasLines_argumentsMethod (definitive : Option String) {pushes : List Push}
    (h : ∀ p ∈ pushes, IsLine p.field) : (argumentsMethod definitive pushes).HasLines where
  doc := List.forall_mem_singleton.2 (by decide)
  name := (by decide : IsLine "arguments")
  parameters := (by decide : IsLine "&self")
  result := (by decide : IsLine "Vec<String>")
  body := by
    refine List.forall_mem_append.2
      ⟨List.forall_mem_append.2 ⟨List.forall_mem_append.2 ⟨?_, ?_⟩, ?_⟩, ?_⟩
    · exact List.forall_mem_singleton.2 (by decide)
    · cases definitive with
      | none => exact List.forall_mem_nil _
      | some a => exact List.forall_mem_singleton.2 (isLine_pushStatement (by decide) (by decide))
    · intro line hl
      obtain ⟨p, hp, among⟩ := List.mem_flatMap.1 hl
      exact isLine_push (h p hp) line among
    · exact List.forall_mem_singleton.2 (by decide)

theorem isLine_class {c : Class} (name : IsLine c.name) (doc : ∀ line ∈ c.doc, IsLine line)
    (fields : ∀ f ∈ c.fields, f.HasLines) : ∀ line ∈ c.lines, IsLine line := by
  have secrets : IsLine (literalList c.secrets) := isLine_join fun s hs => by
    obtain ⟨secret, _, rfl⟩ := List.mem_map.1 hs
    exact isLine_append.2 ⟨isLine_literalOf secret, by decide⟩
  have stored : ∀ line ∈ c.fields.map fun f => f.ident ++ ": " ++ f.shape.storage ++ ",",
      IsLine line := fun line hl => by
    obtain ⟨f, hf, rfl⟩ := List.mem_map.1 hl
    have storage := isLine_storage (fields f hf).shape
    simp only [isLine_append, (fields f hf).ident, storage, and_true, true_and]
    decide
  have defaults : ∀ line ∈ c.fields.map fun f => f.ident ++ ": " ++ f.default.source ++ ",",
      IsLine line := fun line hl => by
    obtain ⟨f, hf, rfl⟩ := List.mem_map.1 hl
    simp only [isLine_append, (fields f hf).ident, (fields f hf).default, and_true, true_and]
    decide
  have methods : ∀ m ∈ c.methods, m.HasLines := by
    refine List.forall_mem_append.2 ⟨fun m hm => ?_, ?_⟩
    · obtain ⟨f, hf, among⟩ := List.mem_flatMap.1 hm
      exact hasLines_methods (fields f hf) m among
    · cases c.kind with
      | data => exact List.forall_mem_nil _
      | settings definitive =>
        refine List.forall_mem_singleton.2 (hasLines_argumentsMethod definitive fun p hp => ?_)
        obtain ⟨f, hf, own⟩ := List.mem_filterMap.1 hp
        exact (fields f hf).push p own
  have members : ∀ line ∈ c.methods.flatMap fun m => "" :: m.lines, IsLine line := fun line hl => by
    obtain ⟨m, hm, among⟩ := List.mem_flatMap.1 hl
    exact List.forall_mem_cons.2 ⟨(by decide : IsLine ""), (methods m hm).lines⟩ line among
  have derive : ∀ line ∈ ["#[derive(Debug, Clone, PartialEq)]"], IsLine line :=
    List.forall_mem_singleton.2 (by decide)
  have empty : ∀ line ∈ [""], IsLine line := List.forall_mem_singleton.2 (by decide)
  unfold Class.lines
  simp only [List.forall_mem_append]
  refine ⟨⟨⟨⟨⟨⟨isLine_docComment doc, derive⟩, ?_⟩, empty⟩, ?_⟩, empty⟩, ?_⟩
  · exact isLine_block (isLine_append.2 ⟨by decide, name⟩) stored
  · exact isLine_block (isLine_append.2 ⟨by decide, name⟩)
      (isLine_block (by decide) (isLine_block (by decide) defaults))
  · refine isLine_block (isLine_append.2 ⟨by decide, name⟩) (List.forall_mem_cons.2 ⟨?_, members⟩)
    exact isLine_append.2 ⟨isLine_append.2 ⟨by decide, secrets⟩, by decide⟩

theorem hasLines_ofProperty (t : Tool) (p : Property) : (Field.ofProperty t p).HasLines where
  ident := by
    rw [ident_ofProperty]
    exact isLine_plainIdent p.name
  getter := by
    rw [getter_ofProperty]
    exact isLine_of_isNameText (isNameText_getterName (isNameText_snakeCase p.name))
  snake := isLine_snakeCase p.name
  doc := List.forall_mem_append.2 ⟨isLine_docLines p.help, by split <;> simp [IsLine]⟩
  shape := isLine_typeShape t p.type
  default := isLine_default (isLine_typeShape t p.type) p.default.tree
  push := fun push h => by
    obtain ⟨format, _, h⟩ := Option.bind_eq_some_iff.1 h
    split at h
    · obtain rfl := Option.some.inj h
      dsimp only
      exact isLine_plainIdent p.name
    · cases h

def Class.textLines (c : Class) : List String :=
  (Text.lines (unlines c.lines).toList).map String.ofList

theorem textLines_ofProperties (t : Tool) (name : String) (help : Option String)
    (properties : List Property) (kind : ClassKind) :
    (Class.ofProperties t name help properties kind).textLines =
      (Class.ofProperties t name help properties kind).lines := by
  have lines := isLine_class (c := Class.ofProperties t name help properties kind)
    (isLine_of_isPascal (isPascal_pascalCase name)) (isLine_docLines help) fun f hf => by
      obtain ⟨p, _, rfl⟩ := List.mem_map.1 hf
      exact hasLines_ofProperty t p
  have same : String.ofList ∘ String.toList = id := funext fun _ => String.ofList_toList
  rw [Class.textLines, lines_unlines, cutLines_of_forall lines, List.map_map, same, List.map_id]

theorem isNameText_of_mem_fields {t : Tool} {properties : List Property} {f : Field}
    (h : f ∈ properties.map (Field.ofProperty t)) : IsNameText f.ident := by
  obtain ⟨p, _, rfl⟩ := List.mem_map.1 h
  rw [ident_ofProperty]
  exact isNameText_plainIdent (isNameText_snakeCase p.name)

end Toolwright.Wrapper
