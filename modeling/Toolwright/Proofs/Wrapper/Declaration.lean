import Toolwright.Proofs.Wrapper.Casing
import Toolwright.Wrapper.Layout

/-!
Names that the text of a wrapper declares. A declaration is read off a line: by what the line begins
with, the name itself and what follows the name. Whatever a tool says, the entries of
`Source.lines` declare the names of its items and of their members and nothing else; no help text
and no literal is read as a declaration. An address with a line feed in it is one such entry but
more than one line of the text.
-/

namespace Toolwright.Wrapper

inductive DeclarationKind where
  /-- A struct or an enum. -/
  | type
  | variant
  | field
  /-- A function inside a block. -/
  | method
  | function
  deriving DecidableEq, Repr

structure Declaration where
  kind : DeclarationKind
  name : String
  deriving DecidableEq, Repr

/-- Letters and digits, underscores, and what marks a keyword as a name. -/
def isNameChar (c : Char) : Bool := c.isAlphanum || c == '_' || c == '#'

structure LineForm where
  kind : DeclarationKind
  before : String
  after : String
  deriving DecidableEq

def lineForms : List LineForm := [
  ⟨.field, "    ", ": "⟩,
  ⟨.variant, "    ", ","⟩,
  ⟨.method, "    pub fn ", "("⟩,
  ⟨.method, "    fn ", "("⟩,
  ⟨.type, "pub struct ", " \x7b"⟩,
  ⟨.type, "pub enum ", " \x7b"⟩,
  ⟨.function, "pub fn ", "("⟩,
  ⟨.function, "fn ", "("⟩]

def LineForm.read? (form : LineForm) (line : List Char) : Option Declaration :=
  let rest := line.drop form.before.toList.length
  if form.before.toList.isPrefixOf line && form.after.toList.isPrefixOf (rest.dropWhile isNameChar)
  then some ⟨form.kind, String.ofList (rest.takeWhile isNameChar)⟩
  else none

def declaration? (line : String) : Option Declaration :=
  lineForms.findSome? fun form => form.read? line.toList

def declarations (lines : List String) : List Declaration := lines.filterMap declaration?

def namesOf (kind : DeclarationKind) (ds : List Declaration) : List String :=
  (ds.filter (·.kind = kind)).map (·.name)

def declared (kind : DeclarationKind) (lines : List String) : List String :=
  namesOf kind (declarations lines)

section Names

variable {kind : DeclarationKind}

@[simp] theorem namesOf_nil : namesOf kind [] = [] := rfl

@[simp] theorem namesOf_cons (d : Declaration) (rest : List Declaration) :
    namesOf kind (d :: rest) =
      if d.kind = kind then d.name :: namesOf kind rest else namesOf kind rest := by
  by_cases same : d.kind = kind <;> simp [namesOf, same]

@[simp] theorem namesOf_append (xs ys : List Declaration) :
    namesOf kind (xs ++ ys) = namesOf kind xs ++ namesOf kind ys := by
  rw [namesOf, List.filter_append, List.map_append]
  rfl

@[simp] theorem namesOf_map {α : Type} (other : DeclarationKind) (f : α → String) (xs : List α) :
    namesOf kind (xs.map fun x => ⟨other, f x⟩) = if other = kind then xs.map f else [] := by
  induction xs with
  | nil => simp
  | cons x rest ih =>
    rw [List.map_cons, List.map_cons, namesOf_cons, ih]
    split <;> rfl

theorem namesOf_flatMap {α : Type} (f : α → List Declaration) (xs : List α) :
    namesOf kind (xs.flatMap f) = xs.flatMap fun x => namesOf kind (f x) := by
  induction xs with
  | nil => rfl
  | cons x rest ih => rw [List.flatMap_cons, List.flatMap_cons, namesOf_append, ih]

end Names

def IsNameText (name : String) : Prop := ∀ c ∈ name.toList, isNameChar c = true

instance (name : String) : Decidable (IsNameText name) :=
  decidable_of_iff (name.toList.all isNameChar = true) List.all_eq_true

def clash (a b : List Char) : Bool := !a.isPrefixOf b && !b.isPrefixOf a

/-- Whether no line that begins with the known characters has the form. -/
def LineForm.refuses (form : LineForm) (known : List Char) : Bool :=
  let stopped := (known.drop form.before.toList.length).dropWhile isNameChar
  clash form.before.toList known ||
    (form.before.toList.isPrefixOf known && !stopped.isEmpty && clash form.after.toList stopped)

/-- Whether the other form begins with the same and differs in what follows the name. -/
def LineForm.branches (form other : LineForm) : Bool :=
  other.before == form.before && clash other.after.toList form.after.toList

/-- Whether the other form begins with the same and goes on with a word that another text follows
than the name. -/
def LineForm.continues (form other : LineForm) : Bool :=
  let behind := (other.before.toList.drop form.before.toList.length).dropWhile isNameChar
  form.before.toList.isPrefixOf other.before.toList && !behind.isEmpty &&
    clash behind form.after.toList

def endsName : List Char → Bool
  | [] => false
  | c :: _ => !isNameChar c

theorem not_prefix_of_clash {a b : List Char} (h : clash a b = true) (rest : List Char) :
    a.isPrefixOf (b ++ rest) = false := by
  simp only [clash, Bool.and_eq_true, Bool.not_eq_true', ← Bool.not_eq_true,
    List.isPrefixOf_iff_prefix] at h ⊢
  obtain ⟨notPrefix, notLonger⟩ := h
  intro both
  rcases List.prefix_or_prefix_of_prefix both (List.prefix_append b rest) with shorter | longer
  · exact notPrefix shorter
  · exact notLonger longer

theorem LineForm.read?_of_refuses {form : LineForm} {known : List Char}
    (h : form.refuses known = true) (rest : List Char) : form.read? (known ++ rest) = none := by
  simp only [LineForm.refuses, Bool.or_eq_true, Bool.and_eq_true] at h
  rcases h with head | ⟨⟨begins, more⟩, tail⟩
  · simp [LineForm.read?, not_prefix_of_clash head]
  · obtain ⟨behind, rfl⟩ := List.isPrefixOf_iff_prefix.1 begins
    simp only [List.drop_left, Bool.not_eq_true'] at more tail
    simp [LineForm.read?, List.append_assoc, List.dropWhile_append, more, not_prefix_of_clash tail]

section EndsName

variable {after : List Char} (h : endsName after = true)
include h

theorem endsName_append (rest : List Char) : endsName (after ++ rest) = true := by
  cases after with
  | nil => cases h
  | cons c more => exact h

theorem dropWhile_of_endsName : after.dropWhile isNameChar = after := by
  cases after with
  | nil => rfl
  | cons c more => rw [List.dropWhile_cons_of_neg (by simpa [endsName] using h)]

theorem takeWhile_of_endsName : after.takeWhile isNameChar = [] := by
  cases after with
  | nil => rfl
  | cons c more => rw [List.takeWhile_cons_of_neg (by simpa [endsName] using h)]

end EndsName

def LineForm.line (form : LineForm) (name : String) (rest : List Char) : List Char :=
  form.before.toList ++ (name.toList ++ (form.after.toList ++ rest))

section Lines

variable {name : String}

theorem LineForm.read?_name (form : LineForm) (h : IsNameText name) {after : List Char}
    (ends : endsName after = true) :
    form.read? (form.before.toList ++ (name.toList ++ after)) =
      if form.after.toList.isPrefixOf after then some ⟨form.kind, name⟩ else none := by
  have there :
      form.before.toList.isPrefixOf (form.before.toList ++ (name.toList ++ after)) = true :=
    List.isPrefixOf_iff_prefix.2 (List.prefix_append _ _)
  simp only [LineForm.read?, there, List.drop_left, List.dropWhile_append_of_pos h,
    List.takeWhile_append_of_pos h, dropWhile_of_endsName ends, takeWhile_of_endsName ends,
    List.append_nil, String.ofList_toList, Bool.true_and]

section Forms

variable {form other : LineForm} (readable : IsNameText name)
  (ends : endsName form.after.toList = true) (rest : List Char)
include readable ends

theorem LineForm.read?_line : form.read? (form.line name rest) = some ⟨form.kind, name⟩ := by
  have there : form.after.toList.isPrefixOf (form.after.toList ++ rest) = true :=
    List.isPrefixOf_iff_prefix.2 (List.prefix_append _ _)
  rw [line, form.read?_name readable (endsName_append ends rest), if_pos there]

theorem LineForm.read?_of_branches (h : form.branches other = true) :
    other.read? (form.line name rest) = none := by
  simp only [LineForm.branches, Bool.and_eq_true, beq_iff_eq] at h
  rw [line, ← h.1, other.read?_name readable (endsName_append ends rest), not_prefix_of_clash h.2]
  rfl

theorem LineForm.read?_of_continues (h : form.continues other = true) :
    other.read? (form.line name rest) = none := by
  simp only [LineForm.continues, Bool.and_eq_true, Bool.not_eq_true'] at h
  obtain ⟨⟨begins, more⟩, apart⟩ := h
  obtain ⟨word, before⟩ := List.isPrefixOf_iff_prefix.1 begins
  rw [← before, List.drop_left] at more apart
  have notPrefix : other.before.toList.isPrefixOf (form.line name rest) = false := by
    rw [line, ← Bool.not_eq_true, List.isPrefixOf_iff_prefix, ← before,
      List.prefix_append_right_inj]
    rintro ⟨others, whole⟩
    -- behind the word the other form goes on as this one does behind the name
    have behind : word.dropWhile isNameChar ++ others = form.after.toList ++ rest := by
      have dropped := congrArg (List.dropWhile isNameChar) whole
      rwa [List.dropWhile_append, if_neg (by simp [more]), List.dropWhile_append_of_pos readable,
        dropWhile_of_endsName (endsName_append ends rest)] at dropped
    have begins : (word.dropWhile isNameChar).isPrefixOf (form.after.toList ++ rest) = true :=
      List.isPrefixOf_iff_prefix.2 ⟨others, behind⟩
    rw [not_prefix_of_clash apart] at begins
    cases begins
  simp [LineForm.read?, notPrefix]

end Forms

theorem lineForms_apart : ∀ form ∈ lineForms, endsName form.after.toList = true ∧
    ∀ other ∈ lineForms, other = form ∨ other.refuses form.before.toList = true ∨
      form.branches other = true ∨ form.continues other = true := by
  decide +kernel

theorem declaration?_of_form (form : LineForm) (among : form ∈ lineForms) (h : IsNameText name)
    (rest : List Char) (line : String)
    (text : line.toList = form.before.toList ++ name.toList ++ form.after.toList ++ rest) :
    declaration? line = some ⟨form.kind, name⟩ := by
  obtain ⟨ends, apart⟩ := lineForms_apart form among
  have whole : line.toList = form.line name rest := by
    rw [text, LineForm.line]
    simp only [List.append_assoc]
  have own : form.read? line.toList = some ⟨form.kind, name⟩ := by
    rw [whole, LineForm.read?_line h ends]
  have others : ∀ other ∈ lineForms,
      other.read? line.toList = none ∨ other.read? line.toList = some ⟨form.kind, name⟩ := by
    intro other ho
    rcases apart other ho with rfl | refuses | branches | continues
    · exact .inr own
    · exact .inl (by rw [whole, LineForm.line, LineForm.read?_of_refuses refuses])
    · exact .inl (by rw [whole, LineForm.read?_of_branches h ends rest branches])
    · exact .inl (by rw [whole, LineForm.read?_of_continues h ends rest continues])
  cases found : declaration? line with
  | none => rw [List.findSome?_eq_none_iff.1 found form among] at own; cases own
  | some d =>
    obtain ⟨other, ho, read⟩ := List.exists_of_findSome?_eq_some found
    rcases others other ho with unread | same
    · rw [unread] at read; cases read
    · exact read.symm.trans same

theorem declaration?_of_refused {known : String}
    (h : lineForms.all (·.refuses known.toList) = true) (rest : String) :
    declaration? (known ++ rest) = none := by
  refine List.findSome?_eq_none_iff.2 fun form among => ?_
  rw [String.toList_append]
  exact LineForm.read?_of_refuses (List.all_eq_true.1 h form among) rest.toList

theorem indent_eq {line : String} (visible : line ≠ "") : indent line = "    " ++ line := by
  rw [indent, if_neg (by simpa using visible)]

theorem declaration?_indent_of_refused {known : String} (visible : known ≠ "")
    (h : lineForms.all (·.refuses ("    " ++ known).toList) = true) (rest : String) :
    declaration? (indent (known ++ rest)) = none := by
  have longer : known ++ rest ≠ "" := by simp [visible]
  rw [indent_eq longer, ← String.append_assoc]
  exact declaration?_of_refused h rest

@[simp] theorem declaration?_empty : declaration? "" = none := by rfl

@[simp] theorem declaration?_indent_indent (line : String) :
    declaration? (indent (indent line)) = none := by
  by_cases empty : line = ""
  · subst empty
    rfl
  · have deep : indent (indent line) = "        " ++ line := by
      have visible : indent line ≠ "" := by simp [indent_eq empty]
      rw [indent_eq visible, indent_eq empty, ← String.append_assoc]
      rfl
    rw [deep]
    exact declaration?_of_refused (by decide) line

@[simp] theorem declaration?_comment (text : String) : declaration? ("// " ++ text) = none :=
  declaration?_of_refused (by decide) text

@[simp] theorem declaration?_doc (text : String) : declaration? ("/// " ++ text) = none :=
  declaration?_of_refused (by decide) text

@[simp] theorem declaration?_indent_doc (text : String) :
    declaration? (indent ("/// " ++ text)) = none :=
  declaration?_indent_of_refused (by decide) (by decide) text

end Lines

@[simp] theorem declarations_nil : declarations [] = [] := rfl

@[simp] theorem declarations_append (xs ys : List String) :
    declarations (xs ++ ys) = declarations xs ++ declarations ys := List.filterMap_append

@[simp] theorem declarations_cons (line : String) (rest : List String) :
    declarations (line :: rest) = (declaration? line).toList ++ declarations rest := by
  rw [declarations, List.filterMap_cons]
  cases declaration? line <;> rfl

theorem declarations_flatMap {α : Type} {f : α → List String} {g : α → List Declaration}
    {xs : List α} (h : ∀ x ∈ xs, declarations (f x) = g x) :
    declarations (xs.flatMap f) = xs.flatMap g := by
  induction xs with
  | nil => rfl
  | cons x rest ih =>
    obtain ⟨first, others⟩ := List.forall_mem_cons.1 h
    rw [List.flatMap_cons, List.flatMap_cons, declarations_append, first, ih others]

theorem declarations_eq_nil {lines : List String} (h : ∀ line ∈ lines, declaration? line = none) :
    declarations lines = [] := List.filterMap_eq_nil_iff.2 h

@[simp] theorem declarations_docComment (doc : List String) : declarations (docComment doc) = [] :=
  declarations_eq_nil fun line hl => by
    obtain ⟨text, _, rfl⟩ := List.mem_map.1 hl
    exact declaration?_doc text

@[simp] theorem declarations_indent_docComment (doc : List String) :
    declarations ((docComment doc).map indent) = [] :=
  declarations_eq_nil fun line hl => by
    obtain ⟨comment, hc, rfl⟩ := List.mem_map.1 hl
    obtain ⟨text, _, rfl⟩ := List.mem_map.1 hc
    exact declaration?_indent_doc text

theorem declarations_block (head : String) (body : List String) :
    declarations (block head body) =
      (declaration? (head ++ " \x7b")).toList ++ declarations (body.map indent) := by
  have close : declaration? "\x7d" = none := by rfl
  simp [block, blockThen, close]

theorem declarations_indent_block (head : String) (body : List String) :
    declarations ((block head body).map indent) =
      (declaration? (indent (head ++ " \x7b"))).toList := by
  have close : declaration? (indent "\x7d") = none := by rfl
  have deep : declarations (body.map (indent ∘ indent)) = [] :=
    declarations_eq_nil fun line hl => by
      obtain ⟨inner, _, rfl⟩ := List.mem_map.1 hl
      exact declaration?_indent_indent inner
  simp [block, blockThen, close, deep]

theorem declarations_map {α : Type} {f : α → String} {g : α → Declaration} {xs : List α}
    (h : ∀ x ∈ xs, declaration? (f x) = some (g x)) : declarations (xs.map f) = xs.map g := by
  induction xs with
  | nil => rfl
  | cons x rest ih =>
    obtain ⟨first, others⟩ := List.forall_mem_cons.1 h
    rw [List.map_cons, declarations_cons, first, ih others]
    rfl

/-- The declarations of a class: the type, its fields, and its methods behind `default`. -/
def Class.declared (c : Class) : List Declaration :=
  ⟨.type, c.name⟩ :: (c.fields.map (fun f => ⟨.field, f.ident⟩) ++
    ⟨.method, "default"⟩ :: c.methods.map fun m => ⟨.method, m.name⟩)

def EnumerationItem.declared (e : EnumerationItem) : List Declaration :=
  ⟨.type, e.name⟩ :: (e.variants.map (fun v => ⟨.variant, v.ident⟩) ++
    [⟨.method, "as_str"⟩, ⟨.method, "fmt"⟩])

def Item.declared : Item → List Declaration
  | .enumeration e => e.declared
  | .cls c => c.declared
  | .task t => [⟨.function, t.name⟩]

/-- All declarations of a wrapper, those of the header first. -/
def Source.declared (s : Source) : List Declaration :=
  ⟨.function, "push_formatted"⟩ :: s.items.flatMap Item.declared

theorem Class.namesOf_type (c : Class) : namesOf .type c.declared = [c.name] := by
  simp [Class.declared]

theorem Class.namesOf_field (c : Class) : namesOf .field c.declared = c.fields.map (·.ident) := by
  simp [Class.declared]

theorem Class.namesOf_method (c : Class) :
    namesOf .method c.declared = "default" :: c.methods.map (·.name) := by
  simp [Class.declared]

theorem Class.namesOf_function (c : Class) : namesOf .function c.declared = [] := by
  simp [Class.declared]

theorem EnumerationItem.namesOf_type (e : EnumerationItem) :
    namesOf .type e.declared = [e.name] := by
  simp [EnumerationItem.declared]

theorem EnumerationItem.namesOf_function (e : EnumerationItem) :
    namesOf .function e.declared = [] := by
  simp [EnumerationItem.declared]

def Item.IsReadable (item : Item) : Prop := ∀ d ∈ item.declared, IsNameText d.name

theorem declarations_method {m : Method} (h : IsNameText m.name) :
    declarations (m.lines.map indent) = [⟨.method, m.name⟩] := by
  have head := declaration?_of_form ⟨.method, "    pub fn ", "("⟩ (by simp [lineForms]) h
    (m.parameters ++ ") -> " ++ m.result ++ " \x7b").toList
    (indent ("pub fn " ++ m.name ++ "(" ++ m.parameters ++ ") -> " ++ m.result ++ " \x7b"))
    (by simp [indent_eq])
  simp [Method.lines, declarations_indent_block, head]

theorem declarations_class {c : Class} (h : (Item.cls c).IsReadable) :
    declarations c.lines = c.declared := by
  obtain ⟨name, fields, _, methods⟩ : IsNameText c.name ∧ (∀ f ∈ c.fields, IsNameText f.ident) ∧
      IsNameText "default" ∧ ∀ m ∈ c.methods, IsNameText m.name := by
    simpa [Item.IsReadable, Item.declared, Class.declared, or_imp, forall_and] using h
  have head := declaration?_of_form ⟨.type, "pub struct ", " \x7b"⟩ (by simp [lineForms])
    name [] ("pub struct " ++ c.name ++ " \x7b") (by simp)
  have body : declarations ((c.fields.map fun f =>
      f.ident ++ ": " ++ f.shape.storage ++ ",").map indent) =
        c.fields.map (⟨.field, ·.ident⟩) := by
    rw [List.map_map]
    exact declarations_map fun f hf => declaration?_of_form ⟨.field, "    ", ": "⟩
      (by simp [lineForms]) (fields f hf) (f.shape.storage ++ ",").toList _ (by simp [indent_eq])
  have members : declarations ((c.methods.flatMap fun m => "" :: m.lines).map indent) =
      c.methods.map (⟨.method, ·.name⟩) := by
    have blank : declaration? (indent "") = none := by rfl
    rw [List.map_flatMap, List.map_eq_flatMap]
    exact declarations_flatMap fun m hm => by simp [blank, declarations_method (methods m hm)]
  have derive : declaration? "#[derive(Debug, Clone, PartialEq)]" = none := by rfl
  have default : declaration? ("impl Default for " ++ c.name ++ " \x7b") = none := by
    simp only [String.append_assoc]
    exact declaration?_of_refused (by decide) _
  have initial : declaration? (indent ("fn default() -> Self" ++ " \x7b")) =
      some ⟨.method, "default"⟩ := by rfl
  have implementation : declaration? ("impl " ++ c.name ++ " \x7b") = none := by
    simp only [String.append_assoc]
    exact declaration?_of_refused (by decide) _
  have secrets : declaration?
      (indent ("pub const SECRET_PROPERTIES: &'static [&'static str] = &[" ++
        literalList c.secrets ++ "];")) = none := by
    simp only [String.append_assoc]
    exact declaration?_indent_of_refused (by decide) (by decide) _
  simp only [Class.lines, Class.declared, declarations_append, declarations_cons,
    declarations_docComment, declarations_block, declarations_indent_block, List.map_cons,
    declaration?_empty, derive, head, body, default, initial, implementation, secrets, members,
    Option.toList_none, Option.toList_some, List.nil_append, List.cons_append, List.append_assoc]

theorem declarations_enumeration {e : EnumerationItem} (h : (Item.enumeration e).IsReadable) :
    declarations e.lines = e.declared := by
  obtain ⟨name, variants, _⟩ : IsNameText e.name ∧ (∀ v ∈ e.variants, IsNameText v.ident) ∧
      IsNameText "as_str" ∧ IsNameText "fmt" := by
    simpa [Item.IsReadable, Item.declared, EnumerationItem.declared, or_imp, forall_and] using h
  have head := declaration?_of_form ⟨.type, "pub enum ", " \x7b"⟩ (by simp [lineForms])
    name [] ("pub enum " ++ e.name ++ " \x7b") (by simp)
  have body : declarations ((e.variants.map fun v => v.ident ++ ",").map indent) =
      e.variants.map (⟨.variant, ·.ident⟩) := by
    rw [List.map_map]
    exact declarations_map fun v hv => declaration?_of_form ⟨.variant, "    ", ","⟩
      (by simp [lineForms]) (variants v hv) [] _ (by simp [indent_eq])
  have derive : declaration? "#[derive(Debug, Clone, Copy, PartialEq, Eq, Hash)]" = none := by rfl
  have blank : declaration? (indent "") = none := by rfl
  have implementation : declaration? ("impl " ++ e.name ++ " \x7b") = none := by
    simp only [String.append_assoc]
    exact declaration?_of_refused (by decide) _
  have values : declaration? (indent ("pub const VALUES: &'static [&'static str] = &[" ++
      literalList (e.variants.map (·.value)) ++ "];")) = none := by
    simp only [String.append_assoc]
    exact declaration?_indent_of_refused (by decide) (by decide) _
  have text : declaration? (indent ("pub fn as_str(&self) -> &'static str" ++ " \x7b")) =
      some ⟨.method, "as_str"⟩ := by rfl
  have display : declaration? ("impl std::fmt::Display for " ++ e.name ++ " \x7b") = none := by
    simp only [String.append_assoc]
    exact declaration?_of_refused (by decide) _
  have shown : declaration? (indent (
      "fn fmt(&self, f: &mut std::fmt::Formatter<'_>) -> std::fmt::Result" ++ " \x7b")) =
      some ⟨.method, "fmt"⟩ := by rfl
  simp only [EnumerationItem.lines, EnumerationItem.declared, declarations_append,
    declarations_cons, declarations_docComment, declarations_block, declarations_indent_block,
    List.map_cons, declaration?_empty, derive, blank, head, body, implementation, values, text,
    display, shown, Option.toList_none, Option.toList_some, List.nil_append, List.cons_append,
    List.append_assoc]

theorem declarations_task {t : TaskFunction} (h : (Item.task t).IsReadable) :
    declarations t.lines = [⟨.function, t.name⟩] := by
  have name : IsNameText t.name := by simpa [Item.IsReadable, Item.declared] using h
  have head := declaration?_of_form ⟨.function, "pub fn ", "("⟩ (by simp [lineForms])
    name ("configure: impl FnOnce(" ++ t.settings ++ ") -> " ++ t.settings ++
      ") -> Vec<String>" ++ " \x7b").toList
    ("pub fn " ++ t.name ++ "(configure: impl FnOnce(" ++ t.settings ++ ") -> " ++
      t.settings ++ ") -> Vec<String>" ++ " \x7b") (by simp)
  have call : declaration? (indent ("configure(" ++ t.settings ++ "::default()).arguments()")) =
      none := by
    simp only [String.append_assoc]
    exact declaration?_indent_of_refused (by decide) (by decide) _
  simp only [TaskFunction.lines, declarations_append, declarations_docComment, declarations_block,
    declarations_cons, declarations_nil, List.map_cons, List.map_nil, head, call,
    Option.toList_none, Option.toList_some, List.nil_append, List.append_nil]

theorem declarations_item {item : Item} (h : item.IsReadable) :
    declarations item.lines = item.declared := by
  cases item with
  | enumeration e => exact declarations_enumeration h
  | cls c => exact declarations_class h
  | task t => exact declarations_task h

theorem declarations_header (h : Header) :
    declarations h.lines = [⟨.function, "push_formatted"⟩] := by
  have origin :
      declaration? ("// Generated by toolgen from " ++ h.repositoryUrl ++ ". Do not edit.") =
        none := by
    simp only [String.append_assoc]
    exact declaration?_of_refused (by decide) _
  have doc : declarations (h.doc.map ("// " ++ ·)) = [] := declarations_eq_nil fun line hl => by
    obtain ⟨text, _, rfl⟩ := List.mem_map.1 hl
    exact declaration?_comment text
  have maps :
      declarations (if h.hasMaps then ["", "use std::collections::BTreeMap;"] else []) = [] := by
    split <;> rfl
  have constants : declarations ((⟨"TOOL_NAME", h.toolName⟩ :: h.constants).map fun c =>
      "pub const " ++ c.name ++ ": &str = " ++ Text.literalOf c.value ++ ";") = [] :=
    declarations_eq_nil fun line hl => by
      obtain ⟨c, _, rfl⟩ := List.mem_map.1 hl
      simp only [String.append_assoc]
      exact declaration?_of_refused (by decide) _
  have push : declarations pushFunction = [⟨.function, "push_formatted"⟩] := by rfl
  simp only [Header.lines, Header.preamble, declarations_append, declarations_cons,
    declarations_nil, origin, doc, maps, constants, push, declaration?_empty, Option.toList_none,
    List.nil_append, List.append_nil]

/-- What the lines of a wrapper declare, if the names in it are read as they are. -/
theorem declarations_source {s : Source} (h : ∀ item ∈ s.items, item.IsReadable) :
    declarations s.lines = s.declared := by
  have items : declarations (s.items.flatMap fun item => "" :: item.lines) =
      s.items.flatMap Item.declared :=
    declarations_flatMap fun item hi => by simp [declarations_item (h item hi)]
  rw [Source.lines, declarations_append, declarations_header, items]
  rfl

end Toolwright.Wrapper
