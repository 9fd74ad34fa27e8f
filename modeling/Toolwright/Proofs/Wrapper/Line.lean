import Toolwright.Proofs.Text.Blank
import Toolwright.Proofs.Wrapper.Member

/-!
Lines of a wrapper under a reader. A reader of lines tells by what a line begins with whether it
says something. What it reads off a block is what it reads off the head, off the body further in and
off the closing line; off a class it reads what the fields and the methods say, when it reads
nothing off the lines that every class has.
-/

namespace Toolwright.Wrapper

def behind? (known : String) (s : List Char) : Option (List Char) := known.toList.isPrefixOf? s

@[simp] theorem behind?_append (known : String) (rest : List Char) :
    behind? known (known.toList ++ rest) = some rest :=
  List.isPrefixOf?_eq_some_iff_append_eq.2 rfl

theorem behind?_eq_none {known : String} {s : List Char} (h : ¬ known.toList <+: s) :
    behind? known s = none :=
  Option.eq_none_iff_forall_ne_some.2 fun t found =>
    h ⟨t, List.isPrefixOf?_eq_some_iff_append_eq.1 found⟩

theorem behind?_of_clash {known : String} {s : List Char} (h : clash known.toList s = true)
    (rest : List Char) : behind? known (s ++ rest) = none :=
  behind?_eq_none fun begins => by
    rw [← List.isPrefixOf_iff_prefix, not_prefix_of_clash h] at begins
    cases begins

theorem not_prefix_deeper {margin deeper s : List Char} (outer : ∀ c ∈ s.head?, c ≠ ' ') :
    ¬ margin ++ ' ' :: deeper <+: margin ++ s := fun begins => by
  obtain ⟨rest, rfl⟩ := (List.prefix_append_right_inj margin).1 begins
  exact outer ' ' rfl rfl

theorem ne_of_clash {known other : String} (h : clash other.toList known.toList = true)
    (rest : List Char) : known.toList ++ rest ≠ other.toList := fun same => by
  have apart := not_prefix_of_clash h rest
  rw [same, List.isPrefixOf_iff_prefix.2 (List.prefix_refl _)] at apart
  cases apart

theorem takeWhile_of_head {p : Char → Bool} {rest : List Char} (h : ∀ c ∈ rest.head?, p c = false) :
    rest.takeWhile p = [] := by
  cases rest with
  | nil => rfl
  | cons c more => exact List.takeWhile_cons_of_neg (by simp [h c rfl])

theorem takeWhile_run {p : Char → Bool} {run rest : List Char} (inside : ∀ c ∈ run, p c = true)
    (outside : ∀ c ∈ rest.head?, p c = false) :
    (run ++ rest).takeWhile p = run ∧ (run ++ rest).dropWhile p = rest := by
  rw [List.takeWhile_append_of_pos inside, List.dropWhile_append_of_pos inside,
    takeWhile_of_head outside, Text.dropWhile_eq_self outside, List.append_nil]
  exact ⟨rfl, rfl⟩

theorem not_prefix_of_stop (word more : List Char) {name rest : List Char} {c d : Char}
    (named : ∀ x ∈ name, isNameChar x = true) (worded : word.all isNameChar = true)
    (hc : isNameChar c = false) (hd : isNameChar d = false) (other : c ≠ d) :
    ¬ word ++ c :: more <+: name ++ d :: rest := by
  rintro ⟨others, whole⟩
  have behind := congrArg (List.dropWhile isNameChar) whole
  rw [List.append_assoc, List.dropWhile_append_of_pos (List.all_eq_true.1 worded),
    List.dropWhile_append_of_pos named, List.cons_append,
    List.dropWhile_cons_of_neg (by simp [hc]), List.dropWhile_cons_of_neg (by simp [hd])] at behind
  exact other (List.cons.inj behind).1

theorem indent_append {known : String} (visible : known ≠ "") (rest : String) :
    indent (known ++ rest) = ("    " ++ known) ++ rest := by
  have longer : known ++ rest ≠ "" := by simp [visible]
  rw [indent_eq longer, String.append_assoc]

theorem filterMap_block {α : Type} (f : String → Option α) (head : String) (body : List String) :
    (block head body).filterMap f =
      (f (head ++ " \x7b")).toList ++ ((body.map indent).filterMap f ++ (f "\x7d").toList) := by
  rw [block, blockThen, List.filterMap_cons, List.filterMap_append, String.append_empty]
  cases f (head ++ " \x7b") <;> cases h : f "\x7d" <;> simp [h]

theorem filterMap_indent_block {α : Type} (f : String → Option α) (head : String)
    (body : List String) :
    ((block head body).map indent).filterMap f =
      (f (indent (head ++ " \x7b"))).toList ++
        (((body.map indent).map indent).filterMap f ++ (f (indent "\x7d")).toList) := by
  rw [List.filterMap_map, filterMap_block, ← List.filterMap_map]
  rfl

structure SkipsFrame {α : Type} (f : String → Option α) : Prop where
  fixed : ∀ line ∈ ["", "\x7d", "    \x7d", "        \x7d", "        Self \x7b",
    "    fn default() -> Self \x7b", "#[derive(Debug, Clone, PartialEq)]"], f line = none
  begun : ∀ known ∈ ["/// ", "pub struct ", "impl Default for ", "impl ",
    "    pub const SECRET_PROPERTIES: &'static [&'static str] = &["],
      ∀ rest, f (known ++ rest) = none

def Field.storedLine (f : Field) : String :=
  "    " ++ (f.ident ++ (": " ++ (f.shape.storage ++ ",")))

/-- The line of a field in the value that a class begins with. -/
def Field.defaultLine (f : Field) : String :=
  "            " ++ (f.ident ++ (": " ++ (f.default.source ++ ",")))

theorem Class.lines_eq (c : Class) :
    c.lines = docComment c.doc ++
      (["#[derive(Debug, Clone, PartialEq)]", "pub struct " ++ (c.name ++ " \x7b")] ++
      (c.fields.map Field.storedLine ++
      (["\x7d", "", "impl Default for " ++ (c.name ++ " \x7b"), "    fn default() -> Self \x7b",
        "        Self \x7b"] ++
      (c.fields.map Field.defaultLine ++
      (["        \x7d", "    \x7d", "\x7d", "", "impl " ++ (c.name ++ " \x7b"),
        "    pub const SECRET_PROPERTIES: &'static [&'static str] = &[" ++
          (literalList c.secrets ++ "];")] ++
      ((c.methods.flatMap fun m => "" :: m.lines.map indent) ++ ["\x7d"])))))) := by
  have stored : (c.fields.map fun f => f.ident ++ ": " ++ f.shape.storage ++ ",").map indent =
      c.fields.map Field.storedLine := by
    rw [List.map_map]
    refine List.map_congr_left fun f _ => ?_
    simp only [Function.comp_apply, Field.storedLine, String.append_assoc]
    exact indent_eq (by simp)
  have defaults : (((c.fields.map fun f => f.ident ++ ": " ++ f.default.source ++ ",").map
      indent).map indent).map indent = c.fields.map Field.defaultLine := by
    simp only [List.map_map]
    refine List.map_congr_left fun f _ => ?_
    have first : indent (f.ident ++ ": " ++ f.default.source ++ ",") =
        "    " ++ (f.ident ++ ": " ++ f.default.source ++ ",") := indent_eq (by simp)
    simp only [Function.comp_apply, first, Field.defaultLine]
    rw [indent_append (by decide), indent_append (by decide)]
    simp only [String.append_assoc]
    rfl
  have methods : (c.methods.flatMap fun m => "" :: m.lines).map indent =
      c.methods.flatMap fun m => "" :: m.lines.map indent := by
    rw [List.map_flatMap]
    rfl
  have secrets : indent ("pub const SECRET_PROPERTIES: &'static [&'static str] = &[" ++
      literalList c.secrets ++ "];") =
        "    pub const SECRET_PROPERTIES: &'static [&'static str] = &[" ++
          (literalList c.secrets ++ "];") := by
    rw [String.append_assoc, indent_append (by decide)]
    rfl
  rw [Class.lines]
  simp only [block, blockThen, List.map_cons, List.map_append, List.map_nil, stored, defaults,
    methods, secrets]
  simp only [List.append_assoc, List.cons_append, List.nil_append, String.append_assoc,
    String.append_empty]
  rfl

theorem filterMap_docComment {α : Type} {f : String → Option α}
    (h : ∀ text, f ("/// " ++ text) = none) (doc : List String) :
    (docComment doc).filterMap f = [] :=
  List.filterMap_eq_nil_iff.2 fun line hl => by
    obtain ⟨text, _, rfl⟩ := List.mem_map.1 hl
    exact h text

theorem filterMap_class {α : Type} {f : String → Option α} (h : SkipsFrame f) (c : Class) :
    c.lines.filterMap f =
      c.fields.filterMap (fun field => f field.storedLine) ++
        (c.fields.filterMap (fun field => f field.defaultLine) ++
          c.methods.flatMap fun m => (m.lines.map indent).filterMap f) := by
  have doc := filterMap_docComment (h.begun "/// " (by simp)) c.doc
  have methods : (c.methods.flatMap fun m => "" :: m.lines.map indent).filterMap f =
      c.methods.flatMap fun m => (m.lines.map indent).filterMap f := by
    have blank : f "" = none := h.fixed "" (by simp)
    simp only [List.filterMap_flatMap, List.filterMap_cons, blank]
  obtain ⟨blank, close, close₁, close₂, self, default, derive⟩ :
      f "" = none ∧ f "\x7d" = none ∧ f "    \x7d" = none ∧ f "        \x7d" = none ∧
        f "        Self \x7b" = none ∧ f "    fn default() -> Self \x7b" = none ∧
        f "#[derive(Debug, Clone, PartialEq)]" = none := by
    simpa using h.fixed
  obtain ⟨_, struct, initial, implementation, secrets⟩ :
      (∀ rest, f ("/// " ++ rest) = none) ∧ (∀ rest, f ("pub struct " ++ rest) = none) ∧
        (∀ rest, f ("impl Default for " ++ rest) = none) ∧ (∀ rest, f ("impl " ++ rest) = none) ∧
        ∀ rest, f ("    pub const SECRET_PROPERTIES: &'static [&'static str] = &[" ++ rest) =
        none := by
    simpa using h.begun
  rw [Class.lines_eq]
  simp only [List.filterMap_append, List.filterMap_cons, List.filterMap_nil,
    List.filterMap_map, doc, methods, blank, close, close₁, close₂, self, default, derive, struct,
    initial, implementation, secrets, List.nil_append, List.append_nil]
  rfl

def Method.head (m : Method) : String :=
  "    pub fn " ++ (m.name ++ ("(" ++ (m.parameters ++ (") -> " ++ (m.result ++ " \x7b")))))

theorem Method.lines_eq (m : Method) :
    m.lines.map indent = m.doc.map ("    /// " ++ ·) ++
      (m.head :: (m.body.map (fun line => indent (indent line)) ++ ["    \x7d"])) := by
  have doc : (docComment m.doc).map indent = m.doc.map ("    /// " ++ ·) := by
    rw [docComment, List.map_map]
    refine List.map_congr_left fun text _ => ?_
    exact @indent_append "/// " (by decide) text
  have head :
      indent ("pub fn " ++ m.name ++ "(" ++ m.parameters ++ ") -> " ++ m.result ++ " \x7b") =
        m.head := by
    simp only [String.append_assoc]
    exact @indent_append "pub fn " (by decide) _
  rw [Method.lines, List.map_append, doc]
  simp only [block, blockThen, List.map_cons, List.map_append, List.map_map, List.map_nil, head]
  rfl

theorem filterMap_method {α : Type} {f : String → Option α} {m : Method}
    (doc : ∀ text, f ("    /// " ++ text) = none) (close : f "    \x7d" = none)
    (body : ∀ line ∈ m.body, f (indent (indent line)) = none) :
    (m.lines.map indent).filterMap f = (f m.head).toList := by
  have docs : (m.doc.map ("    /// " ++ ·)).filterMap f = [] :=
    List.filterMap_eq_nil_iff.2 fun line hl => by
      obtain ⟨text, _, rfl⟩ := List.mem_map.1 hl
      exact doc text
  have bodies : (m.body.map fun line => indent (indent line)).filterMap f = [] :=
    List.filterMap_eq_nil_iff.2 fun line hl => by
      obtain ⟨inner, hi, rfl⟩ := List.mem_map.1 hl
      exact body inner hi
  rw [Method.lines_eq, List.filterMap_append, docs, List.filterMap_cons,
    List.filterMap_append, bodies]
  cases f m.head <;> simp [close]

theorem begins_pushStatement (format key value : String) :
    "push_formatted(".toList <+: (pushStatement format key value).toList := by
  have start : "push_formatted(".toList <+: "push_formatted(&mut args, ".toList := by decide
  unfold pushStatement
  simp only [String.append_assoc]
  exact start.trans ⟨_, String.toList_append.symm⟩

def Push.head (p : Push) : String :=
  match p.guard with
  | .flag => "if self." ++ p.field ++ " == Some(true)"
  | .valued => "if let Some(value) = &self." ++ p.field
  | .eachItem => "for value in &self." ++ p.field
  | .eachEntry => "for (key, value) in &self." ++ p.field

def Push.statement (p : Push) : String :=
  match p.guard with
  | .flag => pushStatement p.format "\"\"" "\"true\""
  | .valued | .eachItem => pushStatement p.format "\"\"" "&value.to_string()"
  | .eachEntry => pushStatement p.format "key" "&value.to_string()"

theorem Push.lines_eq (p : Push) : p.lines = block p.head [p.statement] := by
  unfold Push.lines Push.head Push.statement
  cases p.guard <;> simp only [← String.append_assoc] <;> rfl

/-- A line that says something about the object, or about a part of it, and opens no block. -/
structure IsStep (line : String) : Prop where
  begins : ∃ known ∈ ["self", "&self"], known.toList <+: line.toList
  ends : line.toList.getLast? ≠ some '\x7b'

theorem isStep_self : IsStep "self" := ⟨⟨"self", by simp⟩, by decide⟩

theorem getLast?_append_text (s : String) {known : String} {c : Char}
    (last : known.toList.getLast? = some c) : (s ++ known).toList.getLast? = some c := by
  rw [String.toList_append, List.getLast?_append, last, Option.some_or]

theorem Field.body_mutators (f : Field) : ∀ m ∈ f.mutators, ∀ line ∈ m.body, IsStep line := by
  have two : ∀ name parameters front behind : String, "self".toList <+: (front ++ behind).toList →
      behind.toList.getLast? = some ';' →
      ∀ line ∈ (fluent name parameters (front ++ behind)).body, IsStep line :=
    fun name parameters front behind begins last => List.forall_mem_cons.2
      ⟨⟨⟨"self", by simp, begins⟩, by rw [getLast?_append_text front last]; decide⟩,
        List.forall_mem_singleton.2 isStep_self⟩
  unfold Field.mutators
  cases f.shape
  all_goals
    repeat refine List.forall_mem_cons.2 ⟨two _ _ _ _ (by simp) (by decide), ?_⟩
    exact List.forall_mem_nil _

theorem Field.body_getter {f : Field} (name : IsNameText f.ident) : IsStep (viewBody f) := by
  have last : ∀ known : String, ∀ c, known.toList.getLast? = some c → c ≠ '\x7b' →
      (known ++ f.ident).toList.getLast? ≠ some '\x7b' := fun known c own other brace => by
    rw [String.toList_append, List.getLast?_append, own, Option.or_eq_some_iff] at brace
    rcases brace with inside | ⟨_, same⟩
    · exact absurd (name _ (List.mem_of_getLast? inside)) (by decide)
    · exact other (Option.some.inj same)
  unfold viewBody
  cases f.shape with
  | scalar e =>
    refine ⟨⟨"self", by simp⟩, ?_⟩
    rw [getLast?_append_text _ (c := ')') (by decide)]
    decide
  | bool => exact ⟨⟨"self", by simp⟩, last "self." '.' (by decide) (by decide)⟩
  | list e | map e => exact ⟨⟨"&self", by simp⟩, last "&self." '.' (by decide) (by decide)⟩

theorem Field.body_methods {f : Field} (name : IsNameText f.ident) :
    ∀ m ∈ f.methods, ∀ line ∈ m.body, IsStep line := by
  unfold Field.methods
  refine List.forall_mem_cons.2 ⟨List.forall_mem_singleton.2 (f.body_getter name), ?_⟩
  cases f.settable with
  | true => exact f.body_mutators
  | false => exact List.forall_mem_nil _

def Class.ofTask (t : Tool) (task : Task) : Class :=
  Class.ofProperties t (task.settings.effectiveName t) task.settings.help task.settings.properties
    (.settings (nonEmpty? task.definitiveArgument))

def Class.ofDataClass (t : Tool) (d : DataClass) : Class :=
  Class.ofProperties t d.name d.help d.properties .data

theorem classes_ofTool (t : Tool) :
    (Source.ofTool t).classes =
      t.dataClasses.map (Class.ofDataClass t) ++ t.tasks.map (Class.ofTask t) := by
  have data : ∀ f : Item → Option Class, (∀ c, f (.cls c) = some c) →
      (t.dataClasses.map fun d => Item.cls (Class.ofDataClass t d)).filterMap f =
        t.dataClasses.map (Class.ofDataClass t) := fun f cls => by
    rw [List.filterMap_map, ← List.filterMap_eq_map]
    exact congrArg (t.dataClasses.filterMap ·) (funext fun d => cls _)
  have tasks : ∀ f : Item → Option Class, (∀ c, f (.cls c) = some c) →
      (∀ task, f (.task task) = none) →
        (t.tasks.flatMap (taskItems t)).filterMap f = t.tasks.map (Class.ofTask t) :=
    fun f cls task => by
      simp only [List.filterMap_flatMap, taskItems, List.filterMap_cons, List.filterMap_nil,
        cls, task]
      rw [List.map_eq_flatMap]
      rfl
  have none_ : ∀ f : Item → Option Class, (∀ e, f (.enumeration e) = none) →
      (t.enumerations.map fun e => Item.enumeration (EnumerationItem.ofEnumeration e)).filterMap f =
        [] := fun f enumeration => by
    rw [List.filterMap_map]
    exact List.filterMap_eq_nil_iff.2 fun e _ => enumeration _
  rw [Source.classes, Source.ofTool, List.filterMap_append, List.filterMap_append,
    none_ _ fun _ => rfl, tasks _ (fun _ => rfl) fun _ => rfl]
  exact congrArg (· ++ t.tasks.map (Class.ofTask t)) (data _ fun _ => rfl)

end Toolwright.Wrapper
