import Toolwright.Proofs.Wrapper.ClassText

/-!
Methods of the classes of a wrapper. The lines of a class that begin like a public method are the
heads of its methods and nothing else, whatever its help texts, types, formats and defaults say. So
for every property there is its getter and then, if it can be set, the methods that change a
property of its shape; a settings class has one more method at the end.
-/

namespace Toolwright.Wrapper

def methodMark : String := "    pub fn "

def isMethodLine (line : String) : Bool := methodMark.toList.isPrefixOf line.toList

/-- What stands up to the parameters on the line of a method. -/
def methodName (line : String) : String :=
  String.ofList ((line.toList.drop methodMark.length).takeWhile (· != '('))

def Class.methodLines (c : Class) : List String := c.textLines.filter isMethodLine

/-- Names of the methods of a property: the getter and, if the property can be set, one for each way
to change it. -/
def propertyMethods (t : Tool) (p : Property) : List String :=
  getterName (snakeCase p.name) ::
    if p.settable then (typeShape t p.type).mutatorHeads.map (· ++ snakeCase p.name) else []

theorem isMethodLine_of_clash {known : String} (h : clash methodMark.toList known.toList = true)
    (rest : String) : isMethodLine (known ++ rest) = false := by
  rw [isMethodLine, String.toList_append]
  exact not_prefix_of_clash h _

theorem isMethodLine_storedLine {f : Field} (name : IsNameText f.ident) :
    isMethodLine f.storedLine = false := by
  rw [← Bool.not_eq_true, isMethodLine, List.isPrefixOf_iff_prefix, Field.storedLine,
    String.toList_append]
  intro begins
  have field : (f.ident ++ (": " ++ (f.shape.storage ++ ","))).toList =
      f.ident.toList ++ ':' :: (" " ++ (f.shape.storage ++ ",")).toList := by
    simp
  -- the name itself can be `pub`, and the mark goes on with a blank there
  have rest : "pub fn ".toList <+: (f.ident ++ (": " ++ (f.shape.storage ++ ","))).toList :=
    (List.prefix_append_right_inj "    ".toList).1 begins
  rw [field] at rest
  exact not_prefix_of_stop "pub".toList "fn ".toList name (by decide) (by decide)
    (by decide) (by decide) rest

theorem isMethodLine_indent_indent (line : String) :
    isMethodLine (indent (indent line)) = false := by
  by_cases empty : line = ""
  · subst empty
    rfl
  · have visible : indent line ≠ "" := by simp [indent_eq empty]
    have deep : indent (indent line) = "        " ++ line := by
      rw [indent_eq visible, indent_eq empty, ← String.append_assoc]
      rfl
    rw [deep]
    exact isMethodLine_of_clash (by decide) line

theorem isMethodLine_head (m : Method) : isMethodLine m.head = true := by
  rw [isMethodLine, List.isPrefixOf_iff_prefix, Method.head, String.toList_append]
  exact List.prefix_append _ _

theorem methodName_head {m : Method} (name : IsNameText m.name) : methodName m.head = m.name := by
  have open_ : ∀ c ∈ m.name.toList, (c != '(') = true := fun c hc => by
    rw [bne_iff_ne]
    rintro rfl
    exact absurd (name _ hc) (by decide)
  have mark : methodMark.length = methodMark.toList.length := rfl
  have behind : ("(" ++ (m.parameters ++ (") -> " ++ (m.result ++ " \x7b")))).toList =
      '(' :: (m.parameters ++ (") -> " ++ (m.result ++ " \x7b"))).toList := by
    rw [String.toList_append]
    rfl
  rw [methodName, Method.head, String.toList_append, mark]
  change String.ofList
    ((List.drop methodMark.toList.length (methodMark.toList ++ _)).takeWhile _) = _
  rw [List.drop_left, String.toList_append, List.takeWhile_append_of_pos open_, behind]
  simp

def methodLine? (line : String) : Option String := Option.guard isMethodLine line

theorem methodLine?_eq_none {line : String} (h : isMethodLine line = false) :
    methodLine? line = none := by
  rw [methodLine?, Option.guard, h]
  rfl

theorem skipsFrame_methodLine : SkipsFrame methodLine? := by
  constructor
  · have all : ∀ line ∈ ["", "\x7d", "    \x7d", "        \x7d", "        Self \x7b",
        "    fn default() -> Self \x7b", "#[derive(Debug, Clone, PartialEq)]"],
        isMethodLine line = false := by decide
    exact fun line hl => methodLine?_eq_none (all line hl)
  · have all : ∀ known ∈ ["/// ", "pub struct ", "impl Default for ", "impl ",
        "    pub const SECRET_PROPERTIES: &'static [&'static str] = &["],
        clash methodMark.toList known.toList = true := by decide
    exact fun known hk rest => methodLine?_eq_none (isMethodLine_of_clash (all known hk) rest)

theorem filter_isMethodLine {c : Class} (names : ∀ f ∈ c.fields, IsNameText f.ident) :
    c.lines.filter isMethodLine = c.methods.map Method.head := by
  have stored : (c.fields.filterMap fun f => methodLine? f.storedLine) = [] :=
    List.filterMap_eq_nil_iff.2 fun f hf =>
      methodLine?_eq_none (isMethodLine_storedLine (names f hf))
  have defaults : (c.fields.filterMap fun f => methodLine? f.defaultLine) = [] :=
    List.filterMap_eq_nil_iff.2 fun f _ => methodLine?_eq_none (isMethodLine_of_clash (by decide) _)
  have head : ∀ m : Method, (m.lines.map indent).filterMap methodLine? = [m.head] := fun m => by
    rw [filterMap_method (fun text => methodLine?_eq_none (isMethodLine_of_clash (by decide) text))
      (by decide) fun line _ => methodLine?_eq_none (isMethodLine_indent_indent line), methodLine?,
      Option.guard, isMethodLine_head]
    rfl
  rw [← List.filterMap_eq_filter]
  change c.lines.filterMap methodLine? = _
  rw [filterMap_class skipsFrame_methodLine, stored, defaults, List.nil_append, List.nil_append,
    List.map_eq_flatMap]
  exact List.flatMap_congr fun m _ => head m

variable {t : Tool}

theorem methodNames_ofProperties (name : String) (help : Option String) (properties : List Property)
    (kind : ClassKind) :
    (Class.ofProperties t name help properties kind).methodLines.map methodName =
      properties.flatMap (propertyMethods t) ++ kind.methodNames := by
  have readable : ∀ m ∈ (Class.ofProperties t name help properties kind).methods,
      methodName m.head = m.name := fun m hm => by
    refine methodName_head ((isMade_ofProperties t name help properties kind ⟨.method, m.name⟩
      ?_).isNameText)
    exact List.mem_cons_of_mem _ (List.mem_append_right _ (List.mem_cons_of_mem _
      (List.mem_map.2 ⟨m, hm, rfl⟩)))
  have fields :
      (Class.ofProperties t name help properties kind).fields.flatMap Field.methodNames =
        properties.flatMap (propertyMethods t) := by
    change (properties.map (Field.ofProperty t)).flatMap _ = _
    rw [List.flatMap_map]
    exact List.flatMap_congr fun p _ => methodNames_ofProperty t p
  rw [Class.methodLines, textLines_ofProperties,
    filter_isMethodLine fun _ hf => isNameText_of_mem_fields hf, List.map_map,
    List.map_congr_left (g := (·.name)) readable, Class.names_methods, fields]
  rfl

/-- The methods of every class of a wrapper, read off its text: those of its properties in their
order and, in the class of a task, the one that lists arguments. -/
theorem methodLines_ofTool (t : Tool) :
    (Source.ofTool t).classes.map (fun c => c.methodLines.map methodName) =
      t.dataClasses.map (fun d => d.properties.flatMap (propertyMethods t)) ++
        t.tasks.map fun task =>
          task.settings.properties.flatMap (propertyMethods t) ++ ["arguments"] := by
  have data : (fun c : Class => c.methodLines.map methodName) ∘ Class.ofDataClass t =
      fun d => d.properties.flatMap (propertyMethods t) := funext fun d => by
    rw [Function.comp_apply, Class.ofDataClass, methodNames_ofProperties, ClassKind.methodNames,
      List.append_nil]
  have settings : (fun c : Class => c.methodLines.map methodName) ∘ Class.ofTask t =
      fun task => task.settings.properties.flatMap (propertyMethods t) ++ ["arguments"] :=
    funext fun task => by
      rw [Function.comp_apply, Class.ofTask, methodNames_ofProperties, ClassKind.methodNames]
  rw [classes_ofTool, List.map_append, List.map_map, List.map_map, data, settings]

example : propertyMethods { name := "demo" } { name := "Tags", type := "List<string>" } =
    ["tags", "set_tags", "add_tags", "clear_tags"] := by decide

/-- A property that only can be read and would hide a method of the class. -/
example : propertyMethods { name := "demo" }
    { name := "Arguments", type := "int", settable := false } = ["arguments_value"] := by decide

end Toolwright.Wrapper
