import Toolwright.Proofs.Description.Normal
import Toolwright.Proofs.Wrapper.Vocabulary
import Toolwright.Rendering

/-!
Read-only properties show. Every property has a line of its own in the wrapper, the declaration of
its field, so the wrapper of a tool without its read-only properties has fewer lines than that of
the tool whenever there are any. Lines are counted by the line feeds of the text, which blocks and
sections of the text add up.
-/

namespace Toolwright

open Wrapper

def Wrapper.feeds : List String → Nat
  | [] => 0
  | line :: rest => line.toList.count '\n' + 1 + feeds rest

namespace Wrapper

theorem count_unlines (lines : List String) : (unlines lines).toList.count '\n' = feeds lines := by
  rw [unlines, String.toList_join]
  induction lines with
  | nil => rfl
  | cons line rest ih =>
    simp only [List.map_cons, List.flatMap_cons, List.count_append, ih, String.toList_append]
    rfl

@[simp] theorem feeds_nil : feeds [] = 0 := rfl

@[simp] theorem feeds_cons (line : String) (rest : List String) :
    feeds (line :: rest) = line.toList.count '\n' + 1 + feeds rest := rfl

@[simp] theorem feeds_append (xs ys : List String) : feeds (xs ++ ys) = feeds xs + feeds ys := by
  induction xs with
  | nil => simp
  | cons line rest ih =>
    rw [List.cons_append, feeds_cons, feeds_cons, ih]
    omega

theorem feeds_flatMap_le {α : Type} {f g : α → List String} {xs : List α}
    (h : ∀ x ∈ xs, feeds (f x) ≤ feeds (g x)) : feeds (xs.flatMap f) ≤ feeds (xs.flatMap g) := by
  induction xs with
  | nil => simp
  | cons x xs ih =>
    rw [List.forall_mem_cons] at h
    have rest := ih h.2
    simp only [List.flatMap_cons, feeds_append]
    omega

theorem feeds_flatMap_lt {α : Type} {f g : α → List String} {xs : List α}
    (h : ∀ x ∈ xs, feeds (f x) ≤ feeds (g x)) (less : ∃ x ∈ xs, feeds (f x) < feeds (g x)) :
    feeds (xs.flatMap f) < feeds (xs.flatMap g) := by
  induction xs with
  | nil => obtain ⟨x, hx, _⟩ := less; cases hx
  | cons x xs ih =>
    rw [List.forall_mem_cons] at h
    have rest := feeds_flatMap_le h.2
    simp only [List.flatMap_cons, feeds_append]
    obtain ⟨y, hy, lt⟩ := less
    rcases List.mem_cons.1 hy with rfl | hy
    · omega
    · have strict := ih h.2 ⟨y, hy, lt⟩
      omega

theorem feeds_flatMap_sublist {α : Type} {f : α → List String} {xs ys : List α}
    (h : xs.Sublist ys) : feeds (xs.flatMap f) ≤ feeds (ys.flatMap f) := by
  induction h with
  | slnil => exact Nat.le_refl _
  | cons y _ ih => simp only [List.flatMap_cons, feeds_append]; omega
  | cons_cons y _ ih => simp only [List.flatMap_cons, feeds_append]; omega

theorem feeds_sublist {xs ys : List String} (h : xs.Sublist ys) :
    feeds xs + ys.length ≤ feeds ys + xs.length := by
  induction h with
  | slnil => exact Nat.le_refl _
  | cons y _ ih => simp only [feeds_cons, List.length_cons]; omega
  | cons_cons y _ ih => simp only [feeds_cons, List.length_cons]; omega

@[simp] theorem feeds_map_indent (lines : List String) :
    feeds (lines.map indent) = feeds lines := by
  induction lines with
  | nil => rfl
  | cons line rest ih =>
    have same : (indent line).toList.count '\n' = line.toList.count '\n' := by
      unfold indent
      split
      · rfl
      · simp
    simp [same, ih]

@[simp] theorem feeds_block (head : String) (body : List String) :
    feeds (block head body) = head.toList.count '\n' + 2 + feeds body := by
  simp [block, blockThen]
  omega

theorem count_literalList_le {xs ys : List String} (h : xs.Sublist ys) :
    (literalList xs).toList.count '\n' ≤ (literalList ys).toList.count '\n' := by
  simp only [literalList, String.toList_join, List.flatMap_map]
  induction h with
  | slnil => exact Nat.le_refl _
  | cons y _ ih =>
    simp only [List.flatMap_cons, List.count_append]
    omega
  | cons_cons y _ ih =>
    simp only [List.flatMap_cons, List.count_append]
    omega

/-- Methods of a class and the empty lines in front of them. -/
def methodLines (methods : List Method) : List String := methods.flatMap fun m => "" :: m.lines

theorem feeds_argumentsMethod_le (definitive : Option String) {xs ys : List Push}
    (h : xs.Sublist ys) :
    feeds (argumentsMethod definitive xs).lines ≤ feeds (argumentsMethod definitive ys).lines := by
  have pushes := feeds_flatMap_sublist (f := Push.lines) h
  simp only [argumentsMethod, Method.lines, feeds_append, feeds_block]
  omega

theorem feeds_methods_le {c c' : Class} (kind : c'.kind = c.kind)
    (fields : c'.fields.Sublist c.fields) :
    feeds (methodLines c'.methods) ≤ feeds (methodLines c.methods) := by
  have own : feeds (methodLines (c'.fields.flatMap Field.methods)) ≤
      feeds (methodLines (c.fields.flatMap Field.methods)) := by
    simp only [methodLines, List.flatMap_assoc]
    exact feeds_flatMap_sublist fields
  simp only [methodLines, Class.methods, List.flatMap_append, feeds_append, kind] at own ⊢
  cases c.kind with
  | data =>
    simp only [List.flatMap_nil, feeds_nil]
    omega
  | settings definitive =>
    have last := feeds_argumentsMethod_le definitive (fields.filterMap (·.push?))
    simp only [List.flatMap_cons, List.flatMap_nil, feeds_append, feeds_cons, feeds_nil]
    omega

theorem feeds_class_le {c c' : Class} (name : c'.name = c.name) (doc : c'.doc = c.doc)
    (kind : c'.kind = c.kind) (secrets : c'.secrets.Sublist c.secrets)
    (fields : c'.fields.Sublist c.fields) :
    feeds c'.lines + c.fields.length ≤ feeds c.lines + c'.fields.length := by
  have declared := feeds_sublist (fields.map fun f => f.ident ++ ": " ++ f.shape.storage ++ ",")
  have initial := feeds_sublist (fields.map fun f => f.ident ++ ": " ++ f.default.source ++ ",")
  have hidden := count_literalList_le secrets
  have methods := feeds_methods_le kind fields
  simp only [List.length_map] at declared initial
  simp only [methodLines] at methods
  simp only [Class.lines, feeds_append, feeds_block, feeds_cons, feeds_nil, name, doc,
    String.toList_append, List.count_append]
  have fewer := fields.length_le
  omega

variable (t : Tool)

theorem vocabulary_settableOnly : t.settableOnly.vocabulary = t.vocabulary := rfl

theorem feeds_settable_le (name : String) (help : Option String) (properties : List Property)
    (kind : ClassKind) :
    feeds (Class.ofProperties t.settableOnly name help
      (properties.filter (·.settable)) kind).lines +
        properties.length ≤
      feeds (Class.ofProperties t name help properties kind).lines +
        (properties.filter (·.settable)).length := by
  have sublist : (properties.filter (·.settable)).Sublist properties := List.filter_sublist
  have fields := sublist.map (Field.ofProperty t)
  have secrets := (sublist.filter (·.secret)).map (·.name)
  let whole := Class.ofProperties t name help properties kind
  let rest := Class.ofProperties t.settableOnly name help (properties.filter (·.settable)) kind
  have fewer : rest.fields.Sublist whole.fields := by
    simp only [rest, whole, Class.ofProperties, ofProperty_congr (vocabulary_settableOnly t)]
    exact fields
  have le : feeds rest.lines + whole.fields.length ≤ feeds whole.lines + rest.fields.length :=
    feeds_class_le rfl rfl rfl secrets fewer
  simpa [rest, whole, Class.ofProperties] using le

def dataLines (t : Tool) (d : DataClass) : List String :=
  "" :: (Class.ofProperties t d.name d.help d.properties .data).lines

def taskLines (t : Tool) (task : Task) : List String :=
  (taskItems t task).flatMap fun item => "" :: item.lines

def enumerationLines (e : Enumeration) : List String :=
  "" :: (EnumerationItem.ofEnumeration e).lines

theorem lines_ofTool :
    (Source.ofTool t).lines = (Header.ofTool t).lines ++ (t.enumerations.flatMap enumerationLines ++
      t.dataClasses.flatMap (dataLines t) ++ t.tasks.flatMap (taskLines t)) := by
  simp only [Source.lines, Source.ofTool, List.flatMap_append, List.flatMap_map, List.flatMap_assoc]
  rfl

theorem feeds_dataLines_le (d : DataClass) :
    feeds (dataLines t.settableOnly d.settableOnly) + d.properties.length ≤
      feeds (dataLines t d) + (d.properties.filter (·.settable)).length := by
  have le := feeds_settable_le t d.name d.help d.properties .data
  simp only [dataLines, feeds_cons, DataClass.settableOnly]
  omega

theorem effectiveName_settableOnly (c : SettingsClass) :
    c.settableOnly.effectiveName t.settableOnly = c.effectiveName t := by
  have postfixes : t.settableOnly.tasks.map Task.postfixOrEmpty =
      t.tasks.map Task.postfixOrEmpty := by
    simp only [Tool.settableOnly, List.map_map]
    rfl
  have derived : SettingsClass.effectiveName.derived c.settableOnly t.settableOnly =
      SettingsClass.effectiveName.derived c t := SettingsClass.derived_congr rfl rfl postfixes
  simp only [SettingsClass.effectiveName, derived]
  rfl

theorem feeds_taskLines_le (task : Task) :
    feeds (taskLines t.settableOnly task.settableOnly) + task.settings.properties.length ≤
      feeds (taskLines t task) + (task.settings.properties.filter (·.settable)).length := by
  have name : task.settableOnly.settings.effectiveName t.settableOnly =
      task.settings.effectiveName t :=
    effectiveName_settableOnly t task.settings
  have le := feeds_settable_le t (task.settings.effectiveName t) task.settings.help
    task.settings.properties (.settings (nonEmpty? task.definitiveArgument))
  have fn : ∀ settings, Item.lines (.task ⟨snakeCase (t.settableOnly.name ++
      task.settableOnly.postfixOrEmpty), docLines task.settableOnly.help, settings⟩) =
        Item.lines (.task
          ⟨snakeCase (t.name ++ task.postfixOrEmpty), docLines task.help, settings⟩) :=
    fun _ => rfl
  simp only [taskLines, taskItems, name, List.flatMap_cons, List.flatMap_nil, feeds_append,
    feeds_cons, fn]
  simp only [Item.lines, Task.settableOnly, SettingsClass.settableOnly]
  omega

theorem allProperties_settableOnly :
    allProperties t.settableOnly = (allProperties t).filter (·.settable) := by
  simp only [allProperties, Tool.settableOnly, Task.settableOnly, SettingsClass.settableOnly,
    DataClass.settableOnly, List.flatMap_map, List.filter_append, List.filter_flatMap]

theorem feeds_header_le :
    feeds (Header.ofTool t.settableOnly).lines ≤ feeds (Header.ofTool t).lines := by
  have maps : (Header.ofTool t.settableOnly).hasMaps = true → (Header.ofTool t).hasMaps = true := by
    simp only [Header.ofTool, List.any_eq_true, allProperties_settableOnly, List.mem_filter,
      typeShape_congr (vocabulary_settableOnly t)]
    rintro ⟨p, ⟨hp, _⟩, map⟩
    exact ⟨p, hp, map⟩
  have same : Header.ofTool t.settableOnly =
      { Header.ofTool t with hasMaps := (Header.ofTool t.settableOnly).hasMaps } := rfl
  generalize (Header.ofTool t.settableOnly).hasMaps = few at maps same
  rw [same]
  simp only [Header.lines, Header.preamble, feeds_append]
  cases few with
  | false =>
    simp only [Bool.false_eq_true, if_false, feeds_nil]
    omega
  | true =>
    have all := maps rfl
    exact Nat.le_of_eq (by rw [all])

/-- Fewer line feeds stand in the wrapper without read-only properties. -/
theorem feeds_source_lt (h : ∃ p ∈ allProperties t, p.settable = false) :
    feeds (Source.ofTool t.settableOnly).lines < feeds (Source.ofTool t).lines := by
  have header := feeds_header_le t
  have data : ∀ d ∈ t.dataClasses, feeds (dataLines t.settableOnly d.settableOnly) ≤
      feeds (dataLines t d) := fun d _ => by
    have le := feeds_dataLines_le t d
    have fewer := List.length_filter_le (·.settable) d.properties
    omega
  have tasks : ∀ task ∈ t.tasks, feeds (taskLines t.settableOnly task.settableOnly) ≤
      feeds (taskLines t task) := fun task _ => by
    have le := feeds_taskLines_le t task
    have fewer := List.length_filter_le (·.settable) task.settings.properties
    omega
  have dataLe := feeds_flatMap_le data
  have tasksLe := feeds_flatMap_le tasks
  have parts : t.settableOnly.enumerations = t.enumerations ∧
      t.settableOnly.dataClasses = t.dataClasses.map DataClass.settableOnly ∧
      t.settableOnly.tasks = t.tasks.map Task.settableOnly := ⟨rfl, rfl, rfl⟩
  simp only [lines_ofTool, parts.1, parts.2.1, parts.2.2, List.flatMap_map, feeds_append]
  obtain ⟨p, hp, readOnly⟩ := h
  have dropped : ∀ properties : List Property, p ∈ properties →
      (properties.filter (·.settable)).length < properties.length := fun properties hp =>
    List.length_filter_lt_length_iff_exists.2 ⟨p, hp, by simp [readOnly]⟩
  rcases List.mem_append.1 hp with hp | hp
  · obtain ⟨task, ht, hp⟩ := List.mem_flatMap.1 hp
    have le := feeds_taskLines_le t task
    have fewer := dropped _ hp
    have lt := feeds_flatMap_lt tasks ⟨task, ht, by omega⟩
    omega
  · obtain ⟨d, hd, hp⟩ := List.mem_flatMap.1 hp
    have le := feeds_dataLines_le t d
    have fewer := dropped _ hp
    have lt := feeds_flatMap_lt data ⟨d, hd, by omega⟩
    omega

theorem settableOnly_eq_self (h : ∀ p ∈ allProperties t, p.settable = true) :
    t.settableOnly = t := by
  have tasks : t.tasks.map Task.settableOnly = t.tasks := map_eq_self.2 fun task ht => by
    have all : task.settings.properties.filter (·.settable) = task.settings.properties :=
      List.filter_eq_self.2 fun p hp =>
        h p (List.mem_append_left _ (List.mem_flatMap.2 ⟨task, ht, hp⟩))
    rw [Task.settableOnly, SettingsClass.settableOnly, all]
  have data : t.dataClasses.map DataClass.settableOnly = t.dataClasses :=
    map_eq_self.2 fun d hd => by
      have all : d.properties.filter (·.settable) = d.properties :=
        List.filter_eq_self.2 fun p hp =>
          h p (List.mem_append_right _ (List.mem_flatMap.2 ⟨d, hd, hp⟩))
      rw [DataClass.settableOnly, all]
  rw [Tool.settableOnly, tasks, data]

theorem render_settableOnly (m n : Nat) :
    Renderer.wrapper.render m t.settableOnly = Renderer.wrapper.render n t ↔
      ∀ p ∈ allProperties t, p.settable = true := by
  constructor
  · intro same p hp
    cases settable : p.settable with
    | true => rfl
    | false =>
      have fewer := feeds_source_lt t ⟨p, hp, settable⟩
      have text : (Source.ofTool t.settableOnly).text = (Source.ofTool t).text := same
      simp only [Source.text] at text
      have counts := congrArg (fun text => text.toList.count '\n') text
      simp only [count_unlines] at counts
      omega
  · intro all
    rw [settableOnly_eq_self t all]
    rfl

end Wrapper

end Toolwright
