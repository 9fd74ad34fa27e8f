import Toolwright.Proofs.Wrapper.Statement
import Toolwright.Proofs.Wrapper.TypeShape

/-!
Arguments of a task. The settings class of a task pushes the argument that always comes first, if
there is one, and then one argument for every property, settable or not, that has a format and whose
values can be written: those of primitive types and of enumerations, alone, in a list or in a map.
Each is pushed with the literal of its own format, under the guard that its type asks for.
-/

namespace Toolwright.Wrapper

open Text (trim literalOf)

/-- Names of the types whose values can be written: primitive ones in any case of letters, and
enumerations. -/
def IsWritable (t : Tool) (name : List Char) : Prop :=
  lowerCase name ∈ primitiveNames ∨ ∃ e ∈ t.enumerations, e.name.toList = name

/-- How an argument of a declared type is guarded, if its values can be written. -/
inductive Guarded (t : Tool) (declared : List Char) (format : String) : Guard → Prop
  | flag (switch : lowerCase (trim declared) ∈ ["bool", "boolean"])
      (plain : ¬ "\x7bvalue\x7d".toList <:+: format.toList) : Guarded t declared format .flag
  | switch (switch : lowerCase (trim declared) ∈ ["bool", "boolean"])
      (placed : "\x7bvalue\x7d".toList <:+: format.toList) : Guarded t declared format .valued
  | single (single : SingleSpelled (trim declared))
      (other : lowerCase (trim declared) ∉ ["bool", "boolean"]) (h : IsWritable t (trim declared)) :
    Guarded t declared format .valued
  | list {element : List Char} (spelled : ListSpelled (trim declared) element)
      (h : IsWritable t (trim element)) : Guarded t declared format .eachItem
  | map {element : List Char} (spelled : MapSpelled (trim declared) element)
      (h : IsWritable t (trim element)) : Guarded t declared format .eachEntry

/-- The statement of a guard with the head of the block that it stands in, for a field and a
format. -/
def Guard.pushed (guard : Guard) (field format : String) : Pushed :=
  match guard with
  | .flag => ⟨["if self." ++ field ++ " == Some(true)"],
      "push_formatted(&mut args, " ++ literalOf format ++ ", \"\", \"true\");"⟩
  | .valued => ⟨["if let Some(value) = &self." ++ field],
      "push_formatted(&mut args, " ++ literalOf format ++ ", \"\", &value.to_string());"⟩
  | .eachItem => ⟨["for value in &self." ++ field],
      "push_formatted(&mut args, " ++ literalOf format ++ ", \"\", &value.to_string());"⟩
  | .eachEntry => ⟨["for (key, value) in &self." ++ field],
      "push_formatted(&mut args, " ++ literalOf format ++ ", key, &value.to_string());"⟩

/-- What a property contributes: something only with a format and a guard. -/
def Contributes (t : Tool) (p : Property) (out : Pushed) : Prop :=
  ∃ format guard, p.format = some format ∧ format ≠ "" ∧
    Guarded t p.type.toList format guard ∧
    out = guard.pushed (plainIdent (snakeCase p.name)) format

def definitiveStatements (task : Task) : List Pushed :=
  (nonEmpty? task.definitiveArgument).toList.map fun argument =>
    ⟨[], "push_formatted(&mut args, " ++ literalOf argument ++ ", \"\", \"\");"⟩

/-- What is related to the members of a list, in their order; members that nothing is related to are
left out. -/
inductive Selects {α β : Type} (R : α → β → Prop) : List α → List β → Prop
  | nil : Selects R [] []
  | taken {x : α} {y : β} {xs : List α} {ys : List β} (own : R x y) (others : Selects R xs ys) :
    Selects R (x :: xs) (y :: ys)
  | left {x : α} {xs : List α} {ys : List β} (none_ : ∀ y, ¬ R x y) (others : Selects R xs ys) :
    Selects R (x :: xs) ys

theorem selects_filterMap {α β : Type} {R : α → β → Prop} {f : α → Option β}
    (h : ∀ x y, f x = some y ↔ R x y) (xs : List α) : Selects R xs (xs.filterMap f) := by
  induction xs with
  | nil => exact .nil
  | cons x xs ih =>
    cases own : f x with
    | none =>
      rw [List.filterMap_cons_none own]
      exact .left (fun y related => by rw [(h x y).2 related] at own; cases own) ih
    | some y =>
      rw [List.filterMap_cons_some own]
      exact .taken ((h x y).1 own) ih

theorem takesValue_iff {format : String} :
    takesValue format = true ↔ "\x7bvalue\x7d".toList <:+: format.toList :=
  Text.occursIn_iff

theorem isSome_primitiveType? (lower : String) :
    (primitiveType? lower).isSome = true ↔ lower ∈ primitiveNames := by
  unfold primitiveType? primitiveNames
  constructor
  · intro h
    by_contra other
    simp only [List.mem_cons, List.not_mem_nil, or_false, not_or] at other
    simp [other] at h
  · intro h
    simp only [List.mem_cons, List.not_mem_nil, or_false] at h
    rcases h with rfl | rfl | rfl | rfl | rfl | rfl | rfl | rfl | rfl | rfl <;> rfl

theorem isSome_enumerationOf (t : Tool) (name : List Char) :
    (t.enumeration? (String.ofList name)).isSome = true ↔
      ∃ e ∈ t.enumerations, e.name.toList = name := by
  have same : ∀ e : Enumeration, e.name = String.ofList name ↔ e.name.toList = name := fun e => by
    rw [← String.toList_inj, String.toList_ofList]
  rw [Tool.enumeration?, List.find?_isSome]
  simp only [beq_iff_eq, same]

theorem primitive_elementOf {t : Tool} {declared : List Char} :
    (elementOf t declared).primitive = true ↔ IsWritable t (trim declared) := by
  rw [IsWritable, ← isSome_primitiveType?, ← isSome_enumerationOf, elementOf]
  cases primitiveType? (lowerCase (trim declared)) <;> simp

theorem guarded_iff {t : Tool} {declared : List Char} {format : String} {guard : Guard} :
    (typeShapeOf t declared).isArgument = true ∧ (typeShapeOf t declared).guard format = guard ↔
      Guarded t declared format guard := by
  have switch : lowerCase (trim declared) ∈ ["bool", "boolean"] → typeShapeOf t declared = .bool :=
    fun h => by
      have known : lowerCase (trim declared) ∈ primitiveNames := by
        have all : ∀ name ∈ ["bool", "boolean"], name ∈ primitiveNames := by decide
        exact all _ h
      rw [typeShapeOf_single t (singleSpelled_of_plain (plain_of_lowerCase known)), if_pos h]
  constructor
  · rintro ⟨argument, rfl⟩
    rcases spelled_cases (trim declared) with ⟨element, list⟩ | ⟨element, map⟩ | single
    · rw [typeShapeOf_list t list] at argument ⊢
      exact .list list (primitive_elementOf.1 argument)
    · rw [typeShapeOf_map t map] at argument ⊢
      exact .map map (primitive_elementOf.1 argument)
    · by_cases bool : lowerCase (trim declared) ∈ ["bool", "boolean"]
      · rw [switch bool, TypeShape.guard]
        by_cases placed : takesValue format = true
        · rw [if_pos placed]
          exact .switch bool (takesValue_iff.1 placed)
        · rw [if_neg placed]
          exact .flag bool (mt takesValue_iff.2 placed)
      · rw [typeShapeOf_single t single, if_neg bool] at argument ⊢
        exact .single single bool (primitive_elementOf.1 argument)
  · intro h
    cases h with
    | flag bool plain => rw [switch bool]; exact ⟨rfl, if_neg (mt takesValue_iff.1 plain)⟩
    | switch bool placed => rw [switch bool]; exact ⟨rfl, if_pos (takesValue_iff.2 placed)⟩
    | single single other h =>
      rw [typeShapeOf_single t single, if_neg other]
      exact ⟨primitive_elementOf.2 h, rfl⟩
    | list spelled h => rw [typeShapeOf_list t spelled]; exact ⟨primitive_elementOf.2 h, rfl⟩
    | map spelled h => rw [typeShapeOf_map t spelled]; exact ⟨primitive_elementOf.2 h, rfl⟩

theorem pushStatement_tail {key value tail : String}
    (h : ", " ++ (key ++ (", " ++ (value ++ ");"))) = tail) (format : String) :
    pushStatement format key value = "push_formatted(&mut args, " ++ literalOf format ++ tail := by
  unfold pushStatement
  rw [← h]
  simp only [String.append_assoc]

theorem pushed_eq (p : Push) :
    (⟨[p.head], p.statement⟩ : Pushed) = p.guard.pushed p.field p.format := by
  unfold Push.head Push.statement Guard.pushed
  cases p.guard <;> exact congrArg (Pushed.mk _) (pushStatement_tail (by rfl) p.format)

theorem nonEmpty?_eq_some {text : Option String} {s : String} :
    nonEmpty? text = some s ↔ text = some s ∧ s ≠ "" := by
  simp [nonEmpty?, Option.filter_eq_some_iff]

theorem push?_eq_some {t : Tool} {p : Property} {push : Push} :
    (Field.ofProperty t p).push? = some push ↔
      p.format = some push.format ∧ push.format ≠ "" ∧
        Guarded t p.type.toList push.format push.guard ∧
        push.field = plainIdent (snakeCase p.name) := by
  have push? : (Field.ofProperty t p).push? = (nonEmpty? p.format).bind fun format =>
      if (typeShape t p.type).isArgument then
        some ⟨(typeShape t p.type).guard format, plainIdent (snakeCase p.name), format⟩
      else none := by
    rw [Field.ofProperty]
    rfl
  rw [push?, ← guarded_iff, ← and_assoc, ← nonEmpty?_eq_some, Option.bind_eq_some_iff]
  constructor
  · rintro ⟨format, given, own⟩
    split at own
    · rename_i argument
      obtain rfl := Option.some.inj own
      exact ⟨given, ⟨argument, rfl⟩, rfl⟩
    · cases own
  · rintro ⟨given, ⟨argument, guard⟩, field⟩
    refine ⟨push.format, given, ?_⟩
    rw [typeShape, if_pos argument, guard, ← field]

theorem contributes_iff {t : Tool} {p : Property} {out : Pushed} :
    (Field.ofProperty t p).push?.map (fun push => (⟨[push.head], push.statement⟩ : Pushed)) =
      some out ↔
      Contributes t p out := by
  simp only [pushed_eq, Option.map_eq_some_iff, push?_eq_some]
  constructor
  · rintro ⟨push, ⟨format, some_, guarded, field⟩, rfl⟩
    exact ⟨push.format, push.guard, format, some_, guarded, by rw [field]⟩
  · rintro ⟨format, guard, given, some_, guarded, rfl⟩
    exact ⟨⟨guard, _, format⟩, ⟨given, some_, guarded, rfl⟩, rfl⟩

/-- The statements of the settings class of a task, each with the heads of the blocks that it stands
in. There is one for the argument that always comes first, if it is not empty, and then one for each
property that contributes one, in their order. -/
theorem statements_ofTask (t : Tool) (task : Task) :
    ∃ pushed, statements (Class.ofTask t task).textLines =
        (definitiveStatements task ++ pushed).map (Pushed.within
          ["pub fn arguments(&self) -> Vec<String>", "impl " ++ (Class.ofTask t task).name]) ∧
      Selects (Contributes t) task.settings.properties pushed := by
  refine ⟨_, ?_, selects_filterMap (fun _ _ => contributes_iff) _⟩
  have fields : ((Class.ofTask t task).fields.filterMap (·.push?)).map
      (fun push => (⟨[push.head], push.statement⟩ : Pushed)) =
        task.settings.properties.filterMap fun p => (Field.ofProperty t p).push?.map
          fun push => (⟨[push.head], push.statement⟩ : Pushed) := by
    change ((task.settings.properties.map (Field.ofProperty t)).filterMap _).map _ = _
    rw [List.filterMap_map, List.map_filterMap]
    rfl
  have first : ((nonEmpty? task.definitiveArgument).map fun argument =>
      (⟨[], pushStatement argument "\"\"" "\"\""⟩ : Pushed)).toList =
      definitiveStatements task := by
    unfold definitiveStatements
    cases nonEmpty? task.definitiveArgument with
    | none => rfl
    | some argument =>
      exact congrArg (fun text => [Pushed.mk [] text]) (pushStatement_tail (by rfl) argument)
  have written : statements (Class.ofTask t task).textLines =
      ((ClassKind.settings (nonEmpty? task.definitiveArgument)).statements
        ((Class.ofTask t task).fields.filterMap (·.push?))).map
          (Pushed.within ["impl " ++ (Class.ofTask t task).name]) := by
    rw [Class.ofTask, textLines_ofProperties,
      statements_class fun _ hf => isNameText_of_mem_fields hf]
    rfl
  rw [written, ClassKind.statements, argumentStatements, fields, first, List.map_map]
  refine List.map_congr_left fun p _ => ?_
  simp [Pushed.within]

/-- The classes of a wrapper are those of the data classes, which push nothing, and those of the
tasks, which push what their properties contribute. -/
theorem statements_ofTool (t : Tool) :
    ∃ data settings, (Source.ofTool t).classes = data ++ settings ∧
      List.Forall₂ (fun (_ : DataClass) (c : Class) => statements c.textLines = [])
        t.dataClasses data ∧
      List.Forall₂ (fun (task : Task) (c : Class) =>
        ∃ pushed, statements c.textLines = (definitiveStatements task ++ pushed).map (Pushed.within
            ["pub fn arguments(&self) -> Vec<String>", "impl " ++ c.name]) ∧
          Selects (Contributes t) task.settings.properties pushed) t.tasks settings := by
  refine ⟨_, _, classes_ofTool t, ?_, ?_⟩
  · refine List.forall₂_map_right_iff.2 (List.forall₂_same.2 fun d _ => ?_)
    rw [Class.ofDataClass, textLines_ofProperties,
      statements_class fun _ hf => isNameText_of_mem_fields hf]
    rfl
  · exact List.forall₂_map_right_iff.2 (List.forall₂_same.2 fun task _ => statements_ofTask t task)

end Toolwright.Wrapper
