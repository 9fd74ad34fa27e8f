import Toolwright.Wrapper.Item

/-!
What types and defaults see of a tool. The shape of a type and the expression of a default depend
on the vocabulary of the tool only: the names and the values of its enumerations. Tools with one
vocabulary have the same fields for a property.
-/

namespace Toolwright

def Tool.vocabulary (t : Tool) : List (String × List String) :=
  t.enumerations.map fun e => (e.name, e.values)

theorem SettingsClass.derived_congr {c c' : SettingsClass} {t t' : Tool} (task : c'.task = c.task)
    (name : t'.name = t.name)
    (postfixes : t'.tasks.map Task.postfixOrEmpty = t.tasks.map Task.postfixOrEmpty) :
    effectiveName.derived c' t' = effectiveName.derived c t := by
  have bound : ∀ t : Tool, (c.task.bind t.task?).map Task.postfixOrEmpty =
      c.task.bind fun i => (t.tasks.map Task.postfixOrEmpty)[i]? := by
    intro t
    cases c.task with
    | none => rfl
    | some i => exact (List.getElem?_map ..).symm
  simp only [effectiveName.derived, task, name, bound, postfixes]

namespace Wrapper

variable {t t' : Tool}

theorem isSome_enumeration? (t : Tool) (name : String) :
    (t.enumeration? name).isSome = t.vocabulary.any (·.1 == name) := by
  rw [Tool.enumeration?, Tool.vocabulary, List.any_map, List.isSome_find?]
  rfl

theorem elementOf_congr (h : t'.vocabulary = t.vocabulary) : elementOf t' = elementOf t := by
  funext declared
  simp only [elementOf, isSome_enumeration?, h]

theorem typeShape_congr (h : t'.vocabulary = t.vocabulary) : typeShape t' = typeShape t := by
  funext declared
  simp only [typeShape, typeShapeOf, elementOf_congr h]

theorem variantAtom?_eq (t : Tool) (type value : String) :
    variantAtom? t type value =
      (t.vocabulary.find? fun e => pascalCase e.1 == type).bind fun e =>
        ((variantsFrom [] e.2).find? fun v => v.value == value).map fun v =>
          .variant type v.ident := by
  simp only [variantAtom?, Tool.vocabulary, List.find?_map, Function.comp_def, variants]
  cases t.enumerations.find? fun e => pascalCase e.name == type with
  | none => rfl
  | some e => exact Option.map_eq_bind.symm

theorem atom?_congr (h : t'.vocabulary = t.vocabulary) : atom? t' = atom? t := by
  funext type value
  cases value <;> simp only [atom?, variantAtom?_eq, h]

theorem keyedAtom?_congr (h : t'.vocabulary = t.vocabulary) : keyedAtom? t' = keyedAtom? t := by
  funext type member
  simp only [keyedAtom?, atom?_congr h]

theorem defaultExpression_congr (h : t'.vocabulary = t.vocabulary) :
    defaultExpression t' = defaultExpression t := by
  funext shape value
  simp only [defaultExpression]
  unfold expression?
  simp only [atom?_congr h, keyedAtom?_congr h]

theorem ofProperty_congr (h : t'.vocabulary = t.vocabulary) :
    Field.ofProperty t' = Field.ofProperty t := by
  funext p
  simp only [Field.ofProperty, typeShape_congr h, defaultExpression_congr h]

end Wrapper

end Toolwright
