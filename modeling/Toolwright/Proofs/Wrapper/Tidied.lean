import Toolwright.Proofs.Description.Normal
import Toolwright.Proofs.Wrapper.Vocabulary
import Toolwright.Rendering

/-!
What says nothing is not rendered. The wrapper of a tool does not change when its empty texts are
made absent and its zero defaults null: every part of the wrapper takes both for the same.
-/

namespace Toolwright

open Json Wrapper

theorem textOrEmpty_keptText (text : Option String) :
    textOrEmpty (keptText text) = textOrEmpty text := apply_keptText rfl text

theorem Json.FreeValue.isZero_tidied (v : FreeValue) : v.tidied.tree.isZero = v.tree.isZero := by
  unfold FreeValue.tidied
  split
  · rename_i zero
    exact zero.symm
  · rfl

theorem SettingsClass.effectiveName_tidied (c : SettingsClass) (t : Tool) :
    c.tidied.effectiveName t.tidied = c.effectiveName t := by
  have postfixes : t.tidied.tasks.map Task.postfixOrEmpty = t.tasks.map Task.postfixOrEmpty := by
    simp only [Tool.tidied, List.map_map]
    exact List.map_congr_left fun task _ => textOrEmpty_keptText task.postfixText
  have derived : effectiveName.derived c.tidied t.tidied = effectiveName.derived c t :=
    derived_congr rfl rfl postfixes
  have named : c.tidied.effectiveName t.tidied =
      effectiveName { c with name := keptText c.name } t := by
    unfold effectiveName
    rw [derived]
    rfl
  rw [named]
  exact apply_keptText (f := fun name => effectiveName { c with name := name } t) rfl c.name

namespace Wrapper

theorem docLines_keptText (help : Option String) : docLines (keptText help) = docLines help :=
  apply_keptText rfl help

theorem nonEmpty?_keptText (text : Option String) : nonEmpty? (keptText text) = nonEmpty? text :=
  apply_keptText (by simp [nonEmpty?]) text

variable (t : Tool)

theorem vocabulary_tidied : t.tidied.vocabulary = t.vocabulary := by
  simp only [Tool.vocabulary, Tool.tidied, List.map_map]
  rfl

theorem defaultExpression_tidied (shape : TypeShape) (v : FreeValue) :
    defaultExpression t shape v.tidied.tree = defaultExpression t shape v.tree := by
  unfold defaultExpression
  rw [FreeValue.isZero_tidied]
  split
  · rfl
  · rename_i present
    rw [FreeValue.tidied, if_neg present]

theorem ofProperty_tidied (p : Property) :
    Field.ofProperty t.tidied p.tidied = Field.ofProperty t p := by
  rw [ofProperty_congr (vocabulary_tidied t)]
  unfold Field.ofProperty
  simp only [Property.tidied, defaultExpression_tidied, docLines_keptText, nonEmpty?_keptText]
  rfl

theorem ofProperties_tidied (name : String) (help : Option String) (properties : List Property)
    (kind : ClassKind) :
    Class.ofProperties t.tidied name (keptText help) (properties.map Property.tidied) kind =
      Class.ofProperties t name help properties kind := by
  have fields : Field.ofProperty t.tidied ∘ Property.tidied = Field.ofProperty t :=
    funext (ofProperty_tidied t)
  have secret : (fun p : Property => p.secret) ∘ Property.tidied = (·.secret) := rfl
  have name : (fun p : Property => p.name) ∘ Property.tidied = (·.name) := rfl
  simp only [Class.ofProperties, docLines_keptText, List.filter_map, List.map_map, fields, secret,
    name]

theorem taskItems_tidied (task : Task) : taskItems t.tidied task.tidied = taskItems t task := by
  have settings : task.tidied.settings.effectiveName t.tidied = task.settings.effectiveName t :=
    task.settings.effectiveName_tidied t
  have postfixText : task.tidied.postfixOrEmpty = task.postfixOrEmpty :=
    textOrEmpty_keptText task.postfixText
  have cls : ∀ name kind, Class.ofProperties t.tidied name task.tidied.settings.help
      task.tidied.settings.properties kind =
        Class.ofProperties t name task.settings.help task.settings.properties kind :=
    fun name kind => ofProperties_tidied t name _ _ kind
  have definitive : nonEmpty? task.tidied.definitiveArgument = nonEmpty? task.definitiveArgument :=
    nonEmpty?_keptText _
  have doc : docLines task.tidied.help = docLines task.help := docLines_keptText _
  unfold taskItems
  simp only [settings, postfixText, cls, definitive, doc]
  rfl

theorem allProperties_tidied : allProperties t.tidied = (allProperties t).map Property.tidied := by
  simp only [allProperties, Tool.tidied, Task.tidied, SettingsClass.tidied, DataClass.tidied,
    List.flatMap_map, List.map_append, List.map_flatMap]

theorem header_tidied : Header.ofTool t.tidied = Header.ofTool t := by
  unfold Header.ofTool
  have maps : (fun p : Property => isMap (typeShape t.tidied p.type)) ∘ Property.tidied =
      fun p => isMap (typeShape t p.type) := by
    funext p
    rw [typeShape_congr (vocabulary_tidied t)]
    rfl
  rw [allProperties_tidied, List.any_map, maps]
  simp only [Tool.tidied, docLines_keptText, nonEmpty?_keptText, constantOf?]

theorem source_tidied : Source.ofTool t.tidied = Source.ofTool t := by
  have tasks : taskItems t.tidied ∘ Task.tidied = taskItems t := funext (taskItems_tidied t)
  have data : (fun d : DataClass => Item.cls (Class.ofProperties t.tidied d.name d.help d.properties
      .data)) ∘ DataClass.tidied =
        fun d => Item.cls (Class.ofProperties t d.name d.help d.properties .data) := by
    funext d
    exact congrArg Item.cls (ofProperties_tidied t d.name d.help d.properties .data)
  have enums : (fun e : Enumeration => Item.enumeration (EnumerationItem.ofEnumeration e)) ∘
      Enumeration.tidied = fun e => Item.enumeration (EnumerationItem.ofEnumeration e) := by
    funext e
    have doc : docLines e.tidied.help = docLines e.help := docLines_keptText e.help
    simp only [Function.comp_apply, EnumerationItem.ofEnumeration, doc]
    rfl
  have parts : t.tidied.tasks = t.tasks.map Task.tidied ∧
      t.tidied.dataClasses = t.dataClasses.map DataClass.tidied ∧
      t.tidied.enumerations = t.enumerations.map Enumeration.tidied := ⟨rfl, rfl, rfl⟩
  unfold Source.ofTool
  rw [header_tidied, parts.1, parts.2.1, parts.2.2, List.map_map, List.map_map, List.flatMap_map,
    data, enums]
  exact congrArg _ (congrArg _ (congrArg (t.tasks.flatMap ·) tasks))

theorem render_tidied (m n : Nat) :
    Renderer.wrapper.render m t.tidied = Renderer.wrapper.render n t := by
  simp only [Renderer.wrapper, source_tidied]

end Wrapper

end Toolwright
