import Toolwright.Proofs.Loading.Wiring
import Toolwright.Proofs.Wrapper.Identifier

/-!
Names of the items of a wrapper. The types are called after the enumerations, the data classes and
the settings classes, in Pascal case and in that order; the functions after the tool with the
postfix of a task, in snake case. Nothing else keeps them apart: types are distinct exactly when the
Pascal-case names are, and functions exactly when the snake-case names are and none of them is that
of the function in the header.
-/

namespace Toolwright

def Tool.typeTexts (t : Tool) : List String :=
  t.enumerations.map (·.name) ++ t.dataClasses.map (·.name) ++ t.tasks.map t.settingsName

def Tool.functionTexts (t : Tool) : List String :=
  t.tasks.map fun task => t.name ++ task.postfixOrEmpty

namespace Wrapper

section Declared

variable (t : Tool)

theorem declared_ofTool (kind : DeclarationKind) :
    declared kind (Source.ofTool t).lines =
      (if kind = .function then ["push_formatted"] else []) ++
        (t.enumerations.flatMap (fun e =>
            namesOf kind (EnumerationItem.ofEnumeration e).declared) ++
          t.dataClasses.flatMap (fun d =>
            namesOf kind (Class.ofProperties t d.name d.help d.properties .data).declared) ++
          t.tasks.flatMap (fun task =>
            (taskItems t task).flatMap fun item => namesOf kind item.declared)) := by
  rw [declared, declarations_ofTool, Source.declared, namesOf_cons]
  simp only [Source.ofTool, List.flatMap_append, namesOf_append, namesOf_flatMap, List.flatMap_map,
    List.flatMap_assoc]
  cases kind <;> rfl

theorem namesOf_type_taskItems (task : Task) :
    ((taskItems t task).flatMap fun item => namesOf .type item.declared) =
      [pascalCase (task.settings.effectiveName t)] := by
  rw [taskItems, List.flatMap_cons, Item.declared, Class.namesOf_type]
  rfl

theorem namesOf_function_taskItems (task : Task) :
    ((taskItems t task).flatMap fun item => namesOf .function item.declared) =
      [snakeCase (t.name ++ task.postfixOrEmpty)] := by
  rw [taskItems, List.flatMap_cons, Item.declared, Class.namesOf_function]
  rfl

theorem declared_type :
    declared .type (Source.ofTool t).lines =
      (t.enumerations.map (·.name) ++ t.dataClasses.map (·.name) ++
        t.tasks.map (·.settings.effectiveName t)).map pascalCase := by
  rw [declared_ofTool, if_neg (by decide), List.nil_append]
  simp only [Class.namesOf_type, EnumerationItem.namesOf_type, namesOf_type_taskItems,
    ← List.map_eq_flatMap, List.map_append, List.map_map]
  rfl

theorem declared_function :
    declared .function (Source.ofTool t).lines =
      "push_formatted" :: t.functionTexts.map snakeCase := by
  rw [declared_ofTool, if_pos rfl, Tool.functionTexts, List.map_map]
  simp only [Class.namesOf_function, EnumerationItem.namesOf_function, namesOf_function_taskItems,
    ← List.map_eq_flatMap, List.flatMap_eq_nil_iff.2 fun _ _ => rfl]
  rfl

end Declared

structure ItemsApart (t : Tool) : Prop where
  types : (t.typeTexts.map pascalCase).Nodup
  functions : (t.functionTexts.map snakeCase).Nodup
  /-- No function is called like the one in the header. -/
  header : "push_formatted" ∉ t.functionTexts.map snakeCase

/-- Types and functions of the wrapper of a loaded tool, and when each of them has a name of its
own. -/
theorem nodup_items_iff {options : LoadOptions} {t t₁ : Files.Tree} {file : Path} {tool : Tool}
    (loaded : Loading.load options t file = (.ok tool, t₁)) :
    declared .type (Source.ofTool tool).lines = tool.typeTexts.map pascalCase ∧
      declared .function (Source.ofTool tool).lines =
        "push_formatted" :: tool.functionTexts.map snakeCase ∧
      ((declared .type (Source.ofTool tool).lines).Nodup ∧
        (declared .function (Source.ofTool tool).lines).Nodup ↔ ItemsApart tool) := by
  have settings : tool.tasks.map (·.settings.effectiveName tool) =
      tool.tasks.map tool.settingsName :=
    List.map_congr_left fun _ ht => Loading.effectiveName_of_load loaded ht
  have types : declared .type (Source.ofTool tool).lines = tool.typeTexts.map pascalCase := by
    rw [declared_type, settings, Tool.typeTexts]
  refine ⟨types, declared_function tool, ?_⟩
  rw [types, declared_function, List.nodup_cons]
  constructor
  · rintro ⟨types, header, functions⟩
    exact ⟨types, functions, header⟩
  · rintro ⟨types, functions, header⟩
    exact ⟨types, header, functions⟩

def likeNamedText : String :=
  "[\"Push\",null,null,null,null,null,[],[[\"Formatted\",null,null,[null,null,[]]]],[]," ++
    "[[\"no-net\",null,[]],[\"no_net\",null,[]]]]"

def likeNamedTool : Tool where
  name := "Push"
  tasks := [{ postfixText := some "Formatted", settings := {} }]
  enumerations := [{ name := "no-net" }, { name := "no_net" }]

def likeNamedLoaded : Tool := Loading.soleTool likeNamedTool

def likeNamedLines : List String := (Source.ofTool likeNamedLoaded).lines

set_option maxRecDepth 4000 in
theorem load_likeNamed :
    Loading.load Loading.soleOptions (Loading.soleTree likeNamedText) Loading.soleFile =
      (.ok likeNamedLoaded, Loading.soleTree likeNamedText) :=
  Loading.load_sole (by rfl) (by rfl)

theorem nodup_items_iff_likeNamed :
    Loading.load Loading.soleOptions (Loading.soleTree likeNamedText) Loading.soleFile =
        (.ok likeNamedLoaded, Loading.soleTree likeNamedText) ∧
      declared .type likeNamedLines =
        ["no-net", "no_net", "PushFormattedSettings"].map pascalCase ∧
      declared .function likeNamedLines = "push_formatted" :: ["PushFormatted"].map snakeCase ∧
      ((declared .type likeNamedLines).Nodup ∧ (declared .function likeNamedLines).Nodup ↔
        ItemsApart likeNamedLoaded) :=
  ⟨load_likeNamed, nodup_items_iff load_likeNamed⟩

/-- The description is accepted; two types of its wrapper have one name, and so have its two
functions. -/
theorem load_meetingItems :
    Loading.load Loading.soleOptions (Loading.soleTree likeNamedText) Loading.soleFile =
        (.ok likeNamedLoaded, Loading.soleTree likeNamedText) ∧
      declared .type likeNamedLines = ["NoNet", "NoNet", "PushFormattedSettings"] ∧
      ¬ (declared .type likeNamedLines).Nodup ∧
      declared .function likeNamedLines = ["push_formatted", "push_formatted"] ∧
      ¬ (declared .function likeNamedLines).Nodup := by
  have types : declared .type likeNamedLines = ["NoNet", "NoNet", "PushFormattedSettings"] := by
    rw [likeNamedLines, declared_type]
    decide +kernel
  have functions : declared .function likeNamedLines = ["push_formatted", "push_formatted"] := by
    rw [likeNamedLines, declared_function]
    decide +kernel
  rw [types, functions]
  exact ⟨load_likeNamed, rfl, by decide, rfl, by decide⟩

end Wrapper

end Toolwright
