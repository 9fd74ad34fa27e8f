import Toolwright.Proofs.Loading.Wiring
import Toolwright.Proofs.Wrapper.Identifier

/-!
The settings type of a task. The wrapper has a class and a function for every task. The class is
called by the Pascal-case form of the name of the settings, and the function says that name as it
is. So the function refers to the class exactly when the name is in Pascal case already.
-/

namespace Toolwright.Wrapper

theorem mem_items_of_mem_taskItems {t : Tool} {task : Task} (h : task ∈ t.tasks) :
    ∀ item ∈ taskItems t task, item ∈ (Source.ofTool t).items := fun _ hi =>
  List.mem_append_right _ (List.mem_flatMap.2 ⟨task, h, hi⟩)

/-- The signature and the body of a function, with the settings type in three places. -/
def signature (name settings : String) : List String := [
  "pub fn " ++ name ++ "(configure: impl FnOnce(" ++ settings ++ ") -> " ++ settings ++
    ") -> Vec<String> \x7b",
  "    configure(" ++ settings ++ "::default()).arguments()",
  "\x7d"]

theorem lines_taskFunction (f : TaskFunction) :
    f.lines = docComment f.doc ++ signature f.name f.settings := by
  have head : ") -> Vec<String>" ++ " \x7b" = ") -> Vec<String> \x7b" := rfl
  have body : "    configure(" = "    " ++ "configure(" := rfl
  rw [TaskFunction.lines, signature, block, blockThen, List.map_singleton, indent,
    if_neg (by simp), body, ← head]
  simp only [String.append_assoc, String.append_empty, List.singleton_append]

/-- The class of a task of a loaded tool is called by the Pascal-case form of the settings' name,
and the function of the task says the name itself; they are the same exactly when that name is a
capital letter with letters and digits behind it. -/
theorem settingsType_iff {options : LoadOptions} {t t₁ : Files.Tree} {file : Path} {tool : Tool}
    (loaded : Loading.load options t file = (.ok tool, t₁)) {task : Task} (h : task ∈ tool.tasks) :
    ∃ c f, taskItems tool task = [.cls c, .task f] ∧
      (∀ item ∈ taskItems tool task, item ∈ (Source.ofTool tool).items) ∧
      declared .type c.lines = [pascalCase (tool.settingsName task)] ∧
      f.lines = docComment f.doc ++ signature f.name (tool.settingsName task) ∧
      (declared .type c.lines = [tool.settingsName task] ↔
        isPascal (tool.settingsName task).toList = true) := by
  have name := Loading.effectiveName_of_load loaded h
  have type : declared .type (Class.ofProperties tool (task.settings.effectiveName tool)
      task.settings.help task.settings.properties
      (.settings (nonEmpty? task.definitiveArgument))).lines =
        [pascalCase (tool.settingsName task)] := by
    rw [declared_ofProperties, Class.namesOf_type, ← name]
    rfl
  refine ⟨_, _, rfl, mem_items_of_mem_taskItems h, type, ?_, ?_⟩
  · rw [lines_taskFunction, name]
  · rw [type, List.singleton_inj, pascalCase_eq_self]

def smallText : String :=
  "[\"git\",null,null,null,null,null,[],[[null,null,null,[null,null,[]]]]]"

def smallTool : Tool where
  name := "git"
  tasks := [{ settings := {} }]

def smallLoaded : Tool := Loading.soleTool smallTool

def smallTask : Task where
  settings := { tool := some "git", task := some 0 }
  tool := some "git"

set_option maxRecDepth 4000 in
theorem load_small :
    Loading.load Loading.soleOptions (Loading.soleTree smallText) Loading.soleFile =
      (.ok smallLoaded, Loading.soleTree smallText) :=
  Loading.load_sole (by rfl) (by rfl)

theorem settingsType_iff_small :
    Loading.load Loading.soleOptions (Loading.soleTree smallText) Loading.soleFile =
        (.ok smallLoaded, Loading.soleTree smallText) ∧
      smallTask ∈ smallLoaded.tasks ∧
      ∃ c f, taskItems smallLoaded smallTask = [.cls c, .task f] ∧
        (∀ item ∈ taskItems smallLoaded smallTask, item ∈ (Source.ofTool smallLoaded).items) ∧
        declared .type c.lines = [pascalCase "gitSettings"] ∧
        f.lines = docComment f.doc ++ signature f.name "gitSettings" ∧
        (declared .type c.lines = ["gitSettings"] ↔ isPascal "gitSettings".toList = true) :=
  have among : smallTask ∈ smallLoaded.tasks := List.mem_singleton_self _
  ⟨load_small, among, settingsType_iff load_small among⟩

/-- The description is accepted; the function of its task refers to a type that is not there. -/
theorem load_missingSettings :
    Loading.load Loading.soleOptions (Loading.soleTree smallText) Loading.soleFile =
        (.ok smallLoaded, Loading.soleTree smallText) ∧
      declared .type (Source.ofTool smallLoaded).lines = ["GitSettings"] ∧
      ∃ f, Item.task f ∈ (Source.ofTool smallLoaded).items ∧ f.lines = [
        "pub fn git(configure: impl FnOnce(gitSettings) -> gitSettings) -> Vec<String> \x7b",
        "    configure(gitSettings::default()).arguments()",
        "\x7d"] := by
  refine ⟨load_small, ?_, ⟨"git", [], "gitSettings"⟩, ?_, ?_⟩
  · rw [declared, declarations_ofTool]
    decide +kernel
  · exact List.mem_cons_of_mem _ List.mem_cons_self
  · rw [lines_taskFunction]
    rfl

end Toolwright.Wrapper
