import Toolwright.Proofs.Loading.Reload

/-!
What wiring gives. In a loaded tool the settings class of a task knows the index of the task, so a
class without a name of its own is called after the tool and the postfix of that very task.
-/

namespace Toolwright

/-- The name of a task's settings class: the declared one or, if there is none or it is empty, one
made of the name of the tool and the postfix of the task. -/
def Tool.settingsName (t : Tool) (task : Task) : String :=
  (task.settings.name.filter fun name => !name.isEmpty).getD
    (t.name ++ task.postfixOrEmpty ++ "Settings")

namespace SettingsClass

theorem effectiveName_of_task {t : Tool} {task : Task} {index : Nat}
    (own : task.settings.task = some index) (there : t.task? index = some task) :
    task.settings.effectiveName t = t.settingsName task := by
  have derived : effectiveName.derived task.settings t =
      t.name ++ task.postfixOrEmpty ++ "Settings" := by
    simp [effectiveName.derived, own, there, textOrEmpty]
  unfold effectiveName Tool.settingsName
  cases task.settings.name with
  | none => exact derived
  | some name =>
    cases empty : name.isEmpty with
    | true => simp [Option.filter, String.isEmpty_iff.1 empty, derived]
    | false => simp [Option.filter, String.isEmpty_eq_false_iff.1 empty]

end SettingsClass

namespace Tool

theorem task_of_mem_wired {t : Tool} {task : Task} (h : task ∈ t.wired.tasks) :
    ∃ index, task.settings.task = some index ∧ t.wired.task? index = some task := by
  obtain ⟨index, bound, rfl⟩ := List.exists_of_mem_mapIdx h
  exact ⟨index, rfl, by simp [task?, wired, bound]⟩

end Tool

namespace Loading

theorem effectiveName_of_load {options : LoadOptions} {t t₁ : Files.Tree} {file : Path}
    {tool : Tool}
    (loaded : load options t file = (.ok tool, t₁)) {task : Task} (h : task ∈ tool.tasks) :
    task.settings.effectiveName tool = tool.settingsName task := by
  obtain ⟨_, _, _, rfl⟩ := load_eq_ok.1 loaded
  obtain ⟨index, own, there⟩ := Tool.task_of_mem_wired h
  exact SettingsClass.effectiveName_of_task own there

def soleFile : Path := ⟨"demo.json"⟩

def soleTree (text : String) : Files.Tree := ⟨[], [(["demo.json"], .file text.toUTF8)]⟩

def soleOptions : LoadOptions := ⟨⟨"out"⟩, "https://example.test", false⟩

def soleTool (parsed : Tool) : Tool := (parsed.placed soleOptions soleFile).wired

theorem load_sole {text : String} {parsed : Tool} (parse : Tool.parse text = .ok parsed)
    (sound : parsed.defect? = none) :
    load soleOptions (soleTree text) soleFile = (.ok (soleTool parsed), soleTree text) := by
  have there : (soleTree text).readText soleFile = .ok text :=
    Files.Tree.readText_eq_ok.2 ⟨["demo.json"], by rfl⟩
  exact load_eq_ok.2 ⟨parsed, readValid_eq_ok.2 ⟨text, there, parse, sound⟩, rfl, rfl⟩

end Loading

end Toolwright
