import Toolwright.Description.Reference
import Toolwright.Files.Path
import Toolwright.Json.Basic

/-!
Descriptions of command-line tools. A `Tool` owns its tasks, data classes and enumerations; each
task owns a settings class, and both kinds of class own properties. What a tool owns can carry the
tool's name, and a settings class the index of its task: both are absent until the description is
wired.
-/

namespace Toolwright

structure Property where
  name : String
  type : String
  /-- False for members that can only be looked at. -/
  settable : Bool := true
  default : Json.FreeValue := .null
  format : Option String := none
  help : Option String := none
  secret : Bool := false
  deriving BEq, Inhabited

structure SettingsClass where
  name : Option String := none
  help : Option String := none
  properties : List Property := []
  tool : Option String := none
  task : Option Nat := none
  deriving BEq, Inhabited

structure Task where
  postfixText : Option String := none
  help : Option String := none
  definitiveArgument : Option String := none
  settings : SettingsClass
  tool : Option String := none
  deriving BEq, Inhabited

structure DataClass where
  name : String
  help : Option String := none
  properties : List Property := []
  tool : Option String := none
  deriving BEq, Inhabited

structure Enumeration where
  name : String
  help : Option String := none
  values : List String := []
  tool : Option String := none
  deriving BEq, Inhabited

/-- One command-line tool. The last three fields are derived from where it was loaded. -/
structure Tool where
  name : String
  help : Option String := none
  officialUrl : Option String := none
  packageId : Option String := none
  packageExecutable : Option String := none
  environmentExecutable : Option String := none
  references : List Reference := []
  tasks : List Task := []
  dataClasses : List DataClass := []
  enumerations : List Enumeration := []
  /-- The file that holds the description. -/
  definitionFile : Path := ⟨""⟩
  /-- What the paths of all files made for the tool begin with. -/
  generationBase : Path := ⟨""⟩
  /-- Where the description can be looked up. -/
  repositoryUrl : String := ""
  deriving BEq, Inhabited

/-- A text that may be absent, absent and empty being the same. -/
def textOrEmpty (text : Option String) : String := text.getD ""

def Task.postfixOrEmpty (t : Task) : String := textOrEmpty t.postfixText

namespace Tool

/-- What messages call the description: the name of its file, or the tool's name. -/
def definitionFileName (t : Tool) : String := t.definitionFile.fileName?.getD t.name

def outputPath (t : Tool) (suffix : String) : Path := t.generationBase.extend suffix

def threeDigits (n : Nat) : String :=
  let text := toString n
  String.ofList (List.replicate (3 - text.length) '0') ++ text

def referencePath (t : Tool) (index : Nat) : Path :=
  t.outputPath (".ref." ++ threeDigits index ++ ".txt")

def task? (t : Tool) (index : Nat) : Option Task := t.tasks[index]?

def enumeration? (t : Tool) (name : String) : Option Enumeration :=
  t.enumerations.find? (·.name == name)

def dataClass? (t : Tool) (name : String) : Option DataClass :=
  t.dataClasses.find? (·.name == name)

end Tool

/-- The declared name, or one made of the tool's name and the postfix of the class's own task. -/
def SettingsClass.effectiveName (settings : SettingsClass) (tool : Tool) : String :=
  match settings.name with
  | some name => if name.isEmpty then derived else name
  | none => derived
where
  derived : String :=
    let task := settings.task.bind tool.task?
    tool.name ++ textOrEmpty (task.map Task.postfixOrEmpty) ++ "Settings"

end Toolwright
