import Toolwright.Description.Reader
import Toolwright.Failure
import Toolwright.Files.Tree
import Toolwright.Text.Blank

/-!
Loading a description: its text is read, checked for defects, given the paths of what will be made
for it, and wired. A tool that comes out of `load` is complete; nothing else wires one.
-/

namespace Toolwright

structure LoadOptions where
  /-- Below it, each tool has a directory of its name. -/
  outputRoot : Path
  /-- What the public address of a description begins with. -/
  provenanceBase : String
  createDirectories : Bool

namespace LoadOptions

def defaultProvenance : String := "https://github.com/toolgen/tools/blob/master"

def standard : LoadOptions := ⟨⟨"."⟩, defaultProvenance, true⟩

def below (outputRoot : Path) : LoadOptions := { standard with outputRoot := outputRoot }

end LoadOptions

/-- The first member of a list that occurred before, given what was seen. -/
def repeatedAfter? (seen : List String) : List String → Option String
  | [] => none
  | x :: rest => if seen.contains x then some x else repeatedAfter? (x :: seen) rest

def repeated? (xs : List String) : Option String := repeatedAfter? [] xs

def repeatedProperty? (owner : String) (properties : List Property) : Option Defect :=
  (repeated? (properties.map (·.name))).map fun name => .repeatedProperty name owner

namespace Tool

def nameDefect? (t : Tool) : Option Defect :=
  let name := Text.trimmed t.name
  if name.isEmpty then some .blankName
  else if name = "." ∨ name = ".." ∨ t.name.toList.any (fun c => c == '/' || c == '\\') then
    some (.unusableName t.name)
  else none

def taskDefect? (t : Tool) (task : Task) : Option Defect :=
  repeatedProperty? (task.settings.name.getD (t.name ++ " task")) task.settings.properties

def dataDefect? (d : DataClass) : Option Defect := repeatedProperty? d.name d.properties

def enumerationDefect? (e : Enumeration) : Option Defect :=
  (repeated? e.values).map fun value => .repeatedValue value e.name

/-- The first defect, in the order of name, tasks, data classes and enumerations. -/
def defect? (t : Tool) : Option Defect :=
  t.nameDefect?.or <| (t.tasks.findSome? t.taskDefect?).or <|
    (t.dataClasses.findSome? dataDefect?).or (t.enumerations.findSome? enumerationDefect?)

def directory (t : Tool) (options : LoadOptions) : Path := options.outputRoot.join ⟨t.name⟩

def withoutSlashes (base : String) : String :=
  String.ofList (Text.dropEnd (· == '/') base.toList)

def placed (t : Tool) (options : LoadOptions) (file : Path) : Tool :=
  { t with
    definitionFile := file
    generationBase := (t.directory options).join ⟨file.fileStem?.getD ""⟩
    repositoryUrl :=
      withoutSlashes options.provenanceBase ++ "/" ++ file.fileName?.getD "" }

/-- Give a task and its settings class the name of the tool, and the class the task's index. -/
def wiredTask (name : String) (index : Nat) (task : Task) : Task :=
  { task with
    tool := some name
    settings := { task.settings with tool := some name, task := some index } }

def wired (t : Tool) : Tool :=
  { t with
    tasks := t.tasks.mapIdx (wiredTask t.name)
    dataClasses := t.dataClasses.map fun d => { d with tool := some t.name }
    enumerations := t.enumerations.map fun e => { e with tool := some t.name } }

end Tool

namespace Loading

def readValid (t : Files.Tree) (file : Path) : Except Failure Tool :=
  match t.readText file with
  | .error fault => .error (.load file (.fault fault))
  | .ok text =>
    match Tool.parse text with
    | .error e => .error (.load file (.json e))
    | .ok tool =>
      match tool.defect? with
      | some d => .error (.load file (.defect d))
      | none => .ok tool

/-- Make the directory of a tool, if that is asked for. -/
def makeDirectory (options : LoadOptions) (t : Files.Tree) (directory : Path) :
    Except Files.Fault Unit × Files.Tree :=
  if options.createDirectories then t.createDirectories directory else (.ok (), t)

/-- Load a description. A directory that was made before a failure stays. -/
def load (options : LoadOptions) (t : Files.Tree) (file : Path) :
    Except Failure Tool × Files.Tree :=
  match readValid t file with
  | .error failure => (.error failure, t)
  | .ok tool =>
    let directory := tool.directory options
    match makeDirectory options t directory with
    | (.error fault, t) => (.error (.load file (.cannotCreate directory fault)), t)
    | (.ok (), t) => (.ok (tool.placed options file).wired, t)

end Loading

end Toolwright
