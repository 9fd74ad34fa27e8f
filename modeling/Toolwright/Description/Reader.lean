import Toolwright.Description.Basic
import Toolwright.Json.Record

/-!
Reading descriptions from JSON. Every kind of entity has a `Form`: its members in their fixed
order, the ones that may be absent with what they stand for then. A description that is just read
has no derived fields and carries no back references.
-/

namespace Toolwright

open Json

/-- A member that is kept in a field of the partial record. -/
def memberOf {ρ α : Type} (key : String) (required : Bool) (get : ρ → Option α)
    (set : α → ρ → ρ) (reader : Nat → Reader α) : Member ρ where
  key
  required
  filled record := (get record).isSome
  read depth record s := do
    let (a, rest) ← reader depth s
    .ok (set a record, rest)

def optionalText (_ : Nat) : Reader (Option String) := Reader.optional Reader.string

namespace Property

structure Draft where
  name : Option String := none
  type : Option String := none
  settable : Option Bool := none
  default : Option FreeValue := none
  format : Option (Option String) := none
  help : Option (Option String) := none
  secret : Option Bool := none

def form : Form Draft Property where
  title := "struct Property"
  blank := {}
  members := [
    memberOf "Name" true Draft.name (fun a r => { r with name := some a }) fun _ => Reader.string,
    memberOf "Type" true Draft.type (fun a r => { r with type := some a }) fun _ => Reader.string,
    memberOf "Settable" false Draft.settable (fun a r => { r with settable := some a })
      fun _ => Reader.bool,
    memberOf "Default" false Draft.default (fun a r => { r with default := some a }) Reader.value,
    memberOf "Format" false Draft.format (fun a r => { r with format := some a }) optionalText,
    memberOf "Help" false Draft.help (fun a r => { r with help := some a }) optionalText,
    memberOf "Secret" false Draft.secret (fun a r => { r with secret := some a })
      fun _ => Reader.bool]
  complete r := do
    some {
      name := ← r.name
      type := ← r.type
      settable := r.settable.getD true
      default := r.default.getD .null
      format := r.format.join
      help := r.help.join
      secret := r.secret.getD false }

def read : Nat → Reader Property := Reader.record form

end Property

namespace SettingsClass

structure Draft where
  name : Option (Option String) := none
  help : Option (Option String) := none
  properties : Option (List Property) := none

def form : Form Draft SettingsClass where
  title := "struct SettingsClass"
  blank := {}
  members := [
    memberOf "Name" false Draft.name (fun a r => { r with name := some a }) optionalText,
    memberOf "Help" false Draft.help (fun a r => { r with help := some a }) optionalText,
    memberOf "Properties" false Draft.properties (fun a r => { r with properties := some a })
      (Reader.list Property.read)]
  complete r :=
    some { name := r.name.join, help := r.help.join, properties := r.properties.getD [] }

def read : Nat → Reader SettingsClass := Reader.record form

end SettingsClass

namespace Task

structure Draft where
  postfixText : Option (Option String) := none
  help : Option (Option String) := none
  definitiveArgument : Option (Option String) := none
  settings : Option SettingsClass := none

def form : Form Draft Task where
  title := "struct Task"
  blank := {}
  members := [
    memberOf "Postfix" false Draft.postfixText (fun a r => { r with postfixText := some a })
      optionalText,
    memberOf "Help" false Draft.help (fun a r => { r with help := some a }) optionalText,
    memberOf "DefinitiveArgument" false Draft.definitiveArgument
      (fun a r => { r with definitiveArgument := some a }) optionalText,
    memberOf "SettingsClass" true Draft.settings (fun a r => { r with settings := some a })
      SettingsClass.read]
  complete r := do
    some {
      postfixText := r.postfixText.join
      help := r.help.join
      definitiveArgument := r.definitiveArgument.join
      settings := ← r.settings }

def read : Nat → Reader Task := Reader.record form

end Task

namespace DataClass

structure Draft where
  name : Option String := none
  help : Option (Option String) := none
  properties : Option (List Property) := none

def form : Form Draft DataClass where
  title := "struct DataClass"
  blank := {}
  members := [
    memberOf "Name" true Draft.name (fun a r => { r with name := some a }) fun _ => Reader.string,
    memberOf "Help" false Draft.help (fun a r => { r with help := some a }) optionalText,
    memberOf "Properties" false Draft.properties (fun a r => { r with properties := some a })
      (Reader.list Property.read)]
  complete r := do
    some { name := ← r.name, help := r.help.join, properties := r.properties.getD [] }

def read : Nat → Reader DataClass := Reader.record form

end DataClass

namespace Enumeration

structure Draft where
  name : Option String := none
  help : Option (Option String) := none
  values : Option (List String) := none

def form : Form Draft Enumeration where
  title := "struct Enumeration"
  blank := {}
  members := [
    memberOf "Name" true Draft.name (fun a r => { r with name := some a }) fun _ => Reader.string,
    memberOf "Help" false Draft.help (fun a r => { r with help := some a }) optionalText,
    memberOf "Values" false Draft.values (fun a r => { r with values := some a })
      (Reader.list fun _ => Reader.string)]
  complete r := do
    some { name := ← r.name, help := r.help.join, values := r.values.getD [] }

def read : Nat → Reader Enumeration := Reader.record form

end Enumeration

def Reference.read (_ : Nat) : Reader Reference := fun s => do
  let (text, rest) ← Reader.string s
  .ok (⟨text⟩, rest)

namespace Tool

structure Draft where
  name : Option String := none
  help : Option (Option String) := none
  officialUrl : Option (Option String) := none
  packageId : Option (Option String) := none
  packageExecutable : Option (Option String) := none
  environmentExecutable : Option (Option String) := none
  references : Option (List Reference) := none
  tasks : Option (List Task) := none
  dataClasses : Option (List DataClass) := none
  enumerations : Option (List Enumeration) := none

def form : Form Draft Tool where
  title := "struct Tool"
  blank := {}
  members := [
    memberOf "Name" true Draft.name (fun a r => { r with name := some a }) fun _ => Reader.string,
    memberOf "Help" false Draft.help (fun a r => { r with help := some a }) optionalText,
    memberOf "OfficialUrl" false Draft.officialUrl (fun a r => { r with officialUrl := some a })
      optionalText,
    memberOf "PackageId" false Draft.packageId (fun a r => { r with packageId := some a })
      optionalText,
    memberOf "PackageExecutable" false Draft.packageExecutable
      (fun a r => { r with packageExecutable := some a }) optionalText,
    memberOf "EnvironmentExecutable" false Draft.environmentExecutable
      (fun a r => { r with environmentExecutable := some a }) optionalText,
    memberOf "References" false Draft.references (fun a r => { r with references := some a })
      (Reader.list Reference.read),
    memberOf "Tasks" false Draft.tasks (fun a r => { r with tasks := some a })
      (Reader.list Task.read),
    memberOf "DataClasses" false Draft.dataClasses (fun a r => { r with dataClasses := some a })
      (Reader.list DataClass.read),
    memberOf "Enumerations" false Draft.enumerations (fun a r => { r with enumerations := some a })
      (Reader.list Enumeration.read)]
  complete r := do
    some {
      name := ← r.name
      help := r.help.join
      officialUrl := r.officialUrl.join
      packageId := r.packageId.join
      packageExecutable := r.packageExecutable.join
      environmentExecutable := r.environmentExecutable.join
      references := r.references.getD []
      tasks := r.tasks.getD []
      dataClasses := r.dataClasses.getD []
      enumerations := r.enumerations.getD [] }

def read : Nat → Reader Tool := Reader.record form

def parse (text : String) : Except Json.Error Tool :=
  Reader.readAll (read Reader.nestingLimit) text.toList

end Tool

end Toolwright
