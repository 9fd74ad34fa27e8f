import Toolwright.Description.Basic
import Toolwright.Json.Writer

/-!
The canonical form of descriptions. `toJson` lays an entity out as a JSON tree: members in their
fixed order, those that are zero left out, properties that are not settable left out as well, and
no member for what is derived. The canonical text is that tree, indented, with a line feed behind.
-/

namespace Toolwright

open Json

def Json.optionalMember (key : String) (value : Json) : List (String × Json) :=
  if value.isZero then [] else [(key, value)]

def Json.ofText? (text : Option String) : Json :=
  match text with
  | none => .null
  | some text => .string text

def Property.toJson (p : Property) : Json :=
  .object (
    [("Name", .string p.name), ("Type", .string p.type)] ++
    optionalMember "Default" p.default.tree ++
    optionalMember "Format" (ofText? p.format) ++
    optionalMember "Help" (ofText? p.help) ++
    optionalMember "Secret" (.bool p.secret))

/-- Whether the property belongs to the canonical form. -/
def Property.isEmitted (p : Property) : Bool := p.settable

def propertiesJson (properties : List Property) : Json :=
  .array ((properties.filter (·.isEmitted)).map Property.toJson)

def SettingsClass.toJson (c : SettingsClass) : Json :=
  .object (
    optionalMember "Name" (ofText? c.name) ++
    optionalMember "Help" (ofText? c.help) ++
    optionalMember "Properties" (propertiesJson c.properties))

def Task.toJson (t : Task) : Json :=
  .object (
    optionalMember "Postfix" (ofText? t.postfixText) ++
    optionalMember "Help" (ofText? t.help) ++
    optionalMember "DefinitiveArgument" (ofText? t.definitiveArgument) ++
    [("SettingsClass", t.settings.toJson)])

def DataClass.toJson (d : DataClass) : Json :=
  .object (
    [("Name", .string d.name)] ++
    optionalMember "Help" (ofText? d.help) ++
    optionalMember "Properties" (propertiesJson d.properties))

def Enumeration.toJson (e : Enumeration) : Json :=
  .object (
    [("Name", .string e.name)] ++
    optionalMember "Help" (ofText? e.help) ++
    optionalMember "Values" (.array (e.values.map .string)))

def Reference.toJson (r : Reference) : Json := .string r.text

def Tool.toJson (t : Tool) : Json :=
  .object (
    [("Name", .string t.name)] ++
    optionalMember "Help" (ofText? t.help) ++
    optionalMember "OfficialUrl" (ofText? t.officialUrl) ++
    optionalMember "PackageId" (ofText? t.packageId) ++
    optionalMember "PackageExecutable" (ofText? t.packageExecutable) ++
    optionalMember "EnvironmentExecutable" (ofText? t.environmentExecutable) ++
    optionalMember "References" (.array (t.references.map Reference.toJson)) ++
    optionalMember "Tasks" (.array (t.tasks.map Task.toJson)) ++
    optionalMember "DataClasses" (.array (t.dataClasses.map DataClass.toJson)) ++
    optionalMember "Enumerations" (.array (t.enumerations.map Enumeration.toJson)))

/-- The canonical text of a description, its last line ended. -/
def Tool.canonicalText (t : Tool) : String := String.ofList (t.toJson.pretty 0 ++ ['\n'])

end Toolwright
