import Toolwright.Text.Lines
import Toolwright.Text.Part
import Toolwright.Wrapper.Default

/-!
What a wrapper consists of: a header, enumerations, classes and task functions. A class has fields
and, for each of them, a getter and the methods that change it; a settings class also lists
command-line arguments, one push for every property with a format whose values can be written.
`Source.ofTool` reads all of it off a tool.
-/

namespace Toolwright.Wrapper

inductive Guard where
  /-- Once, when the switch is on; the value is not written. -/
  | flag
  /-- Once, when there is a value. -/
  | valued
  /-- Once for every item. -/
  | eachItem
  /-- Once for every entry, with its key. -/
  | eachEntry
  deriving DecidableEq, Repr

structure Push where
  guard : Guard
  field : String
  format : String
  deriving DecidableEq, Repr

structure Field where
  /-- Identifier of the stored field. -/
  ident : String
  getter : String
  /-- What the names of the other methods end with. -/
  snake : String
  doc : List String
  shape : TypeShape
  default : Expression
  settable : Bool
  push? : Option Push

inductive ClassKind where
  | data
  /-- Settings of a task, with the argument that always comes first. -/
  | settings (definitiveArgument : Option String)

structure Class where
  name : String
  doc : List String
  fields : List Field
  /-- Names of the properties to keep out of logs. -/
  secrets : List String
  kind : ClassKind

structure EnumerationItem where
  name : String
  doc : List String
  variants : List Variant

structure TaskFunction where
  name : String
  doc : List String
  /-- The settings type that the function configures. -/
  settings : String

structure Constant where
  name : String
  value : String

structure Header where
  repositoryUrl : String
  doc : List String
  toolName : String
  constants : List Constant
  /-- Whether any property is stored as a map. -/
  hasMaps : Bool

inductive Item where
  | enumeration (e : EnumerationItem)
  | cls (c : Class)
  | task (t : TaskFunction)

structure Source where
  header : Header
  items : List Item

/-- Lines of a help text, without white space at their ends. -/
def docLines (help : Option String) : List String :=
  match help with
  | none => []
  | some text => (Text.lines text.toList).map fun line => String.ofList (Text.trimEnd line)

def nonEmpty? (text : Option String) : Option String := text.filter fun t => !t.isEmpty

/-- Names that no getter takes, though only a settings class has a method `arguments`. -/
def reservedMethods : List String := ["default", "arguments", "clone"]

def getterName (snake : String) : String :=
  if reservedMethods.contains snake then snake ++ "_value" else plainIdent snake

def takesValue (format : String) : Bool :=
  Text.occursIn ['\x7b', 'v', 'a', 'l', 'u', 'e', '\x7d'] format.toList

def TypeShape.guard (shape : TypeShape) (format : String) : Guard :=
  match shape with
  | .scalar _ => .valued
  | .bool => if takesValue format then .valued else .flag
  | .list _ => .eachItem
  | .map _ => .eachEntry

def Field.ofProperty (tool : Tool) (p : Property) : Field :=
  let snake := snakeCase p.name
  let ident := plainIdent snake
  let shape := typeShape tool p.type
  let secretDoc := if p.secret then ["Secret value; keep it out of logs."] else []
  { ident
    getter := getterName snake
    snake
    doc := docLines p.help ++ secretDoc
    shape
    default := defaultExpression tool shape p.default.tree
    settable := p.settable
    push? := do
      let format ← nonEmpty? p.format
      if shape.isArgument then some ⟨shape.guard format, ident, format⟩ else none }

def Class.ofProperties (tool : Tool) (name : String) (help : Option String)
    (properties : List Property) (kind : ClassKind) : Class where
  name := pascalCase name
  doc := docLines help
  fields := properties.map (Field.ofProperty tool)
  secrets := (properties.filter (·.secret)).map (·.name)
  kind

def EnumerationItem.ofEnumeration (e : Enumeration) : EnumerationItem :=
  ⟨pascalCase e.name, docLines e.help, Wrapper.variants e⟩

/-- The settings class of a task and the function that runs the task. -/
def taskItems (tool : Tool) (task : Task) : List Item :=
  let settings := task.settings.effectiveName tool
  [ .cls (Class.ofProperties tool settings task.settings.help task.settings.properties
      (.settings (nonEmpty? task.definitiveArgument))),
    .task ⟨snakeCase (tool.name ++ task.postfixOrEmpty), docLines task.help, settings⟩]

def isMap : TypeShape → Bool
  | .map _ => true
  | _ => false

/-- All properties of a tool, those of its tasks first. -/
def allProperties (tool : Tool) : List Property :=
  tool.tasks.flatMap (·.settings.properties) ++ tool.dataClasses.flatMap (·.properties)

def constantOf? (name : String) (value : Option String) : Option Constant :=
  (nonEmpty? value).map fun text => ⟨name, text⟩

def Header.ofTool (tool : Tool) : Header where
  repositoryUrl := tool.repositoryUrl
  doc := docLines tool.help ++
    ((nonEmpty? tool.officialUrl).map fun url => "Official documentation: " ++ url).toList
  toolName := tool.name
  constants := [
    constantOf? "OFFICIAL_URL" tool.officialUrl,
    constantOf? "PACKAGE_ID" tool.packageId,
    constantOf? "PACKAGE_EXECUTABLE" tool.packageExecutable,
    constantOf? "ENVIRONMENT_EXECUTABLE" tool.environmentExecutable].filterMap id
  hasMaps := (allProperties tool).any fun p => isMap (typeShape tool p.type)

def Source.ofTool (tool : Tool) : Source where
  header := Header.ofTool tool
  items :=
    tool.enumerations.map (fun e => .enumeration (EnumerationItem.ofEnumeration e)) ++
    tool.dataClasses.map (fun d =>
      .cls (Class.ofProperties tool d.name d.help d.properties .data)) ++
    tool.tasks.flatMap (taskItems tool)

end Toolwright.Wrapper
