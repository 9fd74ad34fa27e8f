import Toolwright.Description.Basic
import Toolwright.Text.Blank
import Toolwright.Wrapper.Casing

/-!
How a declared property type is stored. A type is a list or a map of elements, a switch or a
single element; `typeShape` reads it off the declared text. An element is a primitive type, an
enumeration of the tool, or any other name.
-/

namespace Toolwright.Wrapper

/-- The type of one element in generated source, and whether its values can stand on a command
line. -/
structure Element where
  type : String
  primitive : Bool
  deriving DecidableEq, Repr, Inhabited

inductive TypeShape where
  | scalar (element : Element)
  | bool
  | list (item : Element)
  | map (value : Element)
  deriving DecidableEq, Repr

/-- Whether values of the shape can stand on a command line. -/
def TypeShape.isArgument : TypeShape → Bool
  | .bool => true
  | .scalar e => e.primitive
  | .list e => e.primitive
  | .map e => e.primitive

/-- The storage type of a primitive type name, which is told in any case of letters. -/
def primitiveType? (lower : String) : Option String :=
  if lower = "string" then some "String"
  else if lower = "bool" ∨ lower = "boolean" then some "bool"
  else if lower = "int" ∨ lower = "long" then some "i64"
  else if lower = "uint" ∨ lower = "ulong" then some "u64"
  else if lower = "float" ∨ lower = "double" ∨ lower = "decimal" then some "f64"
  else none

def lowerCase (s : List Char) : String := String.ofList (s.map Char.toLower)

/-- The element of a declared name. Of the tool only its enumerations matter. -/
def elementOf (tool : Tool) (declared : List Char) : Element :=
  let name := Text.trim declared
  match primitiveType? (lowerCase name) with
  | some type => ⟨type, true⟩
  | none =>
    ⟨String.ofList (pascalChars name), (tool.enumeration? (String.ofList name)).isSome⟩

/-- What stands between `<` and `>` behind a wrapper's name. -/
def argumentOf? (declared wrapper : List Char) : Option (List Char) :=
  match wrapper.isPrefixOf? declared with
  | some ('<' :: rest) => (List.isSuffixOf? ['>'] rest).map Text.trim
  | _ => none

/-- The argument of the first of several wrappers that fits. -/
def argumentOfAny? (declared : List Char) (wrappers : List String) : Option (List Char) :=
  wrappers.findSome? fun wrapper => argumentOf? declared wrapper.toList

def listWrappers : List String := ["List", "IEnumerable", "IReadOnlyList"]

def mapWrappers : List String := ["Dictionary", "IReadOnlyDictionary", "Map"]

def listArgument? (declared : List Char) : Option (List Char) :=
  (argumentOfAny? declared listWrappers).orElse fun _ => List.isSuffixOf? ['[', ']'] declared

/-- What stands behind the first comma, or the whole text when there is none. -/
def afterComma (s : List Char) : List Char :=
  match s.dropWhile (· != ',') with
  | [] => s
  | _ :: rest => rest

def mapArgument? (declared : List Char) : Option (List Char) :=
  (argumentOfAny? declared mapWrappers).map afterComma

def typeShapeOf (tool : Tool) (declared : List Char) : TypeShape :=
  let name := Text.trim declared
  match listArgument? name with
  | some item => .list (elementOf tool item)
  | none =>
    match mapArgument? name with
    | some value => .map (elementOf tool value)
    | none =>
      if lowerCase name = "bool" ∨ lowerCase name = "boolean" then .bool
      else .scalar (elementOf tool name)

def typeShape (tool : Tool) (declared : String) : TypeShape := typeShapeOf tool declared.toList

end Toolwright.Wrapper
