import Toolwright.Json.Fault
import Toolwright.Text.Literal
import Toolwright.Wrapper.TypeShape
import Toolwright.Wrapper.Variant

/-!
Default values as expressions of generated source. A default that is zero or does not fit the
shape of its property becomes the empty value of the shape; a list or a map is written whole or
not at all. `Expression.text` writes an expression.
-/

namespace Toolwright.Wrapper

open Json (FreeValue Number)

inductive Atom where
  | text (s : String)
  | bool (b : Bool)
  | integer (i : Int)
  | real (x : Float)
  /-- A variant of the enumeration of that name. -/
  | variant (enumeration ident : String)

inductive Expression where
  | absent
  | present (value : Atom)
  | noItems
  | items (values : List Atom)
  | noEntries
  | entries (values : List (String × Atom))

def Atom.source : Atom → String
  | .text s => Text.literalOf s ++ ".to_string()"
  | .bool b => if b then "true" else "false"
  | .integer i => toString i
  | .real x => String.ofList (Decimal.Style.literal.render x)
  | .variant enumeration ident => enumeration ++ "::" ++ ident

def entrySource (entry : String × Atom) : String :=
  "(" ++ Text.literalOf entry.1 ++ ".to_string(), " ++ entry.2.source ++ ")"

def Expression.source : Expression → String
  | .absent => "None"
  | .present value => "Some(" ++ value.source ++ ")"
  | .noItems => "Vec::new()"
  | .items values => "vec![" ++ ", ".intercalate (values.map Atom.source) ++ "]"
  | .noEntries => "BTreeMap::new()"
  | .entries values => "BTreeMap::from([" ++ ", ".intercalate (values.map entrySource) ++ "])"

def signed64? (n : Number) : Option Int := do
  let i ← n.toInt?
  if i < 0x8000000000000000 then some i else none

def unsigned64? (n : Number) : Option Int := do
  let i ← n.toInt?
  if 0 ≤ i then some i else none

/-- The variant of an enumeration with that type name that stands for a text. -/
def variantAtom? (tool : Tool) (type value : String) : Option Atom := do
  let enumeration ← tool.enumerations.find? fun e => pascalCase e.name == type
  let variant ← (variants enumeration).find? fun v => v.value == value
  some (.variant type variant.ident)

def numberAtom? (type : String) (n : Number) : Option Atom :=
  if type = "String" then some (.text (String.ofList n.text))
  else if type = "i64" then (signed64? n).map .integer
  else if type = "u64" then (unsigned64? n).map .integer
  else if type = "f64" then some (.real n.toFloat)
  else none

def atom? (tool : Tool) (type : String) : Json → Option Atom
  | .string s => if type = "String" then some (.text s) else variantAtom? tool type s
  | .number n => numberAtom? type n
  | .bool b => if type = "bool" then some (.bool b) else none
  | _ => none

def keyedAtom? (tool : Tool) (type : String) (member : String × Json) : Option (String × Atom) :=
  (atom? tool type member.2).map fun atom => (member.1, atom)

def TypeShape.empty : TypeShape → Expression
  | .scalar _ => .absent
  | .bool => .absent
  | .list _ => .noItems
  | .map _ => .noEntries

def expression? (tool : Tool) : TypeShape → Json → Option Expression
  | .scalar e, value => (atom? tool e.type value).map .present
  | .bool, .bool b => some (.present (.bool b))
  | .list e, .array items => (items.mapM (atom? tool e.type)).map .items
  | .map e, .object members =>
    (members.mapM (keyedAtom? tool e.type)).map .entries
  | _, _ => none

def defaultExpression (tool : Tool) (shape : TypeShape) (value : Json) : Expression :=
  if value.isZero then shape.empty else (expression? tool shape value).getD shape.empty

end Toolwright.Wrapper
