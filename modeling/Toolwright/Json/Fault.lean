import Toolwright.Decimal.Notation
import Toolwright.Json.Basic
import Toolwright.Text.Literal
import Toolwright.Text.Utf8

/-!
What can be wrong with a JSON text, and where. While a text is read a fault carries the number of
bytes that were left; `Fault.locate` turns that into a line and a column of the whole text.
-/

namespace Toolwright.Json

inductive Found where
  | null
  | bool (b : Bool)
  | number (n : Number)
  | string (s : String)
  | sequence
  | map

inductive Wanted where
  | string
  | bool
  | sequence
  /-- A record of this title. -/
  | record (title : String)

inductive Problem where
  | endInValue
  | endInObject
  | endInList
  | endInString
  | valueWanted
  | literalWanted
  | colonWanted
  | itemEndWanted
  | memberEndWanted
  | keyWanted
  | trailingComma
  | trailingCharacters
  | invalidNumber
  | numberOutOfRange
  | invalidEscape
  | endOfEscapeWanted
  | loneSurrogate
  | controlCharacter
  | tooDeep
  | wrongType (found : Found) (wanted : Wanted)
  | missingMember (key : String)
  | repeatedMember (key : String)
  /-- A record of `size` members, written as a list, stops after `given`. -/
  | shortRecord (given : Nat) (title : String) (size : Nat)

structure Fault where
  problem : Problem
  left : Nat

/-- A problem at a line and a column of a text, both counted in bytes of the text before it. -/
structure Error where
  problem : Problem
  line : Nat
  column : Nat

def Fault.before (problem : Problem) (rest : List Char) : Fault :=
  ⟨problem, Text.byteCount rest⟩

/-- A problem with the first byte of `rest`, if there is one. -/
def Fault.atFirst (problem : Problem) (rest : List Char) : Fault :=
  ⟨problem, Text.byteCount rest - 1⟩

/-- Line and column behind the first `bytes` bytes of a text. -/
def position : List Char → Nat → Nat → Nat → Nat × Nat
  | [], line, column, _ => (line, column)
  | c :: rest, line, column, bytes =>
    if bytes = 0 then (line, column)
    else if c.utf8Size ≤ bytes then
      if c = '\n' then position rest (line + 1) 0 (bytes - 1)
      else position rest line (column + c.utf8Size) (bytes - c.utf8Size)
    else (line, column + bytes)

def Fault.locate (fault : Fault) (text : List Char) : Error :=
  let (line, column) := position text 1 0 (Text.byteCount text - fault.left)
  ⟨fault.problem, line, column⟩

def Number.text : Number → List Char
  | .natural n => (toString n.toNat).toList
  | .negative n => '-' :: (toString (n.val + 1)).toList
  | .real x => Decimal.Style.json.render x

def quoted (s : String) : String := "`" ++ s ++ "`"

def Found.describe : Found → String
  | .null => "null"
  | .bool b => "boolean " ++ quoted (if b then "true" else "false")
  | .number (.real x) => "floating point " ++ quoted (String.ofList (Decimal.Style.json.render x))
  | .number n => "integer " ++ quoted (String.ofList n.text)
  | .string s => "string " ++ Text.literalOf s
  | .sequence => "sequence"
  | .map => "map"

def Wanted.describe : Wanted → String
  | .string => "a string"
  | .bool => "a boolean"
  | .sequence => "a sequence"
  | .record title => title

def elementCount (n : Nat) : String :=
  toString n ++ (if n = 1 then " element" else " elements")

def Problem.message : Problem → String
  | .endInValue => "EOF while parsing a value"
  | .endInObject => "EOF while parsing an object"
  | .endInList => "EOF while parsing a list"
  | .endInString => "EOF while parsing a string"
  | .valueWanted => "expected value"
  | .literalWanted => "expected ident"
  | .colonWanted => "expected `:`"
  | .itemEndWanted => "expected `,` or `]`"
  | .memberEndWanted => "expected `,` or `\x7d`"
  | .keyWanted => "key must be a string"
  | .trailingComma => "trailing comma"
  | .trailingCharacters => "trailing characters"
  | .invalidNumber => "invalid number"
  | .numberOutOfRange => "number out of range"
  | .invalidEscape => "invalid escape"
  | .endOfEscapeWanted => "unexpected end of hex escape"
  | .loneSurrogate => "lone leading surrogate in hex escape"
  | .controlCharacter => "control character (\\u0000-\\u001F) found while parsing a string"
  | .tooDeep => "recursion limit exceeded"
  | .wrongType found wanted =>
    "invalid type: " ++ found.describe ++ ", expected " ++ wanted.describe
  | .missingMember key => "missing field " ++ quoted key
  | .repeatedMember key => "duplicate field " ++ quoted key
  | .shortRecord given title size =>
    "invalid length " ++ toString given ++ ", expected " ++ title ++ " with " ++ elementCount size

def Error.message (e : Error) : String :=
  e.problem.message ++ " at line " ++ toString e.line ++ " column " ++ toString e.column

end Toolwright.Json
