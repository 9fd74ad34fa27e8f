import Toolwright.Css.Selector
import Toolwright.Html.Spot
import Toolwright.Text.Blank
import Toolwright.Text.Part

/-!
When an element matches a selector. Names of HTML are compared without regard to case; values are
compared as the selector asks, and the values of some attributes of HTML without regard to case
unless the selector asks for it.
-/

namespace Toolwright.Css

open Toolwright.Html

def small (s : List Char) : List Char := s.map Char.toLower

def isHtml (e : Element) : Bool := e.space = .html

/-- A name as it has to be spelled to match an element. -/
def nameFor (e : Element) (name : String) : String :=
  if isHtml e then String.ofList (small name.toList) else name

/-- Attributes of HTML whose values are compared without regard to case. -/
def caselessAttributes : List String := [
  "accept", "accept-charset", "align", "alink", "axis", "bgcolor", "charset", "checked", "clear",
  "codetype", "color", "compact", "declare", "defer", "dir", "direction", "disabled", "enctype",
  "face", "frame", "hreflang", "http-equiv", "lang", "language", "link", "media", "method",
  "multiple", "nohref", "noresize", "noshade", "nowrap", "readonly", "rel", "rev", "rules",
  "scope", "scrolling", "selected", "shape", "target", "text", "type", "valign", "valuetype",
  "vlink"]

/-- Whether values are compared without regard to case. -/
def CaseRule.ignores (rule : CaseRule) (space : Space) (name : String) (e : Element) : Bool :=
  match rule with
  | .exact => false
  | .ignore => true
  | .ofAttribute =>
    space = .none && isHtml e && caselessAttributes.contains (String.ofList (small name.toList))

/-- The characters that separate words in the value of an attribute. -/
def isWordGap (c : Char) : Bool :=
  c == ' ' || c == '\t' || c == '\n' || c == '\r' || c == '\x0c'

/-- Whether a value fits an operand. An empty operand is nowhere found inside a value. -/
def Operator.holds (op : Operator) (value operand : List Char) : Bool :=
  match op with
  | .equal => value == operand
  | .includes => !operand.isEmpty && (Text.splitAt isWordGap value).contains operand
  | .dash => value == operand || (operand ++ ['-']).isPrefixOf value
  | .starts => !operand.isEmpty && operand.isPrefixOf value
  | .ends => !operand.isEmpty && operand.isSuffixOf value
  | .contains => !operand.isEmpty && Text.occursIn operand value

def attributesOf (e : Element) (space : Space) (name : String) : List Attribute :=
  e.attrs.filter fun a =>
    (space = .any || a.space = .none) && a.name == nameFor e name

def valueMatches (e : Element) (space : Space) (name : String) (op : Operator) (value : String)
    (rule : CaseRule) : Bool :=
  let fold := fun (s : String) =>
    if rule.ignores space name e then small s.toList else s.toList
  (attributesOf e space name).any fun a => op.holds (fold a.value) (fold value)

def classes (e : Element) : List (List Char) :=
  match e.value? "class" with
  | some value => Text.splitAt Text.isBlank value.toList
  | none => []

/-- The position of an element among those that are counted. -/
def position (counting : Counting) (s : Spot) : Nat :=
  let family := if counting.fromEnd then s.later else s.earlier
  let counted := if counting.sameType then
      family.filter fun t => t.info.name == s.info.name && t.info.space = s.info.space
    else family
  counted.length + 1

def isWord (i : Int) : Bool := -2147483648 ≤ i && i ≤ 2147483647

def reaches (a b i : Int) : Bool :=
  let rest := i - b
  if isWord rest then
    if a = 0 then rest = 0
    else isWord (rest.tdiv a) && 0 ≤ rest.tdiv a && a * rest.tdiv a = rest
  else false

def isBare (node : Node) : Bool :=
  match node with
  | .contents _ => true
  | _ => false

/-- For each place of a list, whether something behind it is true. -/
def someBehind : List Bool → List Bool
  | [] => []
  | _ :: rest => rest.any id :: someBehind rest

def first (bs : List Bool) : Bool := bs.head?.getD false

mutual

def Simple.holds (s : Spot) : Simple → Bool
  | .universal space => space = .any
  | .type space name => space = .any && s.info.name == nameFor s.info name
  | .id name => s.info.value? "id" == some name
  | .cls name => !name.isEmpty && (classes s.info).contains name.toList
  | .hasAttribute space name => !(attributesOf s.info space name).isEmpty
  | .attributeValue space name op value rule => valueMatches s.info space name op value rule
  | .root =>
    match s.above with
    | .document => true
    | _ => false
  | .empty => s.children.all isBare
  | .nth counting a b => reaches a b (position counting s)
  | .not selectors => !anyHolds s selectors
  | .is selectors => anyHolds s selectors
  | .has selectors => anyReached s selectors

/-- Where a selector matches on the way outwards. Each part of the selector is tried once for each
element on the way. -/
def Complex.along (way : List Spot) : Complex → List Bool
  | .compound simples => way.map fun t => allHold t simples
  | .combined left .descendant simples =>
    List.zipWith (· && ·) (way.map fun t => allHold t simples) (someBehind (left.along way))
  | .combined left .child simples =>
    List.zipWith (· && ·) (way.map fun t => allHold t simples) ((left.along way).drop 1 ++ [false])
  | .combined left .nextSibling simples =>
    way.map fun t => allHold t simples &&
      (t.earlier.take 1).any fun u => first (left.along u.outwards)
  | .combined left .laterSibling simples =>
    way.map fun t => allHold t simples && t.earlier.any fun u => first (left.along u.outwards)

/-- Whether some element that the selector reaches from this one matches. -/
def Relative.holds (s : Spot) : Relative → Bool
  | .last combinator simples =>
    (candidates s combinator).any fun t => allHold t simples
  | .step combinator simples rest =>
    (candidates s combinator).any fun t => allHold t simples && rest.holds t
where
  candidates (s : Spot) : Combinator → List Spot
    | .descendant => s.descendants
    | .child => s.childElements
    | .nextSibling => s.later.take 1
    | .laterSibling => s.later

def allHold (s : Spot) : List Simple → Bool
  | [] => true
  | first :: rest => first.holds s && allHold s rest

def anyHolds (s : Spot) : List Complex → Bool
  | [] => false
  | selector :: rest => first (selector.along s.outwards) || anyHolds s rest

def anyReached (s : Spot) : List Relative → Bool
  | [] => false
  | first :: rest => first.holds s || anyReached s rest

end

def Complex.holds (c : Complex) (s : Spot) : Bool := first (c.along s.outwards)

end Toolwright.Css
