import Toolwright.Html.Draft.Tree
import Toolwright.Html.Token

/-!
A document under construction: its tree, the elements that are still open, the formatting that is
carried from element to element, and the mode that says which rules hold. Here are the operations
that all rules share; those on the open elements are list operations, the innermost element being
the first.
-/

namespace Toolwright.Html

inductive Mode where
  | initial
  | beforeHtml
  | beforeHead
  | inHead
  | afterHead
  | inBody
  | text
  | inTable
  | inTableText
  | inCaption
  | inColumnGroup
  | inTableBody
  | inRow
  | inCell
  | inSelect
  | inSelectInTable
  | inTemplate
  | afterBody
  | inFrameset
  | afterFrameset
  | afterAfterBody
  | afterAfterFrameset
  deriving DecidableEq, Repr

/-- An element that formats what follows, or the border that formatting does not cross. -/
inductive Formatting where
  | border
  | element (number : Nat) (tag : Tag)
  deriving DecidableEq

/-- What the rules are applied to: a token other than a document type, characters one by one. -/
inductive Input where
  | char (c : Char)
  | start (tag : Tag)
  | close (name : String)
  | comment
  | done

structure Draft where
  tree : Draft.Tree
  mode : Mode
  /-- The mode to go back to after text. -/
  resume : Mode
  /-- Modes of the open templates, the innermost first. -/
  templates : List Mode
  /-- The open elements, the innermost first. -/
  stack : List Nat
  /-- The latest first. -/
  formatting : List Formatting
  /-- Characters in a table whose place is not yet known, the latest first. -/
  pending : List Char
  head : Option Nat
  form : Option Nat
  /-- Whether a frameset could still replace the body. -/
  framesetAllowed : Bool
  /-- The document type asks for the ways of old pages. -/
  oldWays : Bool
  /-- A line feed that comes next is dropped. -/
  dropsLineFeed : Bool
  /-- What cannot stand in a table goes before it. -/
  fostering : Bool
  reading : Reading

/-- What became of an input: it was taken, or the rules of the new mode have to see it. -/
inductive Outcome where
  | taken (d : Draft)
  | again (d : Draft)

namespace Draft

def new : Draft where
  tree := #[]
  mode := .initial
  resume := .initial
  templates := []
  stack := []
  formatting := []
  pending := []
  head := none
  form := none
  framesetAllowed := true
  oldWays := false
  dropsLineFeed := false
  fostering := false
  reading := .markup

def element (d : Draft) (n : Nat) : Element := (d.tree.element? n).getD ⟨n, .html, "", []⟩

/-- Whether a part is an element of HTML with one of these names. -/
def isOneOf (d : Draft) (names : List String) (n : Nat) : Bool :=
  let e := d.element n
  e.space = .html && names.contains e.name

def isNamed (d : Draft) (name : String) (n : Nat) : Bool :=
  let e := d.element n
  e.space = .html && e.name == name

def currentIs (d : Draft) (name : String) : Bool := d.stack.head?.any (d.isNamed name)

def currentIn (d : Draft) (names : List String) : Bool := d.stack.head?.any (d.isOneOf names)

def hasOpen (d : Draft) (name : String) : Bool := d.stack.any (d.isNamed name)

def holdsMathText (e : Element) : Bool :=
  e.space = .mathml && ["mi", "mo", "mn", "ms", "mtext"].contains e.name

def holdsHtml (e : Element) : Bool :=
  e.space = .svg && ["foreignObject", "desc", "title"].contains e.name

structure Scope where
  names : List String
  /-- Elements of other vocabularies that hold text or HTML are borders as well. -/
  foreign : Bool

def Scope.usual : Scope :=
  ⟨["applet", "caption", "html", "table", "td", "th", "marquee", "object", "template"], true⟩

def Scope.listItem : Scope := ⟨"ol" :: "ul" :: Scope.usual.names, true⟩

def Scope.button : Scope := ⟨"button" :: Scope.usual.names, true⟩

def Scope.table : Scope := ⟨["html", "table", "template"], false⟩

def Scope.bounds (s : Scope) (e : Element) : Bool :=
  (e.space = .html && s.names.contains e.name) || (s.foreign && (holdsMathText e || holdsHtml e))

/-- Whether an open element passes the test before a border is met. -/
def finds (d : Draft) (bounds : Element → Bool) (test : Nat → Bool) : List Nat → Bool
  | [] => false
  | n :: rest => test n || (!bounds (d.element n) && finds d bounds test rest)

def inScope (d : Draft) (s : Scope) (name : String) : Bool :=
  d.finds s.bounds (d.isNamed name) d.stack

def anyInScope (d : Draft) (s : Scope) (names : List String) : Bool :=
  d.finds s.bounds (d.isOneOf names) d.stack

def selectInScope (d : Draft) : Bool :=
  d.finds (fun e => !(e.space = .html && ["optgroup", "option"].contains e.name))
    (d.isNamed "select") d.stack

def pop (d : Draft) : Draft := { d with stack := d.stack.drop 1 }

/-- Close elements up to one that passes the test, and that one. -/
def popThrough (d : Draft) (test : Nat → Bool) : Draft :=
  { d with stack := (d.stack.dropWhile (!test ·)).drop 1 }

def popThroughNamed (d : Draft) (name : String) : Draft := d.popThrough (d.isNamed name)

/-- Close elements until the innermost one has one of these names. -/
def popTo (d : Draft) (names : List String) : Draft :=
  { d with stack := d.stack.dropWhile (!d.isOneOf names ·) }

def impliedEnds : List String :=
  ["dd", "dt", "li", "option", "optgroup", "p", "rb", "rp", "rt", "rtc"]

def thoroughEnds : List String :=
  ["caption", "colgroup", "tbody", "td", "tfoot", "th", "thead", "tr"] ++ impliedEnds

def closeImplied (d : Draft) (names : List String) : Draft :=
  { d with stack := d.stack.dropWhile (d.isOneOf names) }

def closeImpliedBut (d : Draft) (name : String) : Draft :=
  d.closeImplied (impliedEnds.filter (· != name))

def closeParagraph (d : Draft) : Draft := (d.closeImpliedBut "p").popThroughNamed "p"

def closeParagraphInScope (d : Draft) : Draft :=
  if d.inScope .button "p" then d.closeParagraph else d

inductive Place where
  | under (above : Nat)
  /-- Before a table, or under the second part when the table hangs nowhere. -/
  | before (table above : Nat)

/-- The place before the innermost table, searched outwards. -/
def fosterPlace (d : Draft) : List Nat → Place
  | [] => .under 0
  | n :: rest =>
    if d.isNamed "template" n then .under n
    else if d.isNamed "table" n then .before n (rest.head?.getD 0)
    else fosterPlace d rest

def placeUnder (d : Draft) (target : Nat) : Place :=
  if d.fostering && d.isOneOf ["table", "tbody", "tfoot", "thead", "tr"] target then
    d.fosterPlace d.stack
  else .under target

def insertPart (d : Draft) (place : Place) (n : Nat) : Draft :=
  match place with
  | .under above => { d with tree := d.tree.append above n }
  | .before table above =>
    if (d.tree[table]?.bind Part.parent).isSome then
      { d with tree := d.tree.insertBefore table n }
    else { d with tree := d.tree.append above n }

def insertChar (d : Draft) (c : Char) : Draft :=
  match d.placeUnder (d.stack.head?.getD 0) with
  | .under above => { d with tree := d.tree.appendChar above c }
  | .before table above =>
    if (d.tree[table]?.bind Part.parent).isSome then
      { d with tree := d.tree.insertCharBefore table c }
    else { d with tree := d.tree.appendChar above c }

def insertElement (d : Draft) (space : Space) (name : String) (attrs : List Attribute) : Draft :=
  let n := d.tree.size
  let place := d.placeUnder (d.stack.head?.getD 0)
  { d with tree := d.tree.create space name attrs }.insertPart place n

def openElement (d : Draft) (space : Space) (name : String) (attrs : List Attribute) : Draft :=
  let n := d.tree.size
  let d := d.insertElement space name attrs
  { d with stack := n :: d.stack }

def plainAttrs (tag : Tag) : List Attribute :=
  tag.attrs.map fun (name, value) => ⟨.none, name, value⟩

def openTag (d : Draft) (tag : Tag) : Draft := d.openElement .html tag.name (plainAttrs tag)

def insertTag (d : Draft) (tag : Tag) : Draft := d.insertElement .html tag.name (plainAttrs tag)

def openNamed (d : Draft) (name : String) : Draft := d.openElement .html name []

def openRaw (d : Draft) (tag : Tag) (reading : Reading) : Draft :=
  let d := d.openTag tag
  { d with resume := d.mode, mode := .text, reading := reading }

def forbidFrameset (d : Draft) : Draft := { d with framesetAllowed := false }

def pushBorder (d : Draft) : Draft := { d with formatting := .border :: d.formatting }

def isFormattingElement : Formatting → Bool
  | .border => false
  | .element _ _ => true

def clearToBorder (d : Draft) : Draft :=
  { d with formatting := (d.formatting.dropWhile isFormattingElement).drop 1 }

/-- The mode for an open element, seen from the innermost one outwards. -/
def modeFrom (d : Draft) : List Nat → Mode
  | [] => .inBody
  | n :: rest =>
    let e := d.element n
    if e.space ≠ .html then modeFrom d rest
    else
      match e.name with
      | "select" =>
        let borders := rest.filter (d.isOneOf ["template", "table"])
        if borders.head?.any (d.isNamed "table") then .inSelectInTable else .inSelect
      | "td" => if rest.isEmpty then modeFrom d rest else .inCell
      | "th" => if rest.isEmpty then modeFrom d rest else .inCell
      | "tr" => .inRow
      | "tbody" => .inTableBody
      | "thead" => .inTableBody
      | "tfoot" => .inTableBody
      | "caption" => .inCaption
      | "colgroup" => .inColumnGroup
      | "table" => .inTable
      | "template" => d.templates.head?.getD .inBody
      | "head" => if rest.isEmpty then modeFrom d rest else .inHead
      | "body" => .inBody
      | "frameset" => .inFrameset
      | "html" => if d.head.isNone then .beforeHead else .afterHead
      | _ => modeFrom d rest

def resetMode (d : Draft) : Draft := { d with mode := d.modeFrom d.stack }

def body? (d : Draft) : Option Nat :=
  match d.stack.reverse with
  | _ :: n :: _ => if d.isNamed "body" n then some n else none
  | _ => none

end Draft

end Toolwright.Html
