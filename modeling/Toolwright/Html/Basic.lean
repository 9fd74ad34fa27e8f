/-!
Documents: trees of elements and text. Comments and document types are not kept, since no selector
sees them. Every element carries the number under which it came to be, which is the order in which
elements are found; it follows the order of the tree except where parts of a document were moved.
-/

namespace Toolwright.Html

inductive Space where
  | html
  | svg
  | mathml
  deriving DecidableEq, Repr

inductive AttributeSpace where
  | none
  | xlink
  | xml
  | xmlns
  deriving DecidableEq, Repr

structure Attribute where
  space : AttributeSpace
  name : String
  value : String
  deriving DecidableEq, Repr

structure Element where
  /-- Elements are numbered in the order in which they came to be. -/
  number : Nat
  space : Space
  name : String
  attrs : List Attribute
  deriving DecidableEq, Repr

inductive Node where
  | text (content : String)
  | element (info : Element) (children : List Node)
  /-- What a template holds: nodes below the template that have no element as their parent. -/
  | contents (nodes : List Node)

structure Document where
  /-- The children of the document. -/
  nodes : List Node
  /-- Elements that were cut off, each with all that is below it. -/
  detached : List Node

mutual

def Node.textContent : Node → String
  | .text content => content
  | .element _ children => textOf children
  | .contents nodes => textOf nodes

def textOf : List Node → String
  | [] => ""
  | node :: rest => node.textContent ++ textOf rest

end

def Element.value? (e : Element) (name : String) : Option String :=
  (e.attrs.find? fun a => a.space = .none ∧ a.name = name).map (·.value)

end Toolwright.Html
