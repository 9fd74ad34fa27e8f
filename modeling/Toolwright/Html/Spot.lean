import Toolwright.Html.Basic

/-!
Elements where they stand: with their siblings and what is above them. `Document.spots` lists the
elements of a document in the order in which they are found, which is that of their numbers.
-/

namespace Toolwright.Html

mutual

/-- An element at its place; `before` lists the nodes before it, the nearest first. -/
inductive Spot where
  | mk (info : Element) (children before after : List Node) (above : Above)

inductive Above where
  | document
  /-- The contents of a template. -/
  | contents
  /-- The element was cut off. -/
  | nothing
  | element (parent : Spot)

end

instance : Inhabited Spot := ⟨.mk ⟨0, .html, "", []⟩ [] [] [] .nothing⟩

namespace Spot

def info : Spot → Element
  | .mk e _ _ _ _ => e

def children : Spot → List Node
  | .mk _ cs _ _ _ => cs

def before : Spot → List Node
  | .mk _ _ before _ _ => before

def after : Spot → List Node
  | .mk _ _ _ after _ => after

def above : Spot → Above
  | .mk _ _ _ _ above => above

def parent? (s : Spot) : Option Spot :=
  match s.above with
  | .element parent => some parent
  | _ => none

def ancestors : Spot → List Spot
  | .mk _ _ _ _ (.element parent) => parent :: ancestors parent
  | .mk _ _ _ _ .document => []
  | .mk _ _ _ _ .contents => []
  | .mk _ _ _ _ .nothing => []

/-- The element and those above it, from the inside outwards. -/
def outwards (s : Spot) : List Spot := s :: s.ancestors

/-- The elements of a list that stands before `after`, the last node first. -/
def backward (above : Above) (after : List Node) : List Node → List Spot
  | [] => []
  | .element e children :: rest =>
    .mk e children rest after above :: backward above (.element e children :: after) rest
  | node :: rest => backward above (node :: after) rest

/-- The elements of a list that stands behind `before`, in order. -/
def forward (above : Above) (before : List Node) : List Node → List Spot
  | [] => []
  | .element e children :: rest =>
    .mk e children before rest above :: forward above (.element e children :: before) rest
  | node :: rest => forward above (node :: before) rest

def node (s : Spot) : Node := .element s.info s.children

/-- Sibling elements before this one, the nearest first. -/
def earlier (s : Spot) : List Spot := backward s.above (s.node :: s.after) s.before

/-- Sibling elements behind this one, the nearest first. -/
def later (s : Spot) : List Spot := forward s.above (s.node :: s.before) s.after

def childElements (s : Spot) : List Spot := forward (.element s) [] s.children

def text (s : Spot) : String := textOf s.children

end Spot

mutual

/-- The elements of a node, in the order of the tree; `inside` tells whether the contents of
templates are looked into. -/
def Node.spots (inside : Bool) (above : Above) (before after : List Node) : Node → List Spot
  | .text _ => []
  | .element e children =>
    .mk e children before after above ::
      spotsOf inside (.element (.mk e children before after above)) [] children
  | .contents nodes => if inside then spotsOf inside .contents [] nodes else []

/-- The elements of a list of nodes that stands behind `before`. -/
def spotsOf (inside : Bool) (above : Above) (before : List Node) : List Node → List Spot
  | [] => []
  | node :: rest =>
    node.spots inside above before rest ++ spotsOf inside above (node :: before) rest

end

def Spot.descendants (s : Spot) : List Spot := spotsOf false (.element s) [] s.children

def Document.tops (d : Document) : List Spot := Spot.forward .document [] d.nodes

/-- All elements of a document in the order of the tree. The contents of templates are there as
well, and at the end what was cut off. -/
def Document.all (d : Document) : List Spot :=
  spotsOf true .document [] d.nodes ++ d.detached.flatMap fun node => node.spots true .nothing [] []

/-- The elements of a document that have something above them, in the order of the tree. -/
def Document.placed (d : Document) : List Spot :=
  spotsOf true .document [] d.nodes ++ d.detached.flatMap fun node =>
    (node.spots true .nothing [] []).drop 1

/-- The elements of a document that have something above them, by number. -/
def Document.spots (d : Document) : List Spot :=
  d.placed.mergeSort fun s t => s.info.number ≤ t.info.number

end Toolwright.Html
