import Toolwright.Html.Basic

/-!
The tree of a document while it grows. Parts are numbered elements; each knows its children, the
last one first, and its parent. Part 0 is the root of the document. `Tree.toDocument` is the
finished document.
-/

namespace Toolwright.Html.Draft

inductive Child where
  | text (content : String)
  | part (number : Nat)
  deriving DecidableEq

structure Part where
  element : Element
  /-- The last child first. -/
  children : List Child
  parent : Option Nat

abbrev Tree := Array Part

namespace Tree

def element? (t : Tree) (n : Nat) : Option Element := t[n]?.map Part.element

/-- A new part that hangs nowhere; its number is the size of the tree before. -/
def create (t : Tree) (space : Space) (name : String) (attrs : List Attribute) : Tree :=
  t.push ⟨⟨t.size, space, name, attrs⟩, [], none⟩

def setChildren (t : Tree) (n : Nat) (f : List Child → List Child) : Tree :=
  t.modify n fun p => { p with children := f p.children }

def detach (t : Tree) (n : Nat) : Tree :=
  match t[n]?.bind Part.parent with
  | none => t
  | some above =>
    (t.setChildren above (·.filter (· != .part n))).modify n fun p => { p with parent := none }

def append (t : Tree) (above n : Nat) : Tree :=
  ((t.detach n).setChildren above (.part n :: ·)).modify n fun p => { p with parent := some above }

/-- A character behind children; it goes into the text that is last. -/
def pushChar (c : Char) : List Child → List Child
  | .text content :: rest => .text (content.push c) :: rest
  | children => .text (String.singleton c) :: children

def appendChar (t : Tree) (above : Nat) (c : Char) : Tree := t.setChildren above (pushChar c)

/-- Change what stands before a child; children are listed from the last one. -/
def changeBefore (child : Child) (f : List Child → List Child) : List Child → List Child
  | [] => []
  | x :: rest => if x = child then x :: f rest else x :: changeBefore child f rest

def insertBefore (t : Tree) (sibling n : Nat) : Tree :=
  let t := t.detach n
  match t[sibling]?.bind Part.parent with
  | none => t
  | some above =>
    (t.setChildren above (changeBefore (.part sibling) (.part n :: ·))).modify n fun p =>
      { p with parent := some above }

def insertCharBefore (t : Tree) (sibling : Nat) (c : Char) : Tree :=
  match t[sibling]?.bind Part.parent with
  | none => t
  | some above => t.setChildren above (changeBefore (.part sibling) (pushChar c))

/-- Move the children of a part to the end of another one. -/
def moveChildren (t : Tree) (source target : Nat) : Tree :=
  match t[source]? with
  | none => t
  | some p =>
    let t := p.children.foldl
      (fun t child =>
        match child with
        | .part n => t.modify n fun q => { q with parent := some target }
        | .text _ => t)
      t
    (t.setChildren target (p.children ++ ·)).setChildren source fun _ => []

def addMissing (t : Tree) (n : Nat) (attrs : List Attribute) : Tree :=
  t.modify n fun p =>
    let more := attrs.filter fun a =>
      !p.element.attrs.any fun b => b.space == a.space && b.name == a.name
    { p with element := { p.element with attrs := p.element.attrs ++ more } }

/-- The finished node of a part; `fuel` bounds its depth. -/
def node (t : Tree) : Nat → Nat → Node
  | 0, _ => .text ""
  | fuel + 1, n =>
    match t[n]? with
    | none => .text ""
    | some p =>
      let children := p.children.reverse.map fun child =>
        match child with
        | .text content => Node.text content
        | .part m => t.node fuel m
      if p.element.space = .html ∧ p.element.name = "template" then
        .element p.element [.contents children]
      else .element p.element children

def toDocument (t : Tree) : Document :=
  let loose := (List.range t.size).filter fun n =>
    n != 0 && (t[n]?.bind Part.parent).isNone
  { nodes := [t.node t.size 0], detached := loose.map (t.node t.size) }

end Tree

end Toolwright.Html.Draft
