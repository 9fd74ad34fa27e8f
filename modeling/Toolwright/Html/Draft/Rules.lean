import Toolwright.Html.Draft.Table

/-!
The rules of each mode, put together: `feed` gives an input to a draft until it is taken.
-/

namespace Toolwright.Html.Draft

/-- Put the root at its place, with the attributes of its tag. -/
def openRoot (d : Draft) (attrs : List Attribute) : Draft :=
  let n := d.tree.size
  { d with tree := d.tree.create .html "html" attrs, stack := n :: d.stack, mode := .beforeHead }

def initial (d : Draft) (input : Input) : Outcome :=
  match input with
  | .comment => .taken d
  | .char c => if Token.isBlankChar c then .taken d else leave d
  | _ => leave d
where
  leave (d : Draft) : Outcome := .again { d with oldWays := true, mode := .beforeHtml }

/-- End tags that open what is missing instead of being dropped. -/
def opensMissing (name : String) : Bool := ["head", "body", "html", "br"].contains name

def beforeHtml (d : Draft) (input : Input) : Outcome :=
  match input with
  | .comment => .taken d
  | .char c => if Token.isBlankChar c then .taken d else .again (d.openRoot [])
  | .start tag =>
    if tag.name = "html" then .taken (d.openRoot (plainAttrs tag)) else .again (d.openRoot [])
  | .close name => if opensMissing name then .again (d.openRoot []) else .taken d
  | .done => .again (d.openRoot [])

def openHead (d : Draft) (attrs : List Attribute) : Draft :=
  let n := d.tree.size
  { d.openElement .html "head" attrs with head := some n, mode := .inHead }

def beforeHead (d : Draft) (input : Input) : Outcome :=
  match input with
  | .comment => .taken d
  | .char c => if Token.isBlankChar c then .taken d else .again (d.openHead [])
  | .start tag =>
    if tag.name = "html" then d.mergeRoot tag
    else if tag.name = "head" then .taken (d.openHead (plainAttrs tag))
    else .again (d.openHead [])
  | .close name => if opensMissing name then .again (d.openHead []) else .taken d
  | .done => .again (d.openHead [])

/-- A tag of the head that comes too late goes into the head all the same. -/
def lateHeadTag (d : Draft) (tag : Tag) : Draft :=
  match d.head with
  | none => d.headTag tag
  | some head =>
    let d := { d with stack := head :: d.stack }.headTag tag
    { d with stack := d.stack.filter (· != head) }

def afterHead (d : Draft) (input : Input) : Outcome :=
  let leave := fun (_ : Unit) => Outcome.again { d.openNamed "body" with mode := .inBody }
  match input with
  | .comment => .taken d
  | .char c => if Token.isBlankChar c then .taken (d.insertChar c) else leave ()
  | .start tag =>
    match tag.name with
    | "html" => d.mergeRoot tag
    | "body" => .taken { (d.openTag tag).forbidFrameset with mode := .inBody }
    | "frameset" => .taken { d.openTag tag with mode := .inFrameset }
    | "head" => .taken d
    | name => if headTags.contains name then .taken (d.lateHeadTag tag) else leave ()
  | .close name =>
    match name with
    | "template" => .taken d.closeTemplate
    | "body" => leave ()
    | "html" => leave ()
    | "br" => leave ()
    | _ => .taken d
  | .done => leave ()

def inText (d : Draft) (input : Input) : Outcome :=
  match input with
  | .char c => .taken (d.insertChar c)
  | .done => .again { d.pop with mode := d.resume }
  | .close _ => .taken { d.pop with mode := d.resume, reading := .markup }
  | _ => .taken d

/-- Inside a template the first tag decides which rules hold. -/
def inTemplate (d : Draft) (input : Input) : Outcome :=
  let turn := fun (mode : Mode) =>
    Outcome.again { d with templates := mode :: d.templates.drop 1, mode := mode }
  match input with
  | .char _ => d.inBody input
  | .comment => .taken d
  | .start tag =>
    match tag.name with
    | "caption" => turn .inTable
    | "colgroup" => turn .inTable
    | "tbody" => turn .inTable
    | "tfoot" => turn .inTable
    | "thead" => turn .inTable
    | "col" => turn .inColumnGroup
    | "tr" => turn .inTableBody
    | "td" => turn .inRow
    | "th" => turn .inRow
    | name => if headTags.contains name then .taken (d.headTag tag) else turn .inBody
  | .close name => .taken (if name = "template" then d.closeTemplate else d)
  | .done => d.endTemplates

def afterBody (d : Draft) (input : Input) : Outcome :=
  let leave := Outcome.again { d with mode := .inBody }
  match input with
  | .comment => .taken d
  | .char c => if Token.isBlankChar c then d.inBody input else leave
  | .start tag => if tag.name = "html" then d.mergeRoot tag else leave
  | .close name => if name = "html" then .taken { d with mode := .afterAfterBody } else leave
  | .done => .taken d

def inFrameset (d : Draft) (input : Input) : Outcome :=
  match input with
  | .comment => .taken d
  | .char c => .taken (if Token.isBlankChar c then d.insertChar c else d)
  | .start tag =>
    match tag.name with
    | "html" => d.mergeRoot tag
    | "frameset" => .taken (d.openTag tag)
    | "frame" => .taken (d.insertTag tag)
    | "noframes" => .taken (d.headTag tag)
    | _ => .taken d
  | .close name =>
    if name = "frameset" ∧ d.stack.length ≠ 1 then
      let d := d.pop
      .taken (if d.currentIs "frameset" then d else { d with mode := .afterFrameset })
    else .taken d
  | .done => .taken d

def afterFrameset (d : Draft) (input : Input) : Outcome :=
  match input with
  | .comment => .taken d
  | .char c => .taken (if Token.isBlankChar c then d.insertChar c else d)
  | .start tag =>
    match tag.name with
    | "html" => d.mergeRoot tag
    | "noframes" => .taken (d.headTag tag)
    | _ => .taken d
  | .close name => .taken (if name = "html" then { d with mode := .afterAfterFrameset } else d)
  | .done => .taken d

def afterAfterBody (d : Draft) (input : Input) : Outcome :=
  let leave := Outcome.again { d with mode := .inBody }
  match input with
  | .comment => .taken d
  | .char c => if Token.isBlankChar c then d.inBody input else leave
  | .start tag => if tag.name = "html" then d.mergeRoot tag else leave
  | .close _ => leave
  | .done => .taken d

def afterAfterFrameset (d : Draft) (input : Input) : Outcome :=
  match input with
  | .char c => if Token.isBlankChar c then d.inBody input else .taken d
  | .start tag =>
    match tag.name with
    | "html" => d.mergeRoot tag
    | "noframes" => .taken (d.headTag tag)
    | _ => .taken d
  | _ => .taken d

def ruled (d : Draft) (input : Input) : Outcome :=
  match d.mode with
  | .initial => d.initial input
  | .beforeHtml => d.beforeHtml input
  | .beforeHead => d.beforeHead input
  | .inHead => d.inHead input
  | .afterHead => d.afterHead input
  | .inBody => d.inBody input
  | .text => d.inText input
  | .inTable => d.inTable input
  | .inTableText => d.inTableText input
  | .inCaption => d.inCaption input
  | .inColumnGroup => d.inColumnGroup input
  | .inTableBody => d.inTableBody input
  | .inRow => d.inRow input
  | .inCell => d.inCell input
  | .inSelect => d.inSelect input
  | .inSelectInTable => d.inSelectInTable input
  | .inTemplate => d.inTemplate input
  | .afterBody => d.afterBody input
  | .inFrameset => d.inFrameset input
  | .afterFrameset => d.afterFrameset input
  | .afterAfterBody => d.afterAfterBody input
  | .afterAfterFrameset => d.afterAfterFrameset input

/-- Give an input to a draft until it is taken, at most `fuel` times. -/
def feedFrom : Nat → Draft → Input → Draft
  | 0, d, _ => d
  | fuel + 1, d, input =>
    match if d.isForeign input then d.foreign ruled input else d.ruled input with
    | .taken d => d
    | .again d => feedFrom fuel d input

/-- Give an input to a draft. Each time that it is not taken, an element was closed or one of the
modes that lead into a document or a table was left. -/
def feed (d : Draft) (input : Input) : Draft := feedFrom (4 * d.stack.length + 32) d input

end Toolwright.Html.Draft
