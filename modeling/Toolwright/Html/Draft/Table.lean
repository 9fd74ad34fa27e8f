import Toolwright.Html.Draft.Body

/-!
The rules for tables and for selections. What has no place in a table is put before it, by the rules
for the body.
-/

namespace Toolwright.Html.Draft

/-- The rules for the body, with everything new put before the table. -/
def foster (d : Draft) (input : Input) : Outcome :=
  match { d with fostering := true }.inBody input with
  | .taken d => .taken { d with fostering := false }
  | .again d => .again { d with fostering := false }

def tableContext : List String := ["table", "template", "html"]

def bodyContext : List String := ["tbody", "tfoot", "thead", "template", "html"]

def rowContext : List String := ["tr", "template", "html"]

def isTableEnd (name : String) : Bool :=
  ["body", "caption", "col", "colgroup", "html", "tbody", "td", "tfoot", "th", "thead",
    "tr"].contains name

def startInTable (d : Draft) (tag : Tag) : Outcome :=
  let input := Input.start tag
  match tag.name with
  | "caption" =>
    .taken { ((d.popTo tableContext).pushBorder.openTag tag) with mode := .inCaption }
  | "colgroup" => .taken { (d.popTo tableContext).openTag tag with mode := .inColumnGroup }
  | "col" => .again { (d.popTo tableContext).openNamed "colgroup" with mode := .inColumnGroup }
  | "tbody" => .taken { (d.popTo tableContext).openTag tag with mode := .inTableBody }
  | "tfoot" => .taken { (d.popTo tableContext).openTag tag with mode := .inTableBody }
  | "thead" => .taken { (d.popTo tableContext).openTag tag with mode := .inTableBody }
  | "td" => .again { (d.popTo tableContext).openNamed "tbody" with mode := .inTableBody }
  | "th" => .again { (d.popTo tableContext).openNamed "tbody" with mode := .inTableBody }
  | "tr" => .again { (d.popTo tableContext).openNamed "tbody" with mode := .inTableBody }
  | "table" =>
    if d.inScope .table "table" then .again (d.popThroughNamed "table").resetMode else .taken d
  | "style" => .taken (d.headTag tag)
  | "script" => .taken (d.headTag tag)
  | "template" => .taken (d.headTag tag)
  | "input" => if isHidden tag then .taken (d.insertTag tag) else d.foster input
  | "form" =>
    if d.hasOpen "template" || d.form.isSome then .taken d
    else
      let n := d.tree.size
      .taken { d.insertTag tag with form := some n }
  | _ => d.foster input

def inTable (d : Draft) (input : Input) : Outcome :=
  match input with
  | .char _ =>
    if d.currentIn ["table", "tbody", "tfoot", "thead", "tr"] then
      .again { d with resume := d.mode, mode := .inTableText }
    else d.foster input
  | .comment => .taken d
  | .start tag => d.startInTable tag
  | .close name =>
    if name = "table" then
      if d.inScope .table "table" then .taken (d.popThroughNamed "table").resetMode else .taken d
    else if isTableEnd name then .taken d
    else if name = "template" then .taken d.closeTemplate
    else d.foster input
  | .done => d.inBody input

/-- Place the characters that were held back: in the table if all of them are white space, else
before it. -/
def placePending (d : Draft) : Draft :=
  let chars := d.pending.reverse
  let d := { d with pending := [] }
  if chars.all Token.isBlankChar then chars.foldl insertChar d
  else
    chars.foldl
      (fun d c =>
        match d.foster (.char c) with
        | .taken d => d
        | .again d => d)
      d

def inTableText (d : Draft) (input : Input) : Outcome :=
  match input with
  | .char c => .taken (if c = '\x00' then d else { d with pending := c :: d.pending })
  | _ => .again { d.placePending with mode := d.resume }

def inCaption (d : Draft) (input : Input) : Outcome :=
  let closed := fun (_ : Unit) =>
    { ((d.closeImplied impliedEnds).popThroughNamed "caption").clearToBorder with
      mode := .inTable }
  let leave := fun (_ : Unit) =>
    if d.inScope .table "caption" then .again (closed ()) else .taken d
  match input with
  | .start tag =>
    if ["caption", "col", "colgroup", "tbody", "td", "tfoot", "th", "thead", "tr"].contains
        tag.name then leave ()
    else d.inBody input
  | .close name =>
    if name = "caption" then
      if d.inScope .table "caption" then .taken (closed ()) else .taken d
    else if name = "table" then leave ()
    else if isTableEnd name then .taken d
    else d.inBody input
  | _ => d.inBody input

def inColumnGroup (d : Draft) (input : Input) : Outcome :=
  let leave := fun (_ : Unit) =>
    if d.currentIs "colgroup" then .again { d.pop with mode := .inTable } else .taken d
  match input with
  | .char c => if Token.isBlankChar c then .taken (d.insertChar c) else leave ()
  | .comment => .taken d
  | .start tag =>
    match tag.name with
    | "html" => d.mergeRoot tag
    | "col" => .taken (d.insertTag tag)
    | "template" => .taken (d.headTag tag)
    | _ => leave ()
  | .close name =>
    match name with
    | "colgroup" =>
      .taken (if d.currentIs "colgroup" then { d.pop with mode := .inTable } else d)
    | "col" => .taken d
    | "template" => .taken d.closeTemplate
    | _ => leave ()
  | .done => d.inBody input

def inTableBody (d : Draft) (input : Input) : Outcome :=
  let leave := fun (_ : Unit) =>
    if d.anyInScope .table ["table", "tbody", "tfoot"] then
      .again { (d.popTo bodyContext).pop with mode := .inTable }
    else .taken d
  match input with
  | .start tag =>
    match tag.name with
    | "tr" => .taken { (d.popTo bodyContext).openTag tag with mode := .inRow }
    | "th" => .again { (d.popTo bodyContext).openNamed "tr" with mode := .inRow }
    | "td" => .again { (d.popTo bodyContext).openNamed "tr" with mode := .inRow }
    | name =>
      if ["caption", "col", "colgroup", "tbody", "tfoot", "thead"].contains name then leave ()
      else d.inTable input
  | .close name =>
    if ["tbody", "tfoot", "thead"].contains name then
      if d.inScope .table name then .taken { (d.popTo bodyContext).pop with mode := .inTable }
      else .taken d
    else if name = "table" then leave ()
    else if isTableEnd name then .taken d
    else d.inTable input
  | _ => d.inTable input

def inRow (d : Draft) (input : Input) : Outcome :=
  let closed := fun (_ : Unit) => { (d.popTo rowContext).pop with mode := .inTableBody }
  let leave := fun (_ : Unit) =>
    if d.inScope .table "tr" then .again (closed ()) else .taken d
  match input with
  | .start tag =>
    if ["td", "th"].contains tag.name then
      .taken ({ (d.popTo rowContext).openTag tag with mode := .inCell }.pushBorder)
    else if ["caption", "col", "colgroup", "tbody", "tfoot", "thead", "tr"].contains tag.name then
      leave ()
    else d.inTable input
  | .close name =>
    if name = "tr" then if d.inScope .table "tr" then .taken (closed ()) else .taken d
    else if name = "table" then leave ()
    else if ["tbody", "tfoot", "thead"].contains name then
      if d.inScope .table name then leave () else .taken d
    else if isTableEnd name then .taken d
    else d.inTable input
  | _ => d.inTable input

def inCell (d : Draft) (input : Input) : Outcome :=
  let closed := fun (_ : Unit) =>
    let d := d.closeImplied impliedEnds
    { (d.popThrough (d.isOneOf ["td", "th"])).clearToBorder with mode := .inRow }
  match input with
  | .start tag =>
    if ["caption", "col", "colgroup", "tbody", "td", "tfoot", "th", "thead", "tr"].contains
        tag.name then
      if d.anyInScope .table ["td", "th"] then .again (closed ()) else .taken d
    else d.inBody input
  | .close name =>
    if ["td", "th"].contains name then
      if d.inScope .table name then
        .taken { ((d.closeImplied impliedEnds).popThroughNamed name).clearToBorder with
          mode := .inRow }
      else .taken d
    else if ["table", "tbody", "tfoot", "thead", "tr"].contains name then
      if d.inScope .table name then .again (closed ()) else .taken d
    else if isTableEnd name then .taken d
    else d.inBody input
  | _ => d.inBody input

def closeSelect (d : Draft) : Draft := (d.popThroughNamed "select").resetMode

def inSelect (d : Draft) (input : Input) : Outcome :=
  match input with
  | .char c => .taken (if c = '\x00' then d else d.insertChar c)
  | .comment => .taken d
  | .start tag =>
    let outOfOption := if d.currentIs "option" then d.pop else d
    let outOfGroup := if outOfOption.currentIs "optgroup" then outOfOption.pop else outOfOption
    match tag.name with
    | "html" => d.mergeRoot tag
    | "option" => .taken (outOfOption.openTag tag)
    | "optgroup" => .taken (outOfGroup.openTag tag)
    | "hr" => .taken (outOfGroup.insertTag tag)
    | "select" => .taken (if d.selectInScope then d.closeSelect else d)
    | "script" => .taken (d.headTag tag)
    | "template" => .taken (d.headTag tag)
    | name =>
      if ["input", "keygen", "textarea"].contains name && d.selectInScope then
        .again d.closeSelect
      else .taken d
  | .close name =>
    match name with
    | "optgroup" =>
      let nested := d.currentIs "option" && (d.stack.drop 1).head?.any (d.isNamed "optgroup")
      let d := if nested then d.pop else d
      .taken (if d.currentIs "optgroup" then d.pop else d)
    | "option" => .taken (if d.currentIs "option" then d.pop else d)
    | "select" => .taken (if d.selectInScope then d.closeSelect else d)
    | "template" => .taken d.closeTemplate
    | _ => .taken d
  | .done => d.inBody input

def inSelectInTable (d : Draft) (input : Input) : Outcome :=
  let tableTags := ["caption", "table", "tbody", "tfoot", "thead", "tr", "td", "th"]
  match input with
  | .start tag =>
    if tableTags.contains tag.name then .again d.closeSelect else d.inSelect input
  | .close name =>
    if tableTags.contains name then
      if d.inScope .table name then .again d.closeSelect else .taken d
    else d.inSelect input
  | _ => d.inSelect input

end Toolwright.Html.Draft
