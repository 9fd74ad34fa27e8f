import Toolwright.Html.Draft.Foreign

/-!
The rules for the head and the body of a document.
-/

namespace Toolwright.Html.Draft

/-- Give the root the attributes of a second root tag. -/
def mergeRoot (d : Draft) (tag : Tag) : Outcome :=
  if d.hasOpen "template" then .taken d
  else .taken { d with tree := d.tree.addMissing 0 (plainAttrs tag) }

def closeTemplate (d : Draft) : Draft :=
  if d.hasOpen "template" then
    let d := ((d.closeImplied thoroughEnds).popThroughNamed "template").clearToBorder
    { d with templates := d.templates.drop 1 }.resetMode
  else d

/-- The end of the text inside a template: all open templates end with it. -/
def endTemplates (d : Draft) : Outcome :=
  if d.hasOpen "template" then
    let d := (d.popThroughNamed "template").clearToBorder
    .again { d with templates := d.templates.drop 1 }.resetMode
  else .taken d

def headTags : List String :=
  ["base", "basefont", "bgsound", "link", "meta", "noframes", "script", "style", "template",
    "title"]

def headTag (d : Draft) (tag : Tag) : Draft :=
  match tag.name with
  | "title" => d.openRaw tag (.escapable "title")
  | "noframes" => d.openRaw tag (.raw "noframes")
  | "style" => d.openRaw tag (.raw "style")
  | "noscript" => d.openRaw tag (.raw "noscript")
  | "script" => d.openRaw tag .script
  | "template" =>
    let d := (d.openTag tag).pushBorder.forbidFrameset
    { d with mode := .inTemplate, templates := .inTemplate :: d.templates }
  | _ => d.insertTag tag

def inHead (d : Draft) (input : Input) : Outcome :=
  let leave := Outcome.again { d.pop with mode := .afterHead }
  match input with
  | .char c => if Token.isBlankChar c then .taken (d.insertChar c) else leave
  | .comment => .taken d
  | .start tag =>
    if tag.name = "html" then d.mergeRoot tag
    else if headTags.contains tag.name ∨ tag.name = "noscript" then .taken (d.headTag tag)
    else if tag.name = "head" then .taken d
    else leave
  | .close name =>
    match name with
    | "head" => .taken { d.pop with mode := .afterHead }
    | "body" => leave
    | "html" => leave
    | "br" => leave
    | "template" => .taken d.closeTemplate
    | _ => .taken d
  | .done => leave

def blockTags : List String := [
  "address", "article", "aside", "blockquote", "center", "details", "dialog", "dir", "div", "dl",
  "fieldset", "figcaption", "figure", "footer", "header", "hgroup", "main", "menu", "nav", "ol",
  "p", "search", "section", "summary", "ul"]

/-- End tags that close their element and what may be left open in it. -/
def blockEnds : List String :=
  ["button", "listing", "pre"] ++ blockTags.filter (· != "p")

def headings : List String := ["h1", "h2", "h3", "h4", "h5", "h6"]

def formattingTags : List String :=
  ["b", "big", "code", "em", "font", "i", "s", "small", "strike", "strong", "tt", "u"]

/-- Tags that only have a place in tables, framesets or heads. -/
def misplacedTags : List String :=
  ["caption", "col", "colgroup", "frame", "head", "tbody", "td", "tfoot", "th", "thead", "tr"]

/-- The item that a new one ends: its name. Other special elements stop the search. -/
def openItem? (d : Draft) (names : List String) : List Nat → Option String
  | [] => none
  | n :: rest =>
    if d.isOneOf names n then some (d.element n).name
    else if d.isSpecial n && !d.isOneOf ["address", "div", "p"] n then none
    else openItem? d names rest

def openItem (d : Draft) (tag : Tag) (names : List String) : Draft :=
  let d := d.forbidFrameset
  let d :=
    match d.openItem? names d.stack with
    | some name => (d.closeImpliedBut name).popThroughNamed name
    | none => d
  d.closeParagraphInScope.openTag tag

def isHidden (tag : Tag) : Bool :=
  (tag.attrs.find? (·.1 == "type")).any fun a => small a.2 == "hidden"

def closeForm (d : Draft) : Draft :=
  if d.hasOpen "template" then
    if d.inScope .usual "form" then (d.closeImplied impliedEnds).popThroughNamed "form" else d
  else
    match d.form with
    | none => d
    | some n =>
      let d := { d with form := none }
      if d.finds Scope.usual.bounds (· == n) d.stack then
        let d := d.closeImplied impliedEnds
        { d with stack := d.stack.filter (· != n) }
      else d

def replaceBody (d : Draft) (tag : Tag) : Draft :=
  if d.framesetAllowed then
    match d.body? with
    | none => d
    | some body =>
      let d := { d with tree := d.tree.detach body, stack := d.stack.drop (d.stack.length - 1) }
      { d.openTag tag with mode := .inFrameset }
  else d

def startInBody (d : Draft) (tag : Tag) : Draft :=
  match tag.name with
  | "body" =>
    match d.body? with
    | some body =>
      if d.hasOpen "template" then d
      else { d.forbidFrameset with tree := d.tree.addMissing body (plainAttrs tag) }
    | none => d
  | "frameset" => d.replaceBody tag
  | "pre" => { (d.closeParagraphInScope.openTag tag).forbidFrameset with dropsLineFeed := true }
  | "listing" =>
    { (d.closeParagraphInScope.openTag tag).forbidFrameset with dropsLineFeed := true }
  | "form" =>
    let inTemplate := d.hasOpen "template"
    if d.form.isSome && !inTemplate then d
    else
      let d := d.closeParagraphInScope
      let n := d.tree.size
      let d := d.openTag tag
      if inTemplate then d else { d with form := some n }
  | "li" => d.openItem tag ["li"]
  | "dd" => d.openItem tag ["dd", "dt"]
  | "dt" => d.openItem tag ["dd", "dt"]
  | "plaintext" => { d.closeParagraphInScope.openTag tag with reading := .plain }
  | "button" =>
    let d :=
      if d.inScope .usual "button" then (d.closeImplied impliedEnds).popThroughNamed "button" else d
    (d.reopen.openTag tag).forbidFrameset
  | "a" => d.closeLink.reopen.openFormatting tag
  | "nobr" =>
    let d := d.reopen
    let d := if d.inScope .usual "nobr" then (d.adopt "nobr").reopen else d
    d.openFormatting tag
  | "applet" => (d.reopen.openTag tag).pushBorder.forbidFrameset
  | "marquee" => (d.reopen.openTag tag).pushBorder.forbidFrameset
  | "object" => (d.reopen.openTag tag).pushBorder.forbidFrameset
  | "table" =>
    let d := if d.oldWays then d else d.closeParagraphInScope
    { (d.openTag tag).forbidFrameset with mode := .inTable }
  | "area" => (d.reopen.insertTag tag).forbidFrameset
  | "br" => (d.reopen.insertTag tag).forbidFrameset
  | "embed" => (d.reopen.insertTag tag).forbidFrameset
  | "img" => (d.reopen.insertTag tag).forbidFrameset
  | "image" => (d.reopen.insertTag { tag with name := "img" }).forbidFrameset
  | "keygen" => (d.reopen.insertTag tag).forbidFrameset
  | "wbr" => (d.reopen.insertTag tag).forbidFrameset
  | "input" =>
    let d := d.reopen.insertTag tag
    if isHidden tag then d else d.forbidFrameset
  | "param" => d.insertTag tag
  | "source" => d.insertTag tag
  | "track" => d.insertTag tag
  | "hr" => (d.closeParagraphInScope.insertTag tag).forbidFrameset
  | "textarea" =>
    { d.forbidFrameset.openRaw tag (.escapable "textarea") with dropsLineFeed := true }
  | "xmp" => d.closeParagraphInScope.reopen.forbidFrameset.openRaw tag (.raw "xmp")
  | "iframe" => d.forbidFrameset.openRaw tag (.raw "iframe")
  | "noembed" => d.openRaw tag (.raw "noembed")
  | "noscript" => d.openRaw tag (.raw "noscript")
  | "select" =>
    let inTable := [Mode.inTable, .inCaption, .inTableBody, .inRow, .inCell].contains d.mode
    let d := (d.reopen.openTag tag).forbidFrameset
    { d with mode := if inTable then .inSelectInTable else .inSelect }
  | "optgroup" => (if d.currentIs "option" then d.pop else d).reopen.openTag tag
  | "option" => (if d.currentIs "option" then d.pop else d).reopen.openTag tag
  | "rb" => (if d.inScope .usual "ruby" then d.closeImplied impliedEnds else d).openTag tag
  | "rtc" => (if d.inScope .usual "ruby" then d.closeImplied impliedEnds else d).openTag tag
  | "rp" => (if d.inScope .usual "ruby" then d.closeImpliedBut "rtc" else d).openTag tag
  | "rt" => (if d.inScope .usual "ruby" then d.closeImpliedBut "rtc" else d).openTag tag
  | "math" => d.reopen.enterForeign .mathml tag
  | "svg" => d.reopen.enterForeign .svg tag
  | name =>
    if blockTags.contains name then d.closeParagraphInScope.openTag tag
    else if headings.contains name then
      let d := d.closeParagraphInScope
      (if d.currentIn headings then d.pop else d).openTag tag
    else if formattingTags.contains name then d.reopen.openFormatting tag
    else if misplacedTags.contains name then d
    else d.reopen.openTag tag

def closeInBody (d : Draft) (name : String) : Draft :=
  match name with
  | "template" => d.closeTemplate
  | "body" => if d.inScope .usual "body" then { d with mode := .afterBody } else d
  | "form" => d.closeForm
  | "p" => (if d.inScope .button "p" then d else d.openNamed "p").closeParagraph
  | "li" =>
    if d.inScope .listItem "li" then (d.closeImpliedBut "li").popThroughNamed "li" else d
  | "dd" => if d.inScope .usual "dd" then (d.closeImpliedBut "dd").popThroughNamed "dd" else d
  | "dt" => if d.inScope .usual "dt" then (d.closeImpliedBut "dt").popThroughNamed "dt" else d
  | "a" => d.adopt name
  | "nobr" => d.adopt name
  | "applet" => closeBordered d name
  | "marquee" => closeBordered d name
  | "object" => closeBordered d name
  | "br" => (d.reopen.insertTag ⟨"br", [], false⟩).forbidFrameset
  | _ =>
    if blockEnds.contains name then
      if d.inScope .usual name then (d.closeImplied impliedEnds).popThroughNamed name else d
    else if headings.contains name then
      if d.anyInScope .usual headings then
        let d := d.closeImplied impliedEnds
        d.popThrough (d.isOneOf headings)
      else d
    else if formattingTags.contains name then d.adopt name
    else d.closeGeneric name
where
  closeBordered (d : Draft) (name : String) : Draft :=
    if d.inScope .usual name then
      ((d.closeImplied impliedEnds).popThroughNamed name).clearToBorder
    else d

def inBody (d : Draft) (input : Input) : Outcome :=
  match input with
  | .char c =>
    if c = '\x00' then .taken d
    else
      let d := d.reopen
      let d := if Token.isBlankChar c then d else d.forbidFrameset
      .taken (d.insertChar c)
  | .comment => .taken d
  | .start tag =>
    if tag.name = "html" then d.mergeRoot tag
    else if headTags.contains tag.name then .taken (d.headTag tag)
    else .taken (d.startInBody tag)
  | .close name =>
    if name = "html" then
      if d.inScope .usual "body" then .again { d with mode := .afterBody } else .taken d
    else .taken (d.closeInBody name)
  | .done => if d.templates.isEmpty then .taken d else d.endTemplates

end Toolwright.Html.Draft
