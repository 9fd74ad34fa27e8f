import Toolwright.Html.Draft.State

/-!
Formatting elements. A formatting element that was closed by something else is opened again in what
follows (`reopen`), and the end tag of one that does not enclose what is open is settled by
`adopt`, which splits elements so that the tree stays a tree.
-/

namespace Toolwright.Html.Draft

def specialNames : List String := [
  "address", "applet", "area", "article", "aside", "base", "basefont", "bgsound", "blockquote",
  "body", "br", "button", "caption", "center", "col", "colgroup", "dd", "details", "dir", "div",
  "dl", "dt", "embed", "fieldset", "figcaption", "figure", "footer", "form", "frame", "frameset",
  "h1", "h2", "h3", "h4", "h5", "h6", "head", "header", "hgroup", "hr", "html", "iframe", "img",
  "input", "isindex", "li", "link", "listing", "main", "marquee", "menu", "meta", "nav", "noembed",
  "noframes", "noscript", "object", "ol", "p", "param", "plaintext", "pre", "script", "section",
  "select", "source", "style", "summary", "table", "tbody", "td", "template", "textarea", "tfoot",
  "th", "thead", "title", "tr", "track", "ul", "wbr", "xmp"]

def isSpecial (d : Draft) (n : Nat) : Bool := d.isOneOf specialNames n

/-- Close what an end tag without rules of its own closes: nothing, if a special element stands
in between. -/
def closeGeneric (d : Draft) (name : String) : Draft :=
  match d.stack.dropWhile fun n => !d.isNamed name n && !d.isSpecial n with
  | [] => d
  | n :: outer => if d.isNamed name n then { d with stack := outer } else d

/-- Formatting since the last border, the latest first. -/
def recent (d : Draft) : List Formatting := d.formatting.takeWhile isFormattingElement

def entryOf (n : Nat) : Formatting → Bool
  | .border => false
  | .element m _ => m == n

def isFormatting (d : Draft) (n : Nat) : Bool := d.formatting.any (entryOf n)

def forget (d : Draft) (n : Nat) : Draft :=
  { d with formatting := d.formatting.eraseP (entryOf n) }

def replaceEntry (n : Nat) (entry : Formatting) (entries : List Formatting) : List Formatting :=
  entries.map fun e => if entryOf n e then entry else e

/-- Open formatting elements again, the earliest first. -/
def reopenAll (d : Draft) : List Formatting → Draft
  | [] => d
  | .border :: rest => reopenAll d rest
  | .element n tag :: rest =>
    let m := d.tree.size
    let d := d.openTag tag
    reopenAll { d with formatting := replaceEntry n (.element m tag) d.formatting } rest

/-- Open again the formatting elements that were closed by something else. -/
def reopen (d : Draft) : Draft :=
  let closed := d.formatting.takeWhile fun entry =>
    match entry with
    | .border => false
    | .element n _ => !d.stack.contains n
  d.reopenAll closed.reverse

def sameTag (a b : Tag) : Bool :=
  a.name == b.name && a.attrs.length == b.attrs.length && a.attrs.all b.attrs.contains

/-- Open a formatting element. Of elements that are alike, only three stay in force. -/
def openFormatting (d : Draft) (tag : Tag) : Draft :=
  let alike := d.recent.filterMap fun entry =>
    match entry with
    | .border => none
    | .element n other => if sameTag tag other then some n else none
  let d := if alike.length < 3 then d else (alike.getLast?.map d.forget).getD d
  let n := d.tree.size
  let d := d.openTag tag
  { d with formatting := .element n tag :: d.formatting }

inductive Bookmark where
  | replace (n : Nat)
  | after (n : Nat)

/-- The state of a split: the last part that was moved, and the elements that stay open, the
innermost first. -/
structure Split where
  draft : Draft
  last : Nat
  bookmark : Bookmark
  kept : List Nat

/-- Go outwards through the elements between the block and the formatting element. Elements that
are no longer formatting are closed, the others are split off for what was moved. -/
def splitBetween (block : Nat) : Nat → Split → List Nat → Split
  | _, s, [] => s
  | count, s, n :: rest =>
    let entry := s.draft.formatting.find? (entryOf n)
    match entry with
    | some (.element _ tag) =>
      if 3 ≤ count then
        splitBetween block (count + 1) { s with draft := s.draft.forget n } rest
      else
        let m := s.draft.tree.size
        let tree := (s.draft.tree.create .html tag.name (plainAttrs tag)).append m s.last
        let formatting := replaceEntry n (.element m tag) s.draft.formatting
        splitBetween block (count + 1)
          { draft := { s.draft with tree := tree, formatting := formatting }
            last := m
            bookmark := if s.last = block then .after m else s.bookmark
            kept := s.kept ++ [m] }
          rest
    | _ => splitBetween block (count + 1) s rest

/-- Put a new entry at its bookmark and drop the old one. -/
def settle (bookmark : Bookmark) (old : Nat) (entry : Formatting) (entries : List Formatting) :
    List Formatting :=
  match bookmark with
  | .replace n => replaceEntry n entry entries
  | .after n =>
    (entries.flatMap fun e => if entryOf n e then [entry, e] else [e]).eraseP (entryOf old)

/-- Split the elements around a block that begins inside a formatting element and ends outside of
it. `inner` are the open elements inside the block, `between` those up to the formatting
element. -/
def splitAround (d : Draft) (formatted : Nat) (tag : Tag) (inner : List Nat) (block : Nat)
    (between outer : List Nat) : Draft :=
  let s := splitBetween block 0 ⟨d, block, .replace formatted, []⟩ between
  let d := { s.draft with
    stack := inner ++ block :: s.kept ++ formatted :: outer
    tree := s.draft.tree.detach s.last }
  let d := d.insertPart (d.placeUnder (outer.head?.getD 0)) s.last
  let m := d.tree.size
  let tree := ((d.tree.create .html tag.name (plainAttrs tag)).moveChildren block m).append block m
  { d with
    tree := tree
    formatting := settle s.bookmark formatted (.element m tag) d.formatting
    stack := inner ++ m :: block :: s.kept ++ outer }

/-- Close a formatting element by its end tag; at most `fuel` blocks are taken out of it. -/
def adoptFrom (name : String) : Nat → Draft → Draft
  | 0, d => d
  | fuel + 1, d =>
    let entry := d.recent.find? fun entry =>
      match entry with
      | .border => false
      | .element _ tag => tag.name == name
    match entry with
    | some (.element formatted tag) =>
      if !d.stack.contains formatted then d.forget formatted
      else if !d.finds Scope.usual.bounds (· == formatted) d.stack then d
      else
        let above := d.stack.takeWhile (· != formatted)
        let outer := (d.stack.dropWhile (· != formatted)).drop 1
        match above.reverse.dropWhile (!d.isSpecial ·) with
        | [] => { d with stack := outer }.forget formatted
        | block :: inner =>
          let between := (above.reverse.takeWhile (!d.isSpecial ·)).reverse
          adoptFrom name fuel (d.splitAround formatted tag inner.reverse block between outer)
    | _ => d.closeGeneric name

def adopt (d : Draft) (name : String) : Draft :=
  match d.stack with
  | n :: _ => if d.isNamed name n && !d.isFormatting n then d.pop else adoptFrom name 8 d
  | [] => d

/-- A link cannot stand in another one: the earlier one is closed. -/
def closeLink (d : Draft) : Draft :=
  let link := d.recent.findSome? fun entry =>
    match entry with
    | .border => none
    | .element n _ => if d.isNamed "a" n then some n else none
  match link with
  | none => d
  | some n =>
    let d := (d.adopt "a").forget n
    { d with stack := d.stack.filter (· != n) }

end Toolwright.Html.Draft
