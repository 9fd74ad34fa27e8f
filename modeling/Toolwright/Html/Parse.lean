import Toolwright.Html.Doctype
import Toolwright.Html.Draft.Rules

/-!
Reading a document. Every text is a document: what is missing is added and what has no place is
dropped or moved.
-/

namespace Toolwright.Html

/-- Line ends are written as line feeds, and a mark of the byte order is dropped. -/
def normalLines : List Char → List Char
  | [] => []
  | '\r' :: '\n' :: rest => '\n' :: normalLines rest
  | '\r' :: rest => '\n' :: normalLines rest
  | c :: rest => c :: normalLines rest

def withoutMark (s : List Char) : List Char :=
  match s with
  | c :: rest => if c.toNat = 0xFEFF then rest else s
  | [] => []

namespace Draft

def feedChars (d : Draft) (cs : List Char) : Draft := cs.foldl (fun d c => d.feed (.char c)) d

/-- A line feed directly behind some start tags is dropped. -/
def withoutLineFeed (drops : Bool) (cs : List Char) : List Char :=
  match cs with
  | '\n' :: rest => if drops then rest else cs
  | _ => cs

def take (d : Draft) (token : Token) : Draft :=
  let drops := d.dropsLineFeed
  let d := { d with dropsLineFeed := false }
  match token with
  | .doctype t =>
    if d.mode = .initial then { d with oldWays := t.oldWays, mode := .beforeHtml } else d
  | .start tag => d.feed (.start tag)
  | .close name => { d.feed (.close name) with reading := .markup }
  | .comment => d.feed .comment
  | .chars cs => d.feedChars (withoutLineFeed drops cs)
  | .done => d.feed .done

def allowsSections (d : Draft) : Bool :=
  d.stack.head?.any fun n => (d.element n).space ≠ .html

def readFrom : Nat → Draft → List Char → Draft
  | 0, d, _ => d
  | fuel + 1, d, s =>
    match Token.next d.reading d.allowsSections s with
    | (.done, _) => d.take .done
    | (token, rest) => readFrom fuel (d.take token) rest

end Draft

def parse (s : List Char) : Document :=
  let text := normalLines (withoutMark s)
  (Draft.readFrom (text.length + 1) Draft.new text).tree.toDocument

end Toolwright.Html
