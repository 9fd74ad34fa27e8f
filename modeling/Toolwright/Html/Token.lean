import Toolwright.Html.Reference

/-!
Tokens of a document. What the characters of a document mean depends on where they stand: inside
some elements only the end tag of the element is markup. `next` takes one token off a text for a
given `Reading` and answers with the text behind it, which is shorter.
-/

namespace Toolwright.Html

structure Tag where
  name : String
  /-- Names and values, each name once. -/
  attrs : List (String × String)
  selfClosing : Bool
  deriving DecidableEq, Repr

structure Doctype where
  name : Option String
  publicId : Option String
  systemId : Option String
  /-- The declaration is too broken to be believed. -/
  broken : Bool
  deriving DecidableEq, Repr

inductive Token where
  | doctype (d : Doctype)
  | start (tag : Tag)
  | close (name : String)
  | comment
  | chars (cs : List Char)
  | done

/-- How characters are read. The name is that of the element whose end tag is looked for. -/
inductive Reading where
  | markup
  /-- References count, tags do not. -/
  | escapable (name : String)
  | raw (name : String)
  /-- Raw, but comments can hide the end tag. -/
  | script
  /-- Nothing is markup any more. -/
  | plain
  deriving DecidableEq, Repr

namespace Token

def isSpace (c : Char) : Bool :=
  c == ' ' || c == '\t' || c == '\n' || c == '\x0c'

/-- White space between tags; a carriage return can still come from a reference. -/
def isBlankChar (c : Char) : Bool := isSpace c || c == '\r'

def shown (c : Char) : Char := if c = '\x00' then Reference.replacement else c

def nameOf (s : List Char) : String := String.ofList (s.map fun c => shown c.toLower)

def skipSpace (s : List Char) : List Char := s.dropWhile isSpace

/-- The text behind a first `mark`; nothing when there is none. -/
def behind (mark : Char) (s : List Char) : List Char := (s.dropWhile (· != mark)).drop 1

def valueOf (raw : List Char) : String :=
  String.ofList ((Reference.expand true raw).map shown)

/-- A quoted value and the text behind its quote; nothing when it does not end. -/
def quotedValue (quote : Char) (quoted : List Char) : Option (String × List Char) :=
  match quoted.dropWhile (· != quote) with
  | [] => none
  | _ :: rest => some (valueOf (quoted.takeWhile (· != quote)), rest)

/-- Attributes in front of the end of a tag, whether the tag closes itself, and the text behind
it; nothing when the text ends inside the tag. At most `fuel` attributes and slashes are read. -/
def attributes : Nat → List (String × String) → List Char →
    Option (List (String × String) × Bool × List Char)
  | 0, _, _ => none
  | fuel + 1, found, s =>
    match skipSpace s with
    | [] => none
    | '>' :: rest => some (found, false, rest)
    | '/' :: '>' :: rest => some (found, true, rest)
    | '/' :: rest => attributes fuel found rest
    | c :: rest =>
      let ends := fun d => isSpace d || d == '/' || d == '>' || d == '='
      let name := nameOf (c :: rest.takeWhile (!ends ·))
      let add := fun value =>
        if found.any (·.1 == name) then found else found ++ [(name, value)]
      match skipSpace (rest.dropWhile (!ends ·)) with
      | '=' :: after =>
        match skipSpace after with
        | '"' :: quoted =>
          (quotedValue '"' quoted).bind fun (value, rest) => attributes fuel (add value) rest
        | '\'' :: quoted =>
          (quotedValue '\'' quoted).bind fun (value, rest) => attributes fuel (add value) rest
        | '>' :: rest => some (add "", false, rest)
        | value =>
          let stops := fun d => isSpace d || d == '>'
          attributes fuel (add (valueOf (value.takeWhile (!stops ·)))) (value.dropWhile (!stops ·))
      | after => attributes fuel (add "") after

def endsName (c : Char) : Bool := isSpace c || c == '/' || c == '>'

/-- A tag behind its first bracket and slash; the text begins with a letter. -/
def tag? (s : List Char) : Option (Tag × List Char) :=
  let rest := s.dropWhile (!endsName ·)
  match attributes (rest.length + 1) [] rest with
  | none => none
  | some (attrs, selfClosing, rest) =>
    some (⟨nameOf (s.takeWhile (!endsName ·)), attrs, selfClosing⟩, rest)

/-- Whether the text is the end tag of a name, the slash before it already read. -/
def isEndOf (name : String) (s : List Char) : Bool :=
  let n := name.length
  nameOf (s.take n) == name && (s.drop n).head?.any endsName

/-- The text behind a comment; it begins behind the two dashes. -/
def afterComment (s : List Char) : List Char :=
  match s with
  | '>' :: rest => rest
  | '-' :: '>' :: rest => rest
  | _ => search s
where
  search : List Char → List Char
    | [] => []
    | '-' :: '-' :: '>' :: rest => rest
    | '-' :: '-' :: '!' :: '>' :: rest => rest
    | _ :: rest => search rest

/-- Whether a word begins a text, letters compared without case. -/
def begins (word : String) (s : List Char) : Bool :=
  (s.take word.length).map Char.toLower == word.toList

/-- The second identifier of a document type, or what follows it. -/
def systemPart (d : Doctype) (closed : Bool) (s : List Char) : Doctype :=
  match skipSpace s with
  | [] => { d with broken := true }
  | q :: rest =>
    if q = '"' ∨ q = '\'' then
      let id := String.ofList ((rest.takeWhile (· != q)).map shown)
      match rest.dropWhile (· != q) with
      | [] => { d with systemId := some id, broken := true }
      | _ :: after =>
        { d with systemId := some id, broken := !closed && (skipSpace after).isEmpty }
    else { d with broken := true }

/-- What stands behind the name of a document type; `closed` tells that its bracket was found. -/
def identifiers (d : Doctype) (closed : Bool) (s : List Char) : Doctype :=
  match skipSpace s with
  | [] => { d with broken := !closed }
  | rest =>
    if begins "public" rest then
      match skipSpace (rest.drop 6) with
      | [] => { d with broken := true }
      | q :: rest =>
        if q = '"' ∨ q = '\'' then
          let id := String.ofList ((rest.takeWhile (· != q)).map shown)
          match rest.dropWhile (· != q) with
          | [] => { d with publicId := some id, broken := true }
          | _ :: after =>
            let d := { d with publicId := some id }
            if (skipSpace after).isEmpty then { d with broken := !closed }
            else systemPart d closed after
        else { d with broken := true }
    else if begins "system" rest then systemPart d closed (rest.drop 6)
    else { d with broken := true }

def doctypeOf (s : List Char) : Doctype :=
  let closed := s.contains '>'
  let body := skipSpace (s.takeWhile (· != '>'))
  match body.takeWhile (!isSpace ·) with
  | [] => ⟨none, none, none, true⟩
  | name => identifiers ⟨some (nameOf name), none, none, false⟩ closed (body.dropWhile (!isSpace ·))

def rawText (name : String) : List Char → List Char × List Char
  | [] => ([], [])
  | '<' :: rest =>
    if rest.head? = some '/' ∧ isEndOf name (rest.drop 1) then ([], '<' :: rest)
    else let (text, after) := rawText name rest; ('<' :: text, after)
  | c :: rest => let (text, after) := rawText name rest; (shown c :: text, after)

/-- How far a script is inside a comment and inside a script of its own. -/
inductive Depth where
  | outside
  | comment
  | nested
  deriving DecidableEq

/-- Whether a word such as `script` stands at the beginning, closed as the name of a tag is. -/
def scriptName (s : List Char) : Bool := isEndOf "script" s

/-- Text of a script up to its end tag. The number tells how many dashes stand directly before, at
most two. -/
def scriptText : Depth → Nat → List Char → List Char × List Char
  | _, _, [] => ([], [])
  | depth, dashes, c :: rest =>
    if c = '<' then
      if depth ≠ .nested ∧ rest.head? = some '/' ∧ scriptName (rest.drop 1) then ([], c :: rest)
      else if depth = .outside ∧ begins "!--" rest then put c (scriptText .comment 0 rest)
      else if depth = .comment ∧ scriptName rest then put c (scriptText .nested 0 rest)
      else if depth = .nested ∧ rest.head? = some '/' ∧ scriptName (rest.drop 1) then
        put c (scriptText .comment 0 rest)
      else put c (scriptText depth 0 rest)
    else if c = '-' then put c (scriptText depth (min 2 (dashes + 1)) rest)
    else if c = '>' ∧ dashes = 2 then put c (scriptText .outside 0 rest)
    else put (shown c) (scriptText depth 0 rest)
where
  put (c : Char) (scanned : List Char × List Char) : List Char × List Char :=
    (c :: scanned.1, scanned.2)

/-- The text behind the end of a section, and the text in it. -/
def section_ : List Char → List Char × List Char
  | [] => ([], [])
  | ']' :: ']' :: '>' :: rest => ([], rest)
  | c :: rest => let (text, after) := section_ rest; (c :: text, after)

/-- A start tag; nothing more comes when the text ends inside it. -/
def startTag (s : List Char) : Token × List Char :=
  match tag? s with
  | some (tag, rest) => (.start tag, rest)
  | none => (.done, [])

def endTag (s : List Char) : Token × List Char :=
  match tag? s with
  | some (tag, rest) => (.close tag.name, rest)
  | none => (.done, [])

/-- A declaration behind its bracket and exclamation mark. -/
def declaration (sections : Bool) (s : List Char) : Token × List Char :=
  if begins "--" s then (.comment, afterComment (s.drop 2))
  else if begins "doctype" s then (.doctype (doctypeOf (s.drop 7)), behind '>' s)
  else if sections ∧ s.take 7 = "[CDATA[".toList then
    let (text, rest) := section_ (s.drop 7)
    (.chars text, rest)
  else (.comment, behind '>' s)

/-- A token of markup. In foreign content a section of characters may stand. -/
def markup (sections : Bool) (s : List Char) : Token × List Char :=
  match s with
  | [] => (.done, [])
  | '&' :: rest =>
    match Reference.read false rest with
    | some (text, rest) => (.chars text, rest)
    | none => (.chars ['&'], rest)
  | '<' :: '!' :: rest => declaration sections rest
  | '<' :: '?' :: rest => (.comment, behind '>' rest)
  | '<' :: '/' :: c :: rest =>
    if c.isAlpha then endTag (c :: rest)
    else if c = '>' then (.chars [], rest)
    else (.comment, behind '>' (c :: rest))
  | '<' :: c :: rest => if c.isAlpha then startTag (c :: rest) else (.chars ['<'], c :: rest)
  | c :: rest => (.chars [c], rest)

def untilEnd (scanned : List Char × List Char) : Token × List Char :=
  match scanned with
  | ([], []) => (.done, [])
  | ([], rest) => endTag (rest.drop 2)
  | (text, rest) => (.chars text, rest)

def next (reading : Reading) (sections : Bool) (s : List Char) : Token × List Char :=
  match reading with
  | .markup => markup sections s
  | .escapable name =>
    let (text, rest) := untilEnd (rawText name s)
    match text with
    | .chars cs => (.chars (Reference.expand false cs), rest)
    | token => (token, rest)
  | .raw name => untilEnd (rawText name s)
  | .script => untilEnd (scriptText .outside 0 s)
  | .plain => if s.isEmpty then (.done, []) else (.chars (s.map shown), [])

end Token

end Toolwright.Html
