import Toolwright.Yaml.Cursor

/-!
Anchors, tags and directives, as they are written. A tag is a handle and a suffix; the tag of an
address in angle brackets has an empty handle.
-/

namespace Toolwright.Yaml

def readName (context : Context) (c : Cursor) : Except Fault (List Char × Cursor) :=
  let begun := c.mark
  let c := c.skip 1
  let name := c.rest.takeWhile isWord
  let c := c.skip name.length
  let ends := endsWord c.rest || c.rest.head?.any fun x => "?:,]\x7d%@\x60".toList.contains x
  if name = [] ∨ !ends then .error (c.fault .anchorNameExpected context begun) else .ok (name, c)

/-- What is being read: a tag or the `%TAG` directive, and where it begins. -/
structure TagPlace where
  directive : Bool
  begun : Mark

namespace TagPlace

def sign (p : TagPlace) : Context := if p.directive then .tagDirectiveMark else .tag
def handle (p : TagPlace) : Context := if p.directive then .tagDirectiveHandle else .tag
def uri (p : TagPlace) : Context := if p.directive then .tagDirectiveUri else .tagUri

end TagPlace

/-- `!`, `!!` or a word between two of these signs. Of a tag, the second sign may be missing. -/
def readHandle (p : TagPlace) (c : Cursor) : Except Fault (List Char × Cursor) :=
  if !c.peek '!' then .error (c.fault .tagMarkExpected p.sign p.begun)
  else
    let c := c.skip 1
    let word := c.rest.takeWhile isWord
    let c := c.skip word.length
    if c.peek '!' then .ok ('!' :: (word ++ ['!']), c.skip 1)
    else if p.directive && !word.isEmpty then
      .error (c.fault .tagMarkExpected p.handle p.begun)
    else .ok ('!' :: word, c)

def readOctet (p : TagPlace) (c : Cursor) : Except Fault (Nat × Cursor) :=
  match c.rest with
  | '%' :: a :: b :: _ =>
    match hexValue? a, hexValue? b with
    | some a, some b => .ok (a * 16 + b, c.skip 3)
    | _, _ => .error (c.fault .uriEscapeExpected p.uri p.begun)
  | _ => .error (c.fault .uriEscapeExpected p.uri p.begun)

def readTrail (p : TagPlace) : Nat → Nat → Cursor → Except Fault (Nat × Cursor)
  | 0, value, c => .ok (value, c)
  | n + 1, value, c => do
    let (octet, after) ← readOctet p c
    if octet / 64 = 2 then readTrail p n (value * 64 + octet % 64) after
    else .error (c.fault .uriEscapeTrail p.uri p.begun)

/-- A character of which every octet is written as `%` and two digits. One that has more octets than
it needs is no character and counts as the replacement character. -/
def readEscaped (p : TagPlace) (c : Cursor) : Except Fault (Char × Cursor) := do
  let (octet, after) ← readOctet p c
  let longer := fun (n least lead : Nat) => do
    let (value, c) ← readTrail p n lead after
    .ok (if value < least then Char.ofNat 0xFFFD else Char.ofNat value, c)
  if octet < 0x80 then .ok (Char.ofNat octet, after)
  else if octet / 32 = 6 then longer 1 0x80 (octet % 32)
  else if octet / 16 = 14 then longer 2 0x800 (octet % 16)
  else if octet / 8 = 30 then longer 3 0x10000 (octet % 8)
  else .error (c.fault .uriEscapeLead p.uri p.begun)

/-- Characters of an address; the last three only in angle brackets and directives. -/
def isUri (wide : Bool) (c : Char) : Bool :=
  isWord c || ";/?:@&=+$.%!~*'()".toList.contains c || (wide && (c == ',' || c == '[' || c == ']'))

def uriFrom (p : TagPlace) (wide : Bool) : Nat → Cursor → Except Fault (List Char × Cursor)
  | 0, c => .ok ([], c)
  | fuel + 1, c =>
    match c.rest with
    | [] => .ok ([], c)
    | x :: _ =>
      if !isUri wide x then .ok ([], c)
      else do
        let (y, c) ← if x = '%' then readEscaped p c else .ok (x, c.skip 1)
        let (uri, c) ← uriFrom p wide fuel c
        .ok (y :: uri, c)

/-- An address that continues `head`; together they are not empty. -/
def readUri (p : TagPlace) (wide : Bool) (head : List Char) (c : Cursor) :
    Except Fault (List Char × Cursor) := do
  let (uri, c) ← uriFrom p wide (c.rest.length + 1) c
  if head = [] ∧ uri = [] then .error (c.fault .tagUriExpected p.uri p.begun)
  else .ok (head.drop 1 ++ uri, c)

structure TagText where
  handle : List Char
  suffix : List Char
  deriving DecidableEq, Repr

def isFullHandle (handle : List Char) : Bool := 1 < handle.length && handle.getLast? == some '!'

def readTagText (p : TagPlace) (c : Cursor) : Except Fault (TagText × Cursor) :=
  if c.peekAt 1 '<' then do
    let (uri, c) ← readUri p true [] (c.skip 2)
    if c.peek '>' then .ok (⟨[], uri⟩, c.skip 1)
    else .error (c.fault .tagCloseExpected .tag p.begun)
  else do
    let (handle, c) ← readHandle p c
    if isFullHandle handle then
      let (suffix, c) ← readUri p false [] c
      .ok (⟨handle, suffix⟩, c)
    else
      let (suffix, c) ← readUri p false handle c
      .ok (if suffix = [] then ⟨[], ['!']⟩ else ⟨['!'], suffix⟩, c)

/-- A tag. Behind it stands white space or, in a flow collection, a comma. -/
def readTag (flow : Bool) (c : Cursor) : Except Fault (TagText × Cursor) := do
  let begun := c.mark
  let (tag, c) ← readTagText ⟨false, begun⟩ c
  if endsWord c.rest || (flow && c.peek ',') then .ok (tag, c)
  else .error (c.fault .blankOrBreakExpected .tag begun)

def readVersionNumber (begun : Mark) (c : Cursor) : Except Fault (Nat × Cursor) :=
  let digits := c.rest.takeWhile (·.isDigit)
  if 9 < digits.length then .error ((c.skip 9).fault .versionTooLong .versionDirective begun)
  else if digits = [] then .error (c.fault .versionExpected .versionDirective begun)
  else .ok (digits.foldl (fun n d => n * 10 + (d.toNat - 48)) 0, c.skip digits.length)

inductive Directive where
  | version (major minor : Nat)
  | tag (handle meaning : List Char)

def readVersion (begun : Mark) (c : Cursor) : Except Fault (Directive × Cursor) := do
  let (major, c) ← readVersionNumber begun (c.skipWhile isBlank)
  if c.peek '.' then
    let (minor, c) ← readVersionNumber begun (c.skip 1)
    .ok (.version major minor, c)
  else .error (c.fault .versionPointExpected .versionDirective begun)

def readTagDirective (begun : Mark) (c : Cursor) : Except Fault (Directive × Cursor) := do
  let (handle, c) ← readHandle ⟨true, begun⟩ (c.skipWhile isBlank)
  if c.rest.head?.any isBlank then
    let (meaning, c) ← readUri ⟨true, begun⟩ true [] (c.skipWhile isBlank)
    if endsWord c.rest then .ok (.tag handle meaning, c)
    else .error (c.fault .blankOrBreakExpected .tagDirective begun)
  else .error (c.fault .blankExpected .tagDirective begun)

/-- A directive and the mark behind it; the rest of its line is passed over. -/
def readDirective (c : Cursor) : Except Fault (Directive × Mark × Cursor) := do
  let begun := c.mark
  let c := c.skip 1
  let name := c.rest.takeWhile isWord
  let c := c.skip name.length
  if name = [] then .error (c.fault .directiveNameExpected .directive begun)
  else if !endsWord c.rest then .error (c.fault .directiveNameCharacter .directive begun)
  else
    let (directive, c) ←
      if name = "YAML".toList then readVersion begun c
      else if name = "TAG".toList then readTagDirective begun c
      else .error (c.fault .unknownDirective .directive begun)
    let after ← c.finishLine .directive begun
    .ok (directive, c.mark, after)

end Toolwright.Yaml
