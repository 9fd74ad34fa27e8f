import Toolwright.Json.Fault

/-!
Reading JSON texts. A `Reader` takes what is left of a text and answers with a value and the rest
behind it, or with a fault. `value` reads a free value of bounded nesting, later members of an
object replacing earlier ones of the same key; `skip` passes over a value of any nesting whose
strings and numbers nobody looks at.
-/

namespace Toolwright.Json

abbrev Reader (α : Type) := List Char → Except Fault (α × List Char)

namespace Reader

/-- How many brackets may be open at once. -/
def nestingLimit : Nat := 127

def isBlank (c : Char) : Bool := c == ' ' || c == '\n' || c == '\t' || c == '\r'

def skipBlank (s : List Char) : List Char := s.dropWhile isBlank

/-- The rest of a literal word whose first letter is read. -/
def word : List Char → List Char → Except Fault (List Char)
  | [], rest => .ok rest
  | _ :: _, [] => .error (.before .endInValue [])
  | w :: ws, c :: rest =>
    if c = w then word ws rest else .error (.atFirst .literalWanted (c :: rest))

def hexValue? (c : Char) : Option Nat :=
  if '0' ≤ c ∧ c ≤ '9' then some (c.toNat - 48)
  else if 'a' ≤ c ∧ c ≤ 'f' then some (c.toNat - 87)
  else if 'A' ≤ c ∧ c ≤ 'F' then some (c.toNat - 55)
  else none

def fourHex (s : List Char) : Except Fault (Nat × List Char) :=
  if Text.byteCount s < 4 then .error (.before .endInString [])
  else
    match s with
    | a :: b :: c :: d :: rest =>
      match hexValue? a, hexValue? b, hexValue? c, hexValue? d with
      | some a, some b, some c, some d => .ok (((a * 16 + b) * 16 + c) * 16 + d, rest)
      | _, _, _, _ => .error ⟨.invalidEscape, Text.byteCount s - 4⟩
    | _ => .error ⟨.invalidEscape, Text.byteCount s - 4⟩

def isLeading (n : Nat) : Bool := 0xD800 ≤ n && n ≤ 0xDBFF

def isTrailing (n : Nat) : Bool := 0xDC00 ≤ n && n ≤ 0xDFFF

/-- The character of a hexadecimal escape; two escapes make one beyond the basic plane. -/
def hexEscape (s : List Char) : Except Fault (Char × List Char) := do
  let (n, rest) ← fourHex s
  if isTrailing n then .error (.before .loneSurrogate rest)
  else if !isLeading n then .ok (Char.ofNat n, rest)
  else
    match rest with
    | [] => .error (.before .endInString [])
    | '\\' :: [] => .error (.before .endInString [])
    | '\\' :: 'u' :: more => do
      let (m, after) ← fourHex more
      if isTrailing m then .ok (Char.ofNat ((n - 0xD800) * 0x400 + (m - 0xDC00) + 0x10000), after)
      else .error (.before .loneSurrogate after)
    | '\\' :: c :: more => .error (.atFirst .endOfEscapeWanted (c :: more))
    | c :: more => .error (.atFirst .endOfEscapeWanted (c :: more))

/-- The character that a backslash and one letter stand for. -/
def shortEscape? (c : Char) : Option Char :=
  if c = '"' then some '"'
  else if c = '\\' then some '\\'
  else if c = '/' then some '/'
  else if c = 'b' then some '\x08'
  else if c = 'f' then some '\x0c'
  else if c = 'n' then some '\n'
  else if c = 'r' then some '\r'
  else if c = 't' then some '\t'
  else none

/-- The characters of a string up to its closing quote, at most `fuel` of them. -/
def stringBody : Nat → Reader (List Char)
  | 0, s => .error (.before .endInString s)
  | _, [] => .error (.before .endInString [])
  | _, '"' :: rest => .ok ([], rest)
  | _, '\\' :: [] => .error (.before .endInString [])
  | fuel + 1, '\\' :: 'u' :: rest => do
    let (c, after) ← hexEscape rest
    let (more, last) ← stringBody fuel after
    .ok (c :: more, last)
  | fuel + 1, '\\' :: e :: rest =>
    match shortEscape? e with
    | none => .error (.atFirst .invalidEscape (e :: rest))
    | some c => do
      let (more, last) ← stringBody fuel rest
      .ok (c :: more, last)
  | fuel + 1, c :: rest =>
    if c.toNat < 0x20 then .error (.before .controlCharacter rest)
    else do
      let (more, last) ← stringBody fuel rest
      .ok (c :: more, last)

def stringTail : Reader String := fun s => do
  let (chars, rest) ← stringBody (s.length + 1) s
  .ok (String.ofList chars, rest)

def isDigit (c : Char) : Bool := '0' ≤ c && c ≤ '9'

def digitValue (c : Char) : Nat := c.toNat - 48

/-- Whether a digit can follow a number within 64 bits. -/
def hasRoom (significand : Nat) (digit : Nat) : Bool :=
  significand * 10 + digit ≤ 0xFFFFFFFFFFFFFFFF

def signed (positive : Bool) (x : Float) : Float := if positive then x else -x

def powerOfTen (n : Nat) : Float := Float.ofScientific 1 false n

/-- Divide by 10³⁰⁸ while the exponent is below that, at most `fuel` times. -/
def scaleDown : Nat → Float → Int → Float × Int
  | 0, x, e => (x, e)
  | fuel + 1, x, e =>
    if e < -308 && x != 0.0 then scaleDown fuel (x / powerOfTen 308) (e + 308) else (x, e)

/-- The product of a significand and a power of ten. One multiplication or division is rounded
after the significand is; only a finite product is a number. -/
def scaled? (positive : Bool) (significand : Nat) (exponent : Int) : Option Float :=
  let x := significand.toUInt64.toFloat
  if 308 < exponent then
    if x == 0.0 then some (signed positive x) else none
  else
    let (y, e) := scaleDown 4 x exponent
    if 0 ≤ e then
      let z := y * powerOfTen e.natAbs
      if z.isInf then none else some (signed positive z)
    else if e < -308 then some (signed positive y)
    else some (signed positive (y / powerOfTen e.natAbs))

def scaledAt (positive : Bool) (significand : Nat) (exponent : Int) (rest : List Char) :
    Except Fault (Number × List Char) :=
  match scaled? positive significand exponent with
  | some x => .ok (.real x, rest)
  | none => .error (.before .numberOutOfRange rest)

/-- Digits of an exponent; beyond 31 bits only its sign counts. -/
def exponentDigits (positive : Bool) (significand : Nat) (base : Int) (up : Bool) (n : Nat) :
    Reader Number
  | [] => scaledAt positive significand (if up then base + n else base - n) []
  | c :: rest =>
    if isDigit c then
      let m := n * 10 + digitValue c
      if m < 0x80000000 then exponentDigits positive significand base up m rest
      else if significand ≠ 0 ∧ up then .error (.before .numberOutOfRange rest)
      else .ok (.real (signed positive 0.0), rest.dropWhile isDigit)
    else scaledAt positive significand (if up then base + n else base - n) (c :: rest)

def exponentPart (positive : Bool) (significand : Nat) (base : Int) (s : List Char) :
    Except Fault (Number × List Char) :=
  let (up, s) :=
    match s with
    | '+' :: rest => (true, rest)
    | '-' :: rest => (false, rest)
    | _ => (true, s)
  match s with
  | [] => .error (.before .endInValue [])
  | c :: rest =>
    if isDigit c then exponentDigits positive significand base up (digitValue c) rest
    else .error (.atFirst .invalidNumber (c :: rest))

def afterFraction (positive : Bool) (significand : Nat) (exponent : Int) (s : List Char) :
    Except Fault (Number × List Char) :=
  match s with
  | 'e' :: rest => exponentPart positive significand exponent rest
  | 'E' :: rest => exponentPart positive significand exponent rest
  | _ => scaledAt positive significand exponent s

/-- Digits behind the point. Those that no longer fit into 64 bits are passed over. -/
def fractionDigits (positive : Bool) (significand : Nat) (base : Int) (seen : Nat) :
    Reader Number
  | [] =>
    if seen = 0 then .error (.before .endInValue [])
    else afterFraction positive significand (base - seen) []
  | c :: rest =>
    if isDigit c then
      if hasRoom significand (digitValue c) then
        fractionDigits positive (significand * 10 + digitValue c) base (seen + 1) rest
      else afterFraction positive significand (base - seen) (rest.dropWhile isDigit)
    else if seen = 0 then .error (.atFirst .invalidNumber (c :: rest))
    else afterFraction positive significand (base - seen) (c :: rest)

/-- Digits before the point that no longer fit into 64 bits. -/
def longDigits (positive : Bool) (significand : Nat) (extra : Nat) : Reader Number
  | '.' :: rest => fractionDigits positive significand extra 0 rest
  | 'e' :: rest => exponentPart positive significand extra rest
  | 'E' :: rest => exponentPart positive significand extra rest
  | [] => scaledAt positive significand extra []
  | c :: rest =>
    if isDigit c then longDigits positive significand (extra + 1) rest
    else scaledAt positive significand extra (c :: rest)

/-- A number without point and exponent. Zero with a sign and what is less than every signed
64-bit number are real. -/
def whole (positive : Bool) (significand : Nat) : Number :=
  if positive then .natural significand.toUInt64
  else if h : 0 < significand ∧ significand ≤ 0x8000000000000000 then
    .negative ⟨significand - 1, by omega⟩
  else .real (-significand.toUInt64.toFloat)

/-- What may follow the digits of a number before the point. -/
def afterInteger (positive : Bool) (significand : Nat) : Reader Number
  | '.' :: rest => fractionDigits positive significand 0 0 rest
  | 'e' :: rest => exponentPart positive significand 0 rest
  | 'E' :: rest => exponentPart positive significand 0 rest
  | s => .ok (whole positive significand, s)

def integerDigits (positive : Bool) (significand : Nat) : Reader Number
  | [] => .ok (whole positive significand, [])
  | c :: rest =>
    if isDigit c then
      if hasRoom significand (digitValue c) then
        integerDigits positive (significand * 10 + digitValue c) rest
      else longDigits positive significand 1 rest
    else afterInteger positive significand (c :: rest)

def number (positive : Bool) : Reader Number
  | [] => .error (.before .endInValue [])
  | '0' :: rest =>
    match rest with
    | c :: _ =>
      if isDigit c then .error (.atFirst .invalidNumber rest)
      else afterInteger positive 0 rest
    | [] => afterInteger positive 0 []
  | c :: rest =>
    if isDigit c then integerDigits positive (digitValue c) rest
    else .error (.atFirst .invalidNumber (c :: rest))

/-- What stands where the next item of a list may begin: the item, or the text behind the closing
bracket. -/
inductive ItemStart where
  | item (rest : List Char)
  | close (rest : List Char)

def itemStart (first : Bool) (s : List Char) : Except Fault ItemStart :=
  match skipBlank s with
  | [] => .error (.before .endInList [])
  | ']' :: rest => .ok (.close rest)
  | ',' :: rest =>
    if first then .ok (.item (',' :: rest))
    else
      match skipBlank rest with
      | [] => .error (.before .endInValue [])
      | ']' :: more => .error (.atFirst .trailingComma (']' :: more))
      | start => .ok (.item start)
  | start => if first then .ok (.item start) else .error (.atFirst .itemEndWanted start)

/-- Items of a list up to its bracket, the opening one read, at most `fuel` of them. -/
def items {α : Type} (item : Reader α) : Nat → Bool → Reader (List α)
  | 0, _, s => .error (.before .endInList s)
  | fuel + 1, first, s => do
    match ← itemStart first s with
    | .close rest => .ok ([], rest)
    | .item start =>
      let (x, rest) ← item start
      let (more, last) ← items item fuel false rest
      .ok (x :: more, last)

/-- What stands where the next member of an object may begin: the text behind the opening quote
of its key, or the text behind the closing brace. -/
inductive MemberStart where
  | key (rest : List Char)
  | close (rest : List Char)

def memberStart (first : Bool) (s : List Char) : Except Fault MemberStart :=
  match skipBlank s with
  | [] => .error (.before .endInObject [])
  | '\x7d' :: rest => .ok (.close rest)
  | '"' :: rest =>
    if first then .ok (.key rest) else .error (.atFirst .memberEndWanted ('"' :: rest))
  | ',' :: rest =>
    if first then .error (.atFirst .keyWanted (',' :: rest))
    else
      match skipBlank rest with
      | [] => .error (.before .endInValue [])
      | '"' :: more => .ok (.key more)
      | '\x7d' :: more => .error (.atFirst .trailingComma ('\x7d' :: more))
      | more => .error (.atFirst .keyWanted more)
  | start =>
    .error (.atFirst (if first then .keyWanted else .memberEndWanted) start)

def colon (s : List Char) : Except Fault (List Char) :=
  match skipBlank s with
  | [] => .error (.before .endInObject [])
  | ':' :: rest => .ok rest
  | start => .error (.atFirst .colonWanted start)

/-- Members of an object up to its brace, the opening one read, at most `fuel` of them. Each is
handed to `add` together with what the members before it made. -/
def members {α σ : Type} (item : Reader α) (add : String → α → σ → σ) :
    Nat → Bool → σ → Reader σ
  | 0, _, _, s => .error (.before .endInObject s)
  | fuel + 1, first, acc, s => do
    match ← memberStart first s with
    | .close rest => .ok (acc, rest)
    | .key start =>
      let (key, afterKey) ← stringTail start
      let afterColon ← colon afterKey
      let (x, rest) ← item afterColon
      members item add fuel false (add key x acc) rest

end Reader

abbrev OrderedObject :=
  { members : List (String × Json) // keysAscend members ∧ OrderedMembers members }

def OrderedObject.insert (key : String) (value : FreeValue) (object : OrderedObject) :
    OrderedObject :=
  ⟨insertMember key value.tree object.val, keysAscend_insertMember key value.tree object.2.1,
    OrderedMembers_insertMember key value.ordered object.2.2⟩

theorem OrderedItems_map : ∀ values : List FreeValue, OrderedItems (values.map (·.tree))
  | [] => trivial
  | v :: rest => ⟨v.ordered, OrderedItems_map rest⟩

def FreeValue.ofItems (values : List FreeValue) : FreeValue :=
  ⟨.array (values.map (·.tree)), show OrderedItems _ from OrderedItems_map values⟩

def FreeValue.ofObject (object : OrderedObject) : FreeValue :=
  ⟨.object object.val, show _ ∧ _ from object.2⟩

namespace Reader

/-- A value, inside which `depth` more brackets may be open at once. -/
def value (depth : Nat) (s : List Char) : Except Fault (FreeValue × List Char) :=
  match skipBlank s with
  | [] => .error (.before .endInValue [])
  | 'n' :: rest => do
    let rest ← word ['u', 'l', 'l'] rest
    .ok (.null, rest)
  | 't' :: rest => do
    let rest ← word ['r', 'u', 'e'] rest
    .ok (⟨.bool true, trivial⟩, rest)
  | 'f' :: rest => do
    let rest ← word ['a', 'l', 's', 'e'] rest
    .ok (⟨.bool false, trivial⟩, rest)
  | '"' :: rest => do
    let (text, rest) ← stringTail rest
    .ok (⟨.string text, trivial⟩, rest)
  | '-' :: rest => do
    let (n, rest) ← number false rest
    .ok (⟨.number n, trivial⟩, rest)
  | '[' :: rest =>
    match depth with
    | 0 => .error (.atFirst .tooDeep ('[' :: rest))
    | depth + 1 => do
      let (values, rest) ← items (value depth) (rest.length + 1) true rest
      .ok (.ofItems values, rest)
  | '\x7b' :: rest =>
    match depth with
    | 0 => .error (.atFirst .tooDeep ('\x7b' :: rest))
    | depth + 1 => do
      let (found, rest) ←
        members (value depth) OrderedObject.insert (rest.length + 1) true
          ⟨[], trivial, trivial⟩ rest
      .ok (.ofObject found, rest)
  | c :: rest =>
    if isDigit c then do
      let (n, rest) ← number true (c :: rest)
      .ok (⟨.number n, trivial⟩, rest)
    else .error (.atFirst .valueWanted (c :: rest))

/-- Pass over a string up to its closing quote, at most `fuel` characters of it. -/
def skipString : Nat → List Char → Except Fault (List Char)
  | 0, s => .error (.before .endInString s)
  | _, [] => .error (.before .endInString [])
  | _, '"' :: rest => .ok rest
  | _, '\\' :: [] => .error (.before .endInString [])
  | fuel + 1, '\\' :: 'u' :: rest => do
    let (_, after) ← fourHex rest
    skipString fuel after
  | fuel + 1, '\\' :: e :: rest =>
    match shortEscape? e with
    | none => .error (.atFirst .invalidEscape (e :: rest))
    | some _ => skipString fuel rest
  | fuel + 1, c :: rest =>
    if c.toNat < 0x20 then .error (.before .controlCharacter (c :: rest)) else skipString fuel rest

/-- Pass over the exponent of a number whose mark is read. -/
def skipExponent (s : List Char) : Except Fault (List Char) :=
  let s :=
    match s with
    | '+' :: rest => rest
    | '-' :: rest => rest
    | _ => s
  match s with
  | [] => .error (.before .invalidNumber [])
  | c :: rest =>
    if isDigit c then .ok (rest.dropWhile isDigit)
    else .error (.atFirst .invalidNumber (c :: rest))

/-- Pass over what may follow the digits of a number before the point. -/
def skipAfterInteger (s : List Char) : Except Fault (List Char) :=
  match s with
  | '.' :: rest =>
    match rest with
    | [] => .error (.before .invalidNumber [])
    | c :: _ =>
      if isDigit c then
        match rest.dropWhile isDigit with
        | 'e' :: more => skipExponent more
        | 'E' :: more => skipExponent more
        | more => .ok more
      else .error (.atFirst .invalidNumber rest)
  | 'e' :: rest => skipExponent rest
  | 'E' :: rest => skipExponent rest
  | _ => .ok s

def skipNumber (s : List Char) : Except Fault (List Char) :=
  match s with
  | [] => .error (.before .invalidNumber [])
  | '0' :: rest =>
    match rest with
    | c :: _ =>
      if isDigit c then .error (.atFirst .invalidNumber rest) else skipAfterInteger rest
    | [] => .ok []
  | c :: rest =>
    if isDigit c then skipAfterInteger (rest.dropWhile isDigit)
    else .error (.atFirst .invalidNumber (c :: rest))

inductive Bracket where
  | list
  | object

def Bracket.close : Bracket → Char
  | .list => ']'
  | .object => '\x7d'

def Bracket.endFault : Bracket → Problem
  | .list => .endInList
  | .object => .endInObject

def Bracket.separatorFault : Bracket → Problem
  | .list => .itemEndWanted
  | .object => .memberEndWanted

/-- Pass over the key of a member and its colon, when a member is what comes next. -/
def skipKey (bracket : Bracket) (s : List Char) : Except Fault (List Char) :=
  match bracket with
  | .list => .ok s
  | .object =>
    match skipBlank s with
    | [] => .error (.before .endInObject [])
    | '"' :: rest => do
      let rest ← skipString (rest.length + 1) rest
      colon rest
    | start => .error (.atFirst .keyWanted start)

/-- Close brackets and pass a comma, so that a value comes next; `none` when the outermost bracket
is closed. `stack` holds the open brackets, the innermost first. -/
def skipBetween : List Bracket → Bool → Nat → List Char →
    Except Fault (Option (List Bracket) × List Char)
  | [], _, _, s => .ok (none, s)
  | bracket :: _, _, 0, s => .error (.before bracket.endFault s)
  | bracket :: outer, afterItem, fuel + 1, s =>
    match skipBlank s with
    | [] => .error (.before bracket.endFault [])
    | c :: rest =>
      if c = ',' ∧ afterItem then do
        let rest ← skipKey bracket rest
        .ok (some (bracket :: outer), rest)
      else if c = bracket.close then skipBetween outer true fuel rest
      else if afterItem then .error (.atFirst bracket.separatorFault (c :: rest))
      else do
        let rest ← skipKey bracket (c :: rest)
        .ok (some (bracket :: outer), rest)

/-- Pass over a scalar or an opening bracket; the answer is the bracket. -/
def skipToken (s : List Char) : Except Fault (Option Bracket × List Char) :=
  match skipBlank s with
  | [] => .error (.before .endInValue [])
  | 'n' :: rest => do .ok (none, ← word ['u', 'l', 'l'] rest)
  | 't' :: rest => do .ok (none, ← word ['r', 'u', 'e'] rest)
  | 'f' :: rest => do .ok (none, ← word ['a', 'l', 's', 'e'] rest)
  | '"' :: rest => do .ok (none, ← skipString (rest.length + 1) rest)
  | '-' :: rest => do .ok (none, ← skipNumber rest)
  | '[' :: rest => .ok (some .list, rest)
  | '\x7b' :: rest => .ok (some .object, rest)
  | c :: rest =>
    if isDigit c then do .ok (none, ← skipNumber (c :: rest))
    else .error (.atFirst .valueWanted (c :: rest))

/-- Pass over values until the outermost open bracket is closed. -/
def skipFrom : Nat → List Bracket → List Char → Except Fault (List Char)
  | 0, _, s => .error (.before .endInValue s)
  | fuel + 1, stack, s => do
    let (opened, rest) ← skipToken s
    match ← skipBetween (opened.toList ++ stack) opened.isNone (rest.length + 1) rest with
    | (none, last) => .ok last
    | (some stack, last) => skipFrom fuel stack last

def skip (s : List Char) : Except Fault (List Char) := skipFrom (s.length + 1) [] s

/-- Read a whole text: white space may follow, nothing else. -/
def readAll {α : Type} (reader : Reader α) (text : List Char) : Except Error α :=
  match reader text with
  | .error fault => .error (fault.locate text)
  | .ok (a, rest) =>
    match skipBlank rest with
    | [] => .ok a
    | start => .error ((Fault.atFirst .trailingCharacters start).locate text)

end Reader

def parse (text : String) : Except Error FreeValue :=
  Reader.readAll (Reader.value Reader.nestingLimit) text.toList

end Toolwright.Json
