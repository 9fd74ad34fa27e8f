import Toolwright.Yaml.Scalar
import Toolwright.Yaml.Tag

/-!
Tokens of a YAML text. Indentation becomes tokens of its own. A key is known only by the colon
behind it, so where one may begin the place is kept, and its token is put in when the colon comes.
Tokens behind such a place are held back until it is decided; a fault loses those held back.
-/

namespace Toolwright.Yaml

inductive Token.Kind where
  | version (major minor : Nat)
  | tagMeaning (handle meaning : List Char)
  | documentStart
  | documentEnd
  | blockSequence
  | blockMapping
  | blockEnd
  | flowSequence
  | flowSequenceEnd
  | flowMapping
  | flowMappingEnd
  | dash
  | comma
  | key
  | value
  | alias (name : List Char)
  | anchor (name : List Char)
  | tag (t : TagText)
  | scalar (text : List Char) (style : Style)
  | streamEnd
  deriving DecidableEq

structure Token where
  kind : Token.Kind
  start : Mark
  finish : Mark

structure KeyPlace where
  /-- How many tokens stand before it. -/
  number : Nat
  mark : Mark
  /-- Nothing but a key may begin there. -/
  required : Bool

structure Scanner where
  cursor : Cursor
  /-- All tokens up to here, the last one first. -/
  tokens : List Token
  /-- How many tokens are held back no longer. -/
  released : Nat
  /-- Column of the block that is being read. -/
  indent : Int
  /-- Columns of the blocks around it, innermost first. -/
  indents : List Int
  /-- Where a key may begin, of what is being read. -/
  key : Option KeyPlace
  /-- The same for what is around each open bracket, innermost first. -/
  outerKeys : List (Option KeyPlace)
  /-- Whether a key may begin here. -/
  keyAllowed : Bool

namespace Scanner

def ofText (s : List Char) : Scanner :=
  { cursor := ⟨s, .start⟩
    tokens := []
    released := 0
    indent := -1
    indents := []
    key := none
    outerKeys := []
    keyAllowed := true }

def inFlow (s : Scanner) : Bool := !s.outerKeys.isEmpty

def mark (s : Scanner) : Mark := s.cursor.mark

def count (s : Scanner) : Nat := s.tokens.length

def push (s : Scanner) (kind : Token.Kind) (start finish : Mark) : Scanner :=
  { s with tokens := ⟨kind, start, finish⟩ :: s.tokens }

/-- Put in a token of no length so that `number` tokens stand before it. -/
def insert (s : Scanner) (number : Nat) (kind : Token.Kind) (mark : Mark) : Scanner :=
  let later := s.count - number
  { s with tokens := s.tokens.take later ++ ⟨kind, mark, mark⟩ :: s.tokens.drop later }

def take (s : Scanner) (kind : Token.Kind) (n : Nat) : Scanner :=
  let after := s.cursor.skip n
  { s.push kind s.mark after.mark with cursor := after }

def unfinished (s : Scanner) (k : KeyPlace) : Fault :=
  s.cursor.fault .keyUnfinished .simpleKey k.mark

/-- A key ends on its line and has no more than 1024 characters. -/
def isStale (s : Scanner) (k : KeyPlace) : Bool :=
  decide (k.mark.line < s.mark.line ∨ k.mark.index + 1024 < s.mark.index)

/-- Give up the places where a key can begin no longer. -/
def expire (s : Scanner) : Except Fault Scanner :=
  let keep := fun (k : Option KeyPlace) => k.filter (!s.isStale ·)
  match (s.key :: s.outerKeys).reverse.find? (·.any fun k => s.isStale k && k.required) with
  | some (some k) => .error (s.unfinished k)
  | _ => .ok { s with key := keep s.key, outerKeys := s.outerKeys.map keep }

/-- Give up the place where a key may begin, of what is being read. -/
def dropKey (s : Scanner) : Except Fault Scanner :=
  match s.key with
  | some k => if k.required then .error (s.unfinished k) else .ok { s with key := none }
  | none => .ok s

def saveKey (s : Scanner) : Except Fault Scanner := do
  if s.keyAllowed then
    let required := !s.inFlow && s.indent == s.mark.column
    let s ← s.dropKey
    .ok { s with key := some ⟨s.count, s.mark, required⟩ }
  else .ok s

def allow (s : Scanner) (allowed : Bool) : Scanner := { s with keyAllowed := allowed }

/-- Hold back the tokens behind the first place where a key may begin, and no others. -/
def release (s : Scanner) : Scanner :=
  let waits := (s.key :: s.outerKeys).filterMap fun k => k.map (·.number)
  let waits := waits.filter (s.released ≤ ·)
  { s with released := waits.foldl min s.count }

def indentTo (s : Scanner) (column number : Nat) (kind : Token.Kind) (mark : Mark) : Scanner :=
  if s.inFlow || decide ((column : Int) ≤ s.indent) then s
  else { s.insert number kind mark with indents := s.indent :: s.indents, indent := column }

def endBlocks (column : Int) : List Int → Scanner → Scanner
  | [], s => s
  | outer :: rest, s =>
    if s.indent ≤ column then s
    else endBlocks column rest
      { s.push .blockEnd s.mark s.mark with indent := outer, indents := rest }

def dedent (s : Scanner) (column : Int) : Scanner :=
  if s.inFlow then s else endBlocks column s.indents s

def problem (s : Scanner) (p : Problem) : Fault := .at_ p s.mark none

def takeStreamEnd (s : Scanner) : Except Fault Scanner := do
  let m := s.mark
  let m : Mark := if m.column = 0 then m else ⟨m.index, m.line + 1, 0⟩
  let s := { s with cursor := ⟨[], m⟩ }
  let s ← (s.dedent (-1)).dropKey
  .ok ((s.push .streamEnd m m).allow false)

def takeDirective (s : Scanner) : Except Fault Scanner := do
  let s ← (s.dedent (-1)).dropKey
  let (directive, finish, after) ← readDirective s.cursor
  let kind : Token.Kind :=
    match directive with
    | .version major minor => .version major minor
    | .tag handle meaning => .tagMeaning handle meaning
  .ok { (s.push kind s.mark finish).allow false with cursor := after }

def takeDocumentMark (s : Scanner) (kind : Token.Kind) : Except Fault Scanner := do
  let s ← (s.dedent (-1)).dropKey
  .ok ((s.take kind 3).allow false)

def openFlow (s : Scanner) (kind : Token.Kind) : Except Fault Scanner := do
  let s ← s.saveKey
  .ok ({ s with key := none, outerKeys := s.key :: s.outerKeys }.allow true |>.take kind 1)

def closeFlow (s : Scanner) (kind : Token.Kind) : Except Fault Scanner := do
  let s ← s.dropKey
  let s :=
    match s.outerKeys with
    | key :: rest => { s with key := key, outerKeys := rest }
    | [] => s
  .ok ((s.allow false).take kind 1)

def takeComma (s : Scanner) : Except Fault Scanner := do
  let s ← s.dropKey
  .ok ((s.allow true).take .comma 1)

/-- Begin a block at this column; only where a key may begin. -/
def beginBlock (s : Scanner) (kind : Token.Kind) (p : Problem) : Except Fault Scanner :=
  if s.inFlow then .ok s
  else if s.keyAllowed then .ok (s.indentTo s.mark.column s.count kind s.mark)
  else .error (s.problem p)

def takeDash (s : Scanner) : Except Fault Scanner := do
  let s ← s.beginBlock .blockSequence .entryMisplaced
  let s ← s.dropKey
  .ok ((s.allow true).take .dash 1)

def takeKey (s : Scanner) : Except Fault Scanner := do
  let s ← s.beginBlock .blockMapping .keyMisplaced
  let s ← s.dropKey
  .ok ((s.allow !s.inFlow).take .key 1)

def takeValue (s : Scanner) : Except Fault Scanner := do
  match s.key with
  | some k =>
    let s := s.insert k.number .key k.mark
    let s := s.indentTo k.mark.column k.number .blockMapping k.mark
    .ok ({ s with key := none }.allow false |>.take .value 1)
  | none =>
    let s ← s.beginBlock .blockMapping .valueMisplaced
    .ok ((s.allow !s.inFlow).take .value 1)

def takePart (s : Scanner) (read : Cursor → Except Fault (Token.Kind × Mark × Cursor)) :
    Except Fault Scanner := do
  let s ← s.saveKey
  let (kind, finish, after) ← read s.cursor
  .ok { (s.push kind s.mark finish).allow false with cursor := after }

def takeName (s : Scanner) (context : Context) (kind : List Char → Token.Kind) :
    Except Fault Scanner :=
  s.takePart fun c => do
    let (name, after) ← readName context c
    .ok (kind name, after.mark, after)

def takeTag (s : Scanner) : Except Fault Scanner :=
  s.takePart fun c => do
    let (tag, after) ← readTag s.inFlow c
    .ok (.tag tag, after.mark, after)

def takeQuoted (s : Scanner) (single : Bool) : Except Fault Scanner :=
  s.takePart fun c => do
    let r ← readQuoted single c
    .ok (.scalar r.text (if single then .singleQuoted else .doubleQuoted), r.finish, r.cursor)

def takePlain (s : Scanner) : Except Fault Scanner := do
  let s ← s.saveKey
  let r ← readPlain s.inFlow s.indent s.cursor
  .ok { (s.push (.scalar r.text .plain) s.mark r.finish).allow r.broken with cursor := r.cursor }

def takeBlock (s : Scanner) (literal : Bool) : Except Fault Scanner := do
  let s ← s.dropKey
  let r ← readBlock literal s.indent s.cursor
  let kind := Token.Kind.scalar r.text (if literal then .literal else .folded)
  .ok { (s.push kind s.mark r.finish).allow true with cursor := r.cursor }

def skipBlank : Nat → Scanner → Scanner
  | 0, s => s
  | fuel + 1, s =>
    let c := s.cursor
    let c := if c.mark.index = 0 ∧ c.peek (Char.ofNat 0xFEFF) then c.skip 1 else c
    let c := c.skipWhile fun x => x == ' ' || (x == '\t' && (s.inFlow || !s.keyAllowed))
    let c := if c.peek '#' then c.skipWhile (!isBreak ·) else c
    if c.rest.head?.any isBreak then
      skipBlank fuel { s with cursor := c.skipLine, keyAllowed := s.keyAllowed || !s.inFlow }
    else { s with cursor := c }

def isIndicator (c : Char) : Bool := "-?:,[]\x7b\x7d#&*!|>'\"%@\x60".toList.contains c

/-- Whether a plain scalar begins with these characters. -/
def beginsPlain (flow : Bool) (s : List Char) : Bool :=
  match s with
  | [] => false
  | x :: rest =>
    !(isBlank x || isBreak x || isIndicator x) ||
      (x == '-' && !rest.head?.any isBlank) ||
      (!flow && (x == '?' || x == ':') && !endsWord rest)

def next (s : Scanner) : Except Fault Scanner := do
  let s ← (s.skipBlank (s.cursor.rest.length + 1)).expire
  let s := s.dedent s.mark.column
  let alone := endsWord (s.cursor.rest.drop 1)
  match s.cursor.rest with
  | [] => s.takeStreamEnd
  | x :: _ =>
    if s.mark.column = 0 ∧ x = '%' then s.takeDirective
    else if s.cursor.marksDocument '-' then s.takeDocumentMark .documentStart
    else if s.cursor.marksDocument '.' then s.takeDocumentMark .documentEnd
    else if x = '[' then s.openFlow .flowSequence
    else if x = '\x7b' then s.openFlow .flowMapping
    else if x = ']' then s.closeFlow .flowSequenceEnd
    else if x = '\x7d' then s.closeFlow .flowMappingEnd
    else if x = ',' then s.takeComma
    else if x = '-' ∧ alone then s.takeDash
    else if x = '?' ∧ (s.inFlow || alone) then s.takeKey
    else if x = ':' ∧ (s.inFlow || alone) then s.takeValue
    else if x = '*' then s.takeName .alias .alias
    else if x = '&' then s.takeName .anchor .anchor
    else if x = '!' then s.takeTag
    else if x = '|' ∧ !s.inFlow then s.takeBlock true
    else if x = '>' ∧ !s.inFlow then s.takeBlock false
    else if x = '\'' then s.takeQuoted true
    else if x = '"' then s.takeQuoted false
    else if beginsPlain s.inFlow s.cursor.rest then s.takePlain
    else .error (s.cursor.fault .noToken .nextToken s.mark)

def isEnded (s : Scanner) : Bool := s.tokens.head?.any (·.kind == .streamEnd)

/-- All tokens that can be read, and why there are no more. -/
def run : Nat → Scanner → List Token × Option Fault
  | 0, s => (s.tokens.reverse, none)
  | fuel + 1, s =>
    if s.isEnded then (s.tokens.reverse, none)
    else
      let checked := if s.released = s.count then .ok s else s.expire
      match checked with
      | .error f => (s.tokens.reverse.take s.released, some f)
      | .ok s =>
        let s := s.release
        match s.next with
        | .error f => (s.tokens.reverse.take s.released, some f)
        | .ok s => run fuel s

end Scanner

def isAllowed (c : Char) : Bool :=
  let n := c.toNat
  n == 0x09 || n == 0x0A || n == 0x0D || (0x20 ≤ n && n ≤ 0x7E) || n == 0x85 ||
    (0xA0 ≤ n && n ≤ 0xD7FF) || (0xE000 ≤ n && n ≤ 0xFFFD) || 0x10000 ≤ n

/-- The tokens of a text, up to a fault if it has one. A byte order mark at its beginning is passed
over. A control character anywhere makes all of it unreadable. -/
def Token.scan (text : List Char) : List Token × Option Fault :=
  let before := text.takeWhile isAllowed
  if before.length < text.length then
    ([], some (.control (before.foldl (fun n c => n + c.utf8Size) 0)))
  else
    let text := if text.head? = some (Char.ofNat 0xFEFF) then text.drop 1 else text
    Scanner.run (text.length + 3) (.ofText text)

end Toolwright.Yaml
