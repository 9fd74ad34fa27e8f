import Toolwright.Yaml.Cursor

/-!
The texts of scalars: plain ones, those in quotes, and blocks. Line ends inside a scalar are folded:
a single one becomes a space, and of several the first is dropped.
-/

namespace Toolwright.Yaml

inductive Style where
  | plain
  | singleQuoted
  | doubleQuoted
  | literal
  | folded
  deriving DecidableEq, Repr

/-- White space between words: blanks of the first line, its end, and further line ends. -/
structure Gap where
  blanks : List Char
  first : List Char
  more : List Char
  /-- Whether a line ended. -/
  broken : Bool

def Gap.none : Gap := ⟨[], [], [], false⟩

def Gap.fold (g : Gap) : List Char :=
  if g.broken then
    if g.first = ['\n'] then if g.more = [] then [' '] else g.more else g.first ++ g.more
  else g.blanks

/-- Read white space; `refuse` tells of a blank at the beginning of a line whether it is refused. -/
def readGap (refuse : Cursor → Bool) : Nat → Gap → Cursor → Except Cursor (Gap × Cursor)
  | 0, g, c => .ok (g, c)
  | fuel + 1, g, c =>
    match c.rest with
    | [] => .ok (g, c)
    | x :: _ =>
      if isBlank x then
        if g.broken then
          if refuse c then .error c else readGap refuse fuel g (c.skip 1)
        else readGap refuse fuel { g with blanks := g.blanks ++ [x] } (c.skip 1)
      else if isBreak x then
        let (text, c) := c.readLine
        if g.broken then readGap refuse fuel { g with more := g.more ++ text } c
        else readGap refuse fuel ⟨[], text, [], true⟩ c
      else .ok (g, c)

def isFlowIndicator (c : Char) : Bool :=
  c == ',' || c == '[' || c == ']' || c == '\x7b' || c == '\x7d'

/-- The characters of a plain scalar up to white space or its end. -/
def plainWord (flow : Bool) : Nat → Cursor → Except Cursor (List Char × Cursor)
  | 0, c => .ok ([], c)
  | fuel + 1, c =>
    match c.rest with
    | [] => .ok ([], c)
    | x :: rest =>
      if isBlank x || isBreak x then .ok ([], c)
      else if flow && x == ':' && rest.head?.any (fun y => isFlowIndicator y || y == '?') then
        .error c
      else if (x == ':' && endsWord rest) || (flow && isFlowIndicator x) then .ok ([], c)
      else do
        let (word, c) ← plainWord flow fuel (c.skip 1)
        .ok (x :: word, c)

/-- A scalar that was read: its text, where it ends, and whether a line ended behind it. -/
structure Read where
  text : List Char
  finish : Mark
  broken : Bool
  cursor : Cursor

/-- Read a plain scalar behind a gap. `indent` is the column that further lines have to reach. -/
def plainFrom (flow : Bool) (indent : Int) (begun : Mark) :
    Nat → Read → Gap → Except Fault Read
  | 0, r, _ => .ok r
  | fuel + 1, r, gap =>
    let c := r.cursor
    if c.atDocumentMark || c.peek '#' then .ok r
    else
      match plainWord flow (c.rest.length + 1) c with
      | .error c => .error (c.fault .colonInPlain .plainScalar begun)
      | .ok (word, after) =>
        let r : Read :=
          if word = [] then r
          else ⟨r.text ++ gap.fold ++ word, after.mark, false, after⟩
        let gap := if word = [] then gap else Gap.none
        if !(after.rest.head?.any fun x => isBlank x || isBreak x) then .ok r
        else
          let refuse := fun (c : Cursor) => decide ((c.mark.column : Int) < indent) && c.peek '\t'
          match readGap refuse (after.rest.length + 1) gap after with
          | .error c => .error (c.fault .tabInPlain .plainScalar begun)
          | .ok (gap, c) =>
            let r := { r with broken := gap.broken, cursor := c }
            if !flow && decide ((c.mark.column : Int) < indent) then .ok r
            else plainFrom flow indent begun fuel r gap

def readPlain (flow : Bool) (indent : Int) (c : Cursor) : Except Fault Read :=
  plainFrom flow (indent + 1) c.mark (c.rest.length + 1) ⟨[], c.mark, false, c⟩ Gap.none

def escapeOf? (c : Char) : Option Char :=
  match c with
  | '0' => some '\x00'
  | 'a' => some '\x07'
  | 'b' => some '\x08'
  | 't' => some '\t'
  | '\t' => some '\t'
  | 'n' => some '\n'
  | 'v' => some '\x0b'
  | 'f' => some '\x0c'
  | 'r' => some '\r'
  | 'e' => some '\x1b'
  | ' ' => some ' '
  | '"' => some '"'
  | '/' => some '/'
  | '\\' => some '\\'
  | 'N' => some (Char.ofNat 0x85)
  | '_' => some (Char.ofNat 0xA0)
  | 'L' => some (Char.ofNat 0x2028)
  | 'P' => some (Char.ofNat 0x2029)
  | _ => none

/-- How many hexadecimal digits follow a letter behind a backslash. -/
def escapeLength? (c : Char) : Option Nat :=
  match c with
  | 'x' => some 2
  | 'u' => some 4
  | 'U' => some 8
  | _ => none

def hexNumber? (digits : List Char) : Option Nat :=
  digits.foldl (fun n c => do some ((← n) * 16 + (← hexValue? c))) (some 0)

def readEscape (begun : Mark) (c : Cursor) : Except Fault (Char × Cursor) :=
  let fail := fun (p : Problem) (c : Cursor) => Except.error (c.fault p .quotedEscape begun)
  match (c.rest.drop 1).head? with
  | none => fail .unknownEscape c
  | some x =>
    match escapeOf? x, escapeLength? x with
    | some y, _ => .ok (y, c.skip 2)
    | none, none => fail .unknownEscape c
    | none, some n =>
      let digits := (c.rest.drop 2).take n
      match if digits.length = n then hexNumber? digits else none with
      | none => fail .hexExpected (c.skip 2)
      | some value =>
        if (0xD800 ≤ value ∧ value ≤ 0xDFFF) ∨ 0x10FFFF < value then
          fail .escapeOutOfRange (c.skip 2)
        else .ok (Char.ofNat value, c.skip (n + 2))

/-- A word in quotes up to white space, the closing quote or an escaped line end; the answer tells
whether it was the last of these. -/
def quotedWord (single : Bool) (begun : Mark) : Nat → Cursor →
    Except Fault (List Char × Bool × Cursor)
  | 0, c => .ok ([], false, c)
  | fuel + 1, c =>
    match c.rest with
    | [] => .ok ([], false, c)
    | x :: rest =>
      if isBlank x || isBreak x then .ok ([], false, c)
      else if single && x == '\'' && rest.head? == some '\'' then do
        let (word, escaped, c) ← quotedWord single begun fuel (c.skip 2)
        .ok ('\'' :: word, escaped, c)
      else if x == (if single then '\'' else '"') then .ok ([], false, c)
      else if !single && x == '\\' then
        if rest.head?.any isBreak then .ok ([], true, (c.skip 1).skipLine)
        else do
          let (y, c) ← readEscape begun c
          let (word, escaped, c) ← quotedWord single begun fuel c
          .ok (y :: word, escaped, c)
      else do
        let (word, escaped, c) ← quotedWord single begun fuel (c.skip 1)
        .ok (x :: word, escaped, c)

def quotedFrom (single : Bool) (begun : Mark) : Nat → List Char → Cursor →
    Except Fault (List Char × Cursor)
  | 0, text, c => .ok (text, c)
  | fuel + 1, text, c =>
    if c.atDocumentMark then .error (c.fault .documentMark .quotedScalar begun)
    else if c.rest.isEmpty then .error (c.fault .endOfStream .quotedScalar begun)
    else do
      let (word, escaped, c) ← quotedWord single begun (c.rest.length + 1) c
      let text := text ++ word
      if c.peek (if single then '\'' else '"') then .ok (text, c.skip 1)
      else
        let gap : Gap := if escaped then ⟨[], [], [], true⟩ else Gap.none
        match readGap (fun _ => false) (c.rest.length + 1) gap c with
        | .error c => .error (c.fault .endOfStream .quotedScalar begun)
        | .ok (gap, c) => quotedFrom single begun fuel (text ++ gap.fold) c

def readQuoted (single : Bool) (c : Cursor) : Except Fault Read := do
  let (text, after) ← quotedFrom single c.mark (c.rest.length + 1) [] (c.skip 1)
  .ok ⟨text, after.mark, false, after⟩

inductive Chomping where
  | strip
  | clip
  | keep
  deriving DecidableEq

def chomping? (c : Cursor) : Option Chomping :=
  if c.peek '+' then some .keep else if c.peek '-' then some .strip else none

/-- The indentation that a block names, if it names one. -/
def readIndentation (begun : Mark) (c : Cursor) : Except Fault (Nat × Cursor) :=
  match c.rest.head? with
  | some x =>
    if x == '0' then .error (c.fault .zeroIndentation .blockScalar begun)
    else if x.isDigit then .ok (x.toNat - 48, c.skip 1)
    else .ok (0, c)
  | none => .ok (0, c)

/-- Chomping and indentation of a block, in either order. -/
def readBlockHead (begun : Mark) (c : Cursor) : Except Fault (Chomping × Nat × Cursor) :=
  match chomping? c with
  | some chomping => do
    let (n, c) ← readIndentation begun (c.skip 1)
    .ok (chomping, n, c)
  | none => do
    let (n, c) ← readIndentation begun c
    match if n = 0 then none else chomping? c with
    | some chomping => .ok (chomping, n, c.skip 1)
    | none => .ok (.clip, n, c)

/-- Line ends and indentation in front of a line of a block. `indent` is 0 as long as it is not
known; the answer has the line ends, the deepest column and the place behind the last line end. -/
def blockBreaks (begun : Mark) (indent : Nat) : Nat → List Char → Nat → Mark → Cursor →
    Except Fault (List Char × Nat × Mark × Cursor)
  | 0, breaks, deepest, finish, c => .ok (breaks, deepest, finish, c)
  | fuel + 1, breaks, deepest, finish, c =>
    let spaces := (c.rest.takeWhile (· == ' ')).length
    let c := c.skip (if indent = 0 then spaces else min spaces (indent - c.mark.column))
    let deepest := max deepest c.mark.column
    if (indent = 0 ∨ c.mark.column < indent) ∧ c.peek '\t' then
      .error (c.fault .tabInIndentation .blockScalar begun)
    else if c.rest.head?.any isBreak then
      let (text, c) := c.readLine
      blockBreaks begun indent fuel (breaks ++ text) deepest c.mark c
    else .ok (breaks, deepest, finish, c)

/-- The lines of a block, joined. `last` is the line end behind the line before, `blank` tells
whether that line began with white space. -/
def blockLines (literal : Bool) (indent : Nat) (begun : Mark) : Nat → List Char → List Char →
    List Char → Bool → Mark → Cursor →
    Except Fault (List Char × List Char × List Char × Mark × Cursor)
  | 0, text, last, breaks, _, finish, c => .ok (text, last, breaks, finish, c)
  | fuel + 1, text, last, breaks, blank, finish, c =>
    if c.mark.column ≠ indent ∨ c.rest.isEmpty then .ok (text, last, breaks, finish, c)
    else do
      let nowBlank := c.rest.head?.any isBlank
      let joint :=
        if !literal && last == ['\n'] && !blank && !nowBlank then
          if breaks = [] then [' '] else []
        else last
      let line := c.rest.takeWhile (!isBreak ·)
      let (last, c) := (c.skip line.length).readLine
      let (more, _, finish, c) ← blockBreaks begun indent (c.rest.length + 1) [] 0 c.mark c
      blockLines literal indent begun fuel (text ++ joint ++ breaks ++ line) last more nowBlank
        finish c

def readBlock (literal : Bool) (enclosing : Int) (c : Cursor) : Except Fault Read := do
  let begun := c.mark
  let (chomping, named, c) ← readBlockHead begun (c.skip 1)
  let c ← c.finishLine .blockScalar begun
  let known := if named = 0 then 0 else (max enclosing 0).toNat + named
  let (breaks, deepest, finish, c) ← blockBreaks begun known (c.rest.length + 1) [] 0 c.mark c
  let indent := if known = 0 then max (max deepest (enclosing + 1).toNat) 1 else known
  let (text, last, breaks, finish, c) ←
    blockLines literal indent begun (c.rest.length + 1) [] [] breaks false finish c
  let text := if chomping = .strip then text else text ++ last
  let text := if chomping = .keep then text ++ breaks else text
  .ok ⟨text, finish, true, c⟩

end Toolwright.Yaml
