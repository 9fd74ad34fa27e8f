import Toolwright.Yaml.Fault

/-!
Cursors: the rest of a text and the place where it begins. Line ends are those of YAML: carriage
return and line feed, alone or together, the next-line character and the line and paragraph
separators.
-/

namespace Toolwright.Yaml

structure Cursor where
  rest : List Char
  mark : Mark

def isBreak (c : Char) : Bool :=
  c == '\n' || c == '\r' || c.toNat == 0x85 || c.toNat == 0x2028 || c.toNat == 0x2029

def isBlank (c : Char) : Bool := c == ' ' || c == '\t'

def isWord (c : Char) : Bool := c.isAlphanum || c == '_' || c == '-'

def hexValue? (c : Char) : Option Nat :=
  if c.isDigit then some (c.toNat - 48)
  else if 'a' ≤ c ∧ c ≤ 'f' then some (c.toNat - 87)
  else if 'A' ≤ c ∧ c ≤ 'F' then some (c.toNat - 55)
  else none

/-- White space, a line end or the end of the text stands first. -/
def endsWord (s : List Char) : Bool := s.head?.all fun c => isBlank c || isBreak c

def endsLine (s : List Char) : Bool := s.head?.all isBreak

namespace Cursor

def peek (c : Cursor) (x : Char) : Bool := c.rest.head? == some x

/-- Whether the character at a distance is the given one. -/
def peekAt (c : Cursor) (n : Nat) (x : Char) : Bool := (c.rest.drop n).head? == some x

def skip (c : Cursor) (n : Nat) : Cursor :=
  ⟨c.rest.drop n, ⟨c.mark.index + n, c.mark.line, c.mark.column + n⟩⟩

/-- Pass over characters of a line as long as they satisfy `p`. -/
def skipWhile (c : Cursor) (p : Char → Bool) : Cursor := c.skip (c.rest.takeWhile p).length

/-- Pass over a line end: what it stands for in a scalar, and the cursor behind it. -/
def readLine (c : Cursor) : List Char × Cursor :=
  let next := fun (n : Nat) => Cursor.mk (c.rest.drop n) ⟨c.mark.index + n, c.mark.line + 1, 0⟩
  match c.rest with
  | '\r' :: '\n' :: _ => (['\n'], next 2)
  | x :: _ =>
    if isBreak x then
      (if x.toNat = 0x2028 ∨ x.toNat = 0x2029 then [x] else ['\n'], next 1)
    else ([], c)
  | [] => ([], c)

def skipLine (c : Cursor) : Cursor := c.readLine.2

/-- Whether a line begins here with three characters `x` that stand alone. -/
def marksDocument (c : Cursor) (x : Char) : Bool :=
  c.mark.column == 0 && c.rest.take 3 == [x, x, x] && endsWord (c.rest.drop 3)

def atDocumentMark (c : Cursor) : Bool := c.marksDocument '-' || c.marksDocument '.'

def fault (c : Cursor) (problem : Problem) (context : Context) (begun : Mark) : Fault :=
  .at_ problem c.mark (some (context, begun))

/-- Pass over the rest of a line, which may hold nothing but a comment, and its end. -/
def finishLine (c : Cursor) (context : Context) (begun : Mark) : Except Fault Cursor :=
  let c := c.skipWhile isBlank
  let c := if c.peek '#' then c.skipWhile (!isBreak ·) else c
  if endsLine c.rest then .ok c.skipLine else .error (c.fault .lineEndExpected context begun)

end Cursor

end Toolwright.Yaml
