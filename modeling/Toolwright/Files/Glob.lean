import Toolwright.Files.Tree

/-!
Patterns of paths, as far as the pattern of a directory needs them. In a pattern `?` is any
character, `*` any text and brackets hold the characters that are meant, so that each of these can
be meant by itself; everything else stands for itself. A pattern is taken apart at its slashes. A
part without such characters is put behind the path that was reached so far, any other part is
looked for among the names of the directory that was reached. Left out are `**` for any number of
directories, and the entries `.` and `..`, which a part with such characters meets elsewhere if it
begins with a dot.
-/

namespace Toolwright.Files.Glob

inductive Token where
  | char (c : Char)
  | anyChar
  | anyText
  /-- Characters between the first and the second of a pair. -/
  | oneOf (bounds : List (Char × Char))
  | noneOf (bounds : List (Char × Char))
  deriving DecidableEq, Repr

/-- What stands between brackets: characters, and two with a dash between them for all from the
first to the second. -/
def boundsOf : List Char → List (Char × Char)
  | [] => []
  | first :: '-' :: last :: rest => (first, last) :: boundsOf rest
  | c :: rest => (c, c) :: boundsOf rest

/-- Brackets that are not closed yet: where they begin, whether an exclamation mark stands first,
and what was read behind it. -/
structure Opened where
  begins : Nat
  negated : Bool
  chars : List Char

def Opened.token (o : Opened) : Token :=
  if o.negated then .noneOf (boundsOf o.chars) else .oneOf (boundsOf o.chars)

def tokenOf (c : Char) : Token :=
  if c = '?' then .anyChar else if c = '*' then .anyText else .char c

/-- Read a pattern from a position on. What cannot be read is the brackets at the position that is
given back. The first character between brackets does not close them. -/
def tokensFrom (n : Nat) : Option Opened → List Char → Except Nat (List Token)
  | none, [] => .ok []
  | some o, [] => .error o.begins
  | none, c :: rest =>
    if c = '[' then tokensFrom (n + 1) (some ⟨n, false, []⟩) rest
    else (tokensFrom (n + 1) none rest).map (tokenOf c :: ·)
  | some o, c :: rest =>
    if o.chars = [] ∧ o.negated = false ∧ c = '!' then
      tokensFrom (n + 1) (some { o with negated := true }) rest
    else if o.chars ≠ [] ∧ c = ']' then (tokensFrom (n + 1) none rest).map (o.token :: ·)
    else tokensFrom (n + 1) (some { o with chars := o.chars ++ [c] }) rest

def tokens (pattern : List Char) : Except Nat (List Token) := tokensFrom 0 none pattern

def Token.admits : Token → Char → Bool
  | .char a, c => a == c
  | .anyChar, _ => true
  | .anyText, _ => true
  | .oneOf bounds, c => bounds.any fun b => b.1 ≤ c && c ≤ b.2
  | .noneOf bounds, c => !(bounds.any fun b => b.1 ≤ c && c ≤ b.2)

/-- Whether some end of a text satisfies `p`, the whole text included. -/
def anyEnd (p : List Char → Bool) : List Char → Bool
  | [] => p []
  | c :: rest => p (c :: rest) || anyEnd p rest

def takes : List Token → List Char → Bool
  | [], s => s.isEmpty
  | .anyText :: rest, s => anyEnd (takes rest) s
  | _ :: _, [] => false
  | token :: rest, c :: s => token.admits c && takes rest s

def isSpecial (c : Char) : Bool := c == '?' || c == '*' || c == '[' || c == ']'

def escape (s : List Char) : List Char :=
  s.flatMap fun c => if isSpecial c then ['[', c, ']'] else [c]

/-- The one text that is meant by characters that stand for themselves. -/
def literal? : List Token → Option (List Char)
  | [] => some []
  | .char c :: rest => (literal? rest).map (c :: ·)
  | _ :: _ => none

/-- The part of a path behind the directory that was reached so far. -/
def onward (reached : Path) (part : String) : Path :=
  if reached.text = "." then ⟨part⟩ else reached.join ⟨part⟩

def namesOf (t : Tree) (dir : Path) : List String :=
  match t.find dir with
  | .ok (at_, .directory) => t.namesIn at_
  | _ => []

def expand (t : Tree) (reached : Path) : List (List Token) → List Path
  | [] => [reached]
  | part :: rest =>
    match literal? part with
    | some text =>
      let name := String.ofList text
      let next := onward reached name
      let there := if name = "." ∨ name = ".." then t.isDirectory reached else t.contains next
      if there then expand t next rest else []
    | none =>
      ((namesOf t reached).filter fun name => takes part name.toList).flatMap fun name =>
        expand t (onward reached name) rest

/-- The paths of a tree that are meant by a pattern, which ends with no slash. A pattern that begins
with a slash is followed from the root, any other one from the current directory. -/
def paths (t : Tree) (pattern : String) : Except Nat (List Path) := do
  let _ ← tokens pattern.toList
  let parts ← (Text.splitAt (· == '/') pattern.toList).mapM tokens
  .ok (if Path.isAbsolute ⟨pattern⟩ then expand t ⟨"/"⟩ parts.tail else expand t ⟨"."⟩ parts)

end Toolwright.Files.Glob
