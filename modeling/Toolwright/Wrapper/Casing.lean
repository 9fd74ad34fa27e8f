import Toolwright.Text.Part

/-!
Identifiers made of free text. Only ASCII letters and digits of the text are kept; everything else
separates words. `snakeCase` joins lower-case words by single underscores, `pascalCase` puts words
with a capital first letter next to each other. Both answer with an identifier for every text.
-/

namespace Toolwright.Wrapper

/-- Whether a word begins at a capital letter: the character before it is lower-case or a digit,
or it is the last of several capitals and a lower-case letter follows. -/
def beginsWord (before : Option Char) (after : Option Char) : Bool :=
  match before with
  | none => false
  | some b =>
    b.isLower || b.isDigit || (b.isUpper && (after.map Char.isLower).getD false)

/-- Lower-case letters and digits of a text, an underscore at every place where a word may end. -/
def spaced : Option Char → List Char → List Char
  | _, [] => []
  | before, c :: rest =>
    if !c.isAlphanum then '_' :: spaced (some c) rest
    else if c.isUpper && beginsWord before rest.head? then
      '_' :: c.toLower :: spaced (some c) rest
    else c.toLower :: spaced (some c) rest

/-- Maximal pieces of a text without members that satisfy `p`; no piece is empty. -/
def piecesWithout (p : Char → Bool) (s : List Char) : List (List Char) :=
  (Text.splitAt p s).filter fun piece => !piece.isEmpty

def joinWords (words : List (List Char)) : List Char := List.intercalate ['_'] words

def startsWithDigit (s : List Char) : Bool := (s.head?.map Char.isDigit).getD false

def snakeChars (s : List Char) : List Char :=
  match piecesWithout (· == '_') (spaced none s) with
  | [] => ['v', 'a', 'l', 'u', 'e']
  | words =>
    let ident := joinWords words
    if startsWithDigit ident then '_' :: ident else ident

def capitalized : List Char → List Char
  | [] => []
  | c :: rest => c.toUpper :: rest

def pascalChars (s : List Char) : List Char :=
  match (piecesWithout (fun c => !c.isAlphanum) s).flatMap capitalized with
  | [] => ['V', 'a', 'l', 'u', 'e']
  | ident => if startsWithDigit ident then 'V' :: ident else ident

def snakeCase (s : String) : String := String.ofList (snakeChars s.toList)

def pascalCase (s : String) : String := String.ofList (pascalChars s.toList)

/-- Words of the target language that are no plain identifiers. -/
def keywords : List String := [
  "as", "async", "await", "break", "const", "continue", "crate", "dyn", "else", "enum", "extern",
  "false", "fn", "for", "gen", "if", "impl", "in", "let", "loop", "match", "mod", "move", "mut",
  "pub", "ref", "return", "self", "static", "struct", "super", "trait", "true", "type", "unsafe",
  "use", "where", "while", "yield"]

def pathKeywords : List String := ["self", "super", "crate"]

/-- An identifier that is no keyword: one is marked or, where it cannot be, made longer. -/
def plainIdent (ident : String) : String :=
  if pathKeywords.contains ident then ident ++ "_"
  else if keywords.contains ident then "r#" ++ ident
  else ident

end Toolwright.Wrapper
