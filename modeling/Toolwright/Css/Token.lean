import Toolwright.Decimal.Notation
import Toolwright.Text.Literal

/-!
Tokens of CSS. `scan` takes a text apart into tokens, `nestFrom` gathers them into a sequence of
`Piece`s in which every bracket and every function holds what stands up to its closing token, and
`pieces` does both; a block that is not closed ends with the text.
-/

namespace Toolwright.Css

/-- A number as it is written: with a sign or not, and as a whole number when it is one. -/
structure Numeral where
  hasSign : Bool
  value : Float
  whole : Option Int

inductive Token where
  | ident (name : String)
  | atKeyword (name : String)
  | hash (name : String)
  /-- A hash whose name is an identifier. -/
  | idHash (name : String)
  | quoted (text : String)
  | unquotedUrl (text : String)
  | delim (c : Char)
  | number (n : Numeral)
  | percentage (n : Numeral)
  | dimension (n : Numeral) (unit : String)
  | blank (text : String)
  | comment (text : String)
  | colon
  | semicolon
  | comma
  | includeMatch
  | dashMatch
  | prefixMatch
  | suffixMatch
  | substringMatch
  | commentOpen
  | commentClose
  | function (name : String)
  | parenthesis
  | squareBracket
  | curlyBracket
  | badUrl (text : String)
  | badString (text : String)
  | closeParenthesis
  | closeSquareBracket
  | closeCurlyBracket

/-- A token that stands for itself, or a block with its content. -/
inductive Piece where
  | leaf (t : Token)
  | block (t : Token) (content : List Piece)

def Piece.token : Piece → Token
  | .leaf t => t
  | .block t _ => t

def Token.isFault : Token → Bool
  | .badUrl _ => true
  | .badString _ => true
  | .closeParenthesis => true
  | .closeSquareBracket => true
  | .closeCurlyBracket => true
  | _ => false

/-- The single-precision neighbour of a number, in literal style. -/
def singleText (x : Float) : String :=
  let single := x.toFloat32
  let bits := single.toBits
  let fraction := (bits &&& 0x7FFFFF).toNat
  let exponent := ((bits >>> 23) &&& 0xFF).toNat
  let sign := if bits >>> 31 == 1 then "-" else ""
  if exponent = 255 then (if fraction = 0 then sign ++ "inf" else "NaN")
  else if exponent = 0 ∧ fraction = 0 then sign ++ "0.0"
  else
    let binary : Decimal.Binary :=
      if exponent = 0 then ⟨fraction, -149, false⟩
      else ⟨fraction + 0x800000, (exponent : Int) - 150, fraction == 0 && exponent != 1⟩
    sign ++ String.ofList (Decimal.Style.literal.magnitude (Decimal.shortest binary))

def boolText (b : Bool) : String := if b then "true" else "false"

def wholeText (whole : Option Int) : String :=
  match whole with
  | none => "None"
  | some i => "Some(" ++ toString i ++ ")"

def fieldsText (name : String) (fields : List (String × String)) : String :=
  name ++ " \x7b " ++ ", ".intercalate (fields.map fun (k, v) => k ++ ": " ++ v) ++ " \x7d"

def tagged (name text : String) : String := name ++ "(" ++ Text.literalOf text ++ ")"

def charText (c : Char) : String :=
  let body :=
    if c = '\'' then ['\\', '\''] else if c = '"' then ['"'] else Text.escape c
  String.ofList ('\'' :: (body ++ ['\'']))

def Token.describe : Token → String
  | .ident name => tagged "Ident" name
  | .atKeyword name => tagged "AtKeyword" name
  | .hash name => tagged "Hash" name
  | .idHash name => tagged "IDHash" name
  | .quoted text => tagged "QuotedString" text
  | .unquotedUrl text => tagged "UnquotedUrl" text
  | .delim c => "Delim(" ++ charText c ++ ")"
  | .number n => fieldsText "Number"
      [("has_sign", boolText n.hasSign), ("value", singleText n.value),
        ("int_value", wholeText n.whole)]
  | .percentage n => fieldsText "Percentage"
      [("has_sign", boolText n.hasSign), ("unit_value", singleText (n.value / 100.0)),
        ("int_value", wholeText n.whole)]
  | .dimension n unit => fieldsText "Dimension"
      [("has_sign", boolText n.hasSign), ("value", singleText n.value),
        ("int_value", wholeText n.whole), ("unit", Text.literalOf unit)]
  | .blank text => tagged "WhiteSpace" text
  | .comment text => tagged "Comment" text
  | .colon => "Colon"
  | .semicolon => "Semicolon"
  | .comma => "Comma"
  | .includeMatch => "IncludeMatch"
  | .dashMatch => "DashMatch"
  | .prefixMatch => "PrefixMatch"
  | .suffixMatch => "SuffixMatch"
  | .substringMatch => "SubstringMatch"
  | .commentOpen => "CDO"
  | .commentClose => "CDC"
  | .function name => tagged "Function" name
  | .parenthesis => "ParenthesisBlock"
  | .squareBracket => "SquareBracketBlock"
  | .curlyBracket => "CurlyBracketBlock"
  | .badUrl text => tagged "BadUrl" text
  | .badString text => tagged "BadString" text
  | .closeParenthesis => "CloseParenthesis"
  | .closeSquareBracket => "CloseSquareBracket"
  | .closeCurlyBracket => "CloseCurlyBracket"

def isNewline (c : Char) : Bool := c == '\n' || c == '\r' || c == '\x0c'

def isBlank (c : Char) : Bool := c == ' ' || c == '\t' || isNewline c

def isAscii (c : Char) : Bool := c.toNat < 0x80

/-- Characters that a name may begin with, escapes apart. -/
def startsName (c : Char) : Bool := c.isAlpha || c == '_' || c == '\x00' || !isAscii c

def continuesName (c : Char) : Bool := startsName c || c.isDigit || c == '-'

/-- Whether an escape begins here; a backslash before a new line begins none. -/
def escapes : List Char → Bool
  | '\\' :: c :: _ => !isNewline c
  | ['\\'] => true
  | _ => false

def startsIdent : List Char → Bool
  | '-' :: rest =>
    match rest with
    | [] => false
    | c :: _ => startsName c || c == '-' || escapes rest
  | s =>
    match s with
    | [] => false
    | c :: _ => startsName c || escapes s

def hexValue? (c : Char) : Option Nat :=
  if c.isDigit then some (c.toNat - 48)
  else if 'a' ≤ c ∧ c ≤ 'f' then some (c.toNat - 87)
  else if 'A' ≤ c ∧ c ≤ 'F' then some (c.toNat - 55)
  else none

/-- Hexadecimal digits, at most as many as the first number says. -/
def hexNumber : Nat → Nat → List Char → Nat × List Char
  | 0, n, s => (n, s)
  | _, n, [] => (n, [])
  | more + 1, n, c :: rest =>
    match hexValue? c with
    | some d => hexNumber more (n * 16 + d) rest
    | none => (n, c :: rest)

def dropOneBlank : List Char → List Char
  | '\r' :: '\n' :: rest => rest
  | c :: rest => if isBlank c then rest else c :: rest
  | [] => []

def replacement : Char := '\uFFFD'

def charOfCode (n : Nat) : Char := if n = 0 ∨ ¬ n.isValidChar then replacement else Char.ofNat n

/-- The character of an escape whose backslash is read. -/
def escaped : List Char → Char × List Char
  | [] => (replacement, [])
  | c :: rest =>
    if (hexValue? c).isSome then
      let (n, after) := hexNumber 6 0 (c :: rest)
      (charOfCode n, dropOneBlank after)
    else if c = '\x00' then (replacement, rest)
    else (c, rest)

def name : Nat → List Char → List Char × List Char
  | 0, s => ([], s)
  | _, [] => ([], [])
  | fuel + 1, c :: rest =>
    if c = '\\' then
      if escapes (c :: rest) then
        let (e, after) := escaped rest
        let (more, last) := name fuel after
        (e :: more, last)
      else ([], c :: rest)
    else if continuesName c then
      let (more, last) := name fuel rest
      ((if c = '\x00' then replacement else c) :: more, last)
    else ([], c :: rest)

def nameOf (s : List Char) : String × List Char :=
  let (chars, rest) := name (s.length + 1) s
  (String.ofList chars, rest)

/-- The text of a string up to its quote; `false` when a new line breaks it off. -/
def stringText (q : Char) : Nat → List Char → List Char × Bool × List Char
  | 0, s => ([], true, s)
  | _, [] => ([], true, [])
  | fuel + 1, c :: rest =>
    if c = q then ([], true, rest)
    else if isNewline c then ([], false, c :: rest)
    else if c = '\\' then
      match rest with
      | [] => ([], true, [])
      | '\r' :: '\n' :: after => stringText q fuel after
      | n :: after =>
        if isNewline n then stringText q fuel after
        else
          let (e, after) := escaped rest
          let (more, closed, last) := stringText q fuel after
          (e :: more, closed, last)
    else
      let (more, closed, last) := stringText q fuel rest
      ((if c = '\x00' then replacement else c) :: more, closed, last)

def stringToken (q : Char) (s : List Char) : Token × List Char :=
  let (text, closed, rest) := stringText q (s.length + 1) s
  (if closed then .quoted (String.ofList text) else .badString (String.ofList text), rest)

def startsNumber : List Char → Bool
  | '.' :: d :: _ => d.isDigit
  | d :: _ => d.isDigit
  | [] => false

def digitsValue (ds : List Char) : Float :=
  ds.foldl (fun x d => x * 10.0 + (d.toNat - 48).toFloat) 0.0

/-- The value of digits behind a point, added up from the left. -/
def fractionValue (ds : List Char) : Float :=
  (ds.foldl (fun (x, factor) d => (x + (d.toNat - 48).toFloat * factor, factor * 0.1))
    ((0.0, 0.1) : Float × Float)).1

/-- The exponent of a number: its digits with their sign, and the rest. -/
def exponent? (s : List Char) : Option (Float × List Char) :=
  match s with
  | e :: rest =>
    if e = 'e' ∨ e = 'E' then
      let (sign, digits) : Float × List Char :=
        match rest with
        | '-' :: more => (-1.0, more)
        | '+' :: more => (1.0, more)
        | _ => (1.0, rest)
      match digits with
      | d :: _ =>
        if d.isDigit then
          some (sign * digitsValue (digits.takeWhile Char.isDigit), digits.dropWhile Char.isDigit)
        else none
      | [] => none
    else none
  | [] => none

def clamp (i : Int) : Int := max (-2147483648) (min 2147483647 i)

def wholeOf (ds : List Char) : Nat := ds.foldl (fun k d => k * 10 + (d.toNat - 48)) 0

/-- Whether a number has a sign, whether it is a minus, and the text behind it. -/
def signOf : List Char → Bool × Bool × List Char
  | '-' :: rest => (true, true, rest)
  | '+' :: rest => (true, false, rest)
  | s => (false, false, s)

def fraction? : List Char → Option (List Char) × List Char
  | '.' :: d :: more =>
    if d.isDigit then
      (some ((d :: more).takeWhile Char.isDigit), (d :: more).dropWhile Char.isDigit)
    else (none, '.' :: d :: more)
  | s => (none, s)

/-- A number with what follows it directly: a percent sign, a unit or neither. -/
def withUnit (n : Numeral) (s : List Char) : Token × List Char :=
  match s with
  | '%' :: more => (.percentage n, more)
  | _ =>
    if startsIdent s then
      let (unit, more) := nameOf s
      (.dimension n unit, more)
    else (.number n, s)

def numericToken (s : List Char) : Token × List Char :=
  let (hasSign, isNegative, unsigned) := signOf s
  let integral := unsigned.takeWhile Char.isDigit
  let (fraction, afterFraction) := fraction? (unsigned.dropWhile Char.isDigit)
  let sign := if isNegative then -1.0 else 1.0
  let base := sign * (digitsValue integral + fractionValue (fraction.getD []))
  let whole : Int := if isNegative then -(wholeOf integral) else wholeOf integral
  match exponent? afterFraction with
  | some (e, rest) => withUnit ⟨hasSign, base * Float.pow 10.0 e, none⟩ rest
  | none =>
    withUnit ⟨hasSign, base, if fraction.isNone then some (clamp whole) else none⟩ afterFraction

def commentText : List Char → List Char × List Char
  | '*' :: '/' :: rest => ([], rest)
  | c :: rest =>
    let (text, last) := commentText rest
    (c :: text, last)
  | [] => ([], [])

/-- What is left of an address that is none, up to its parenthesis. -/
def badUrlText : List Char → List Char × List Char
  | ')' :: rest => ([], rest)
  | '\\' :: c :: rest =>
    let (text, last) := badUrlText rest
    ('\\' :: c :: text, last)
  | c :: rest =>
    let (text, last) := badUrlText rest
    (c :: text, last)
  | [] => ([], [])

def isUrlBreaker (c : Char) : Bool :=
  (1 ≤ c.toNat && c.toNat ≤ 8) || c == '\x0b' || (0x0E ≤ c.toNat && c.toNat ≤ 0x1F) ||
    c == '\x7f' || c == '"' || c == '\'' || c == '('

/-- The text of an address without quotes; `none` when it is broken off by what cannot stand in
one. -/
def urlText : Nat → List Char → Option (List Char) × List Char
  | 0, s => (some [], s)
  | _, [] => (some [], [])
  | fuel + 1, c :: rest =>
    if c = ')' then (some [], rest)
    else if isBlank c then
      match (c :: rest).dropWhile isBlank with
      | [] => (some [], [])
      | ')' :: more => (some [], more)
      | more => (none, more)
    else if isUrlBreaker c then (none, c :: rest)
    else if c = '\\' ∧ !escapes (c :: rest) then (none, c :: rest)
    else
      let (e, after) :=
        if c = '\\' then escaped rest else ((if c = '\x00' then replacement else c), rest)
      match urlText fuel after with
      | (some more, last) => (some (e :: more), last)
      | (none, last) => (none, last)

/-- What follows `url(`: a function when a quote comes first, else an address. -/
def urlToken (word : String) (s : List Char) : Token × List Char :=
  let start := s.dropWhile isBlank
  match start with
  | '"' :: _ => (.function word, s)
  | '\'' :: _ => (.function word, s)
  | _ =>
    match urlText (start.length + 1) start with
    | (some text, rest) => (.unquotedUrl (String.ofList text), rest)
    | (none, rest) =>
      let (_, last) := badUrlText rest
      (.badUrl (String.ofList (start.take (start.length - last.length - 1))), last)

def identLikeToken (s : List Char) : Token × List Char :=
  let (word, rest) := nameOf s
  match rest with
  | '(' :: more =>
    if String.ofList (word.toList.map Char.toLower) = "url" then urlToken word more
    else (.function word, more)
  | _ => (.ident word, rest)

def firstToken (c : Char) (rest : List Char) : Token × List Char :=
  let s := c :: rest
  if isBlank c then (.blank (String.ofList (s.takeWhile isBlank)), s.dropWhile isBlank)
  else if c = '"' ∨ c = '\'' then stringToken c rest
  else if startsNumber s ∨ ((c = '+' ∨ c = '-') ∧ startsNumber rest) then numericToken s
  else
    match c, rest with
    | '#', _ =>
      if startsIdent rest then
        let (word, more) := nameOf rest
        (.idHash word, more)
      else
        match rest with
        | d :: _ =>
          if d.isDigit || d == '-' then
            let (word, more) := nameOf rest
            (.hash word, more)
          else (.delim '#', rest)
        | [] => (.delim '#', rest)
    | '$', '=' :: more => (.suffixMatch, more)
    | '*', '=' :: more => (.substringMatch, more)
    | '^', '=' :: more => (.prefixMatch, more)
    | '|', '=' :: more => (.dashMatch, more)
    | '~', '=' :: more => (.includeMatch, more)
    | '(', _ => (.parenthesis, rest)
    | ')', _ => (.closeParenthesis, rest)
    | '[', _ => (.squareBracket, rest)
    | ']', _ => (.closeSquareBracket, rest)
    | '\x7b', _ => (.curlyBracket, rest)
    | '\x7d', _ => (.closeCurlyBracket, rest)
    | ',', _ => (.comma, rest)
    | ':', _ => (.colon, rest)
    | ';', _ => (.semicolon, rest)
    | '-', '-' :: '>' :: more => (.commentClose, more)
    | '<', '!' :: '-' :: '-' :: more => (.commentOpen, more)
    | '/', '*' :: more =>
      let (text, last) := commentText more
      (.comment (String.ofList text), last)
    | '@', _ =>
      if startsIdent rest then
        let (word, more) := nameOf rest
        (.atKeyword word, more)
      else (.delim '@', rest)
    | _, _ => if startsIdent s then identLikeToken s else (.delim c, rest)

def scan : Nat → List Char → List Token
  | 0, _ => []
  | _, [] => []
  | fuel + 1, c :: rest =>
    let (token, more) := firstToken c rest
    token :: scan fuel more

def Token.closer? : Token → Option Token
  | .function _ => some .closeParenthesis
  | .parenthesis => some .closeParenthesis
  | .squareBracket => some .closeSquareBracket
  | .curlyBracket => some .closeCurlyBracket
  | _ => none

def Token.isCloser (t closer : Token) : Bool :=
  match t, closer with
  | .closeParenthesis, .closeParenthesis => true
  | .closeSquareBracket, .closeSquareBracket => true
  | .closeCurlyBracket, .closeCurlyBracket => true
  | _, _ => false

/-- Pieces up to the token that closes the block they are in, and the tokens behind it. -/
def nestFrom : Nat → Option Token → List Token → List Piece × List Token
  | 0, _, rest => ([], rest)
  | _, _, [] => ([], [])
  | fuel + 1, closer, t :: rest =>
    if (closer.map t.isCloser).getD false then ([], rest)
    else
      match t.closer? with
      | some inner =>
        let (content, after) := nestFrom fuel (some inner) rest
        let (more, last) := nestFrom fuel closer after
        (.block t content :: more, last)
      | none =>
        let (more, last) := nestFrom fuel closer rest
        (.leaf t :: more, last)

def isComment : Token → Bool
  | .comment _ => true
  | _ => false

def pieces (s : List Char) : List Piece :=
  let tokens := (scan (s.length + 1) s).filter fun t => !isComment t
  (nestFrom (tokens.length + 1) none tokens).1

end Toolwright.Css
