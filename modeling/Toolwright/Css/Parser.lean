import Toolwright.Css.Selector
import Toolwright.Css.Token

/-!
Reading selectors from their pieces. `Css.parse` reads a whole text; what stands behind a
selector that could be read is a fault as well. Inside `:is` and `:where` selectors that cannot be
read are dropped, and inside `:has` each selector begins with a combinator or means descendants.
-/

namespace Toolwright.Css

inductive Problem where
  | unexpectedToken (t : Token)
  | endOfInput
  | identExpected (t : Token)
  | danglingCombinator
  | emptySelector
  | invalidState
  | unsupportedPseudo (name : String)
  | classNeedsIdent (t : Token)
  | expectedNamespace (name : String)
  | noAttributeName (t : Token)
  | attributeToken (t : Token)
  | badAttributeValue (t : Token)
  | attributeQualifier (t : Token)
  | namespaceToken (t : Token)
  | barExpected (t : Token)

/-- A problem with a selector that could not be read further. -/
def custom (name : String) (field : Option String) : String :=
  "UnexpectedSelectorParseError(" ++ name ++
    (match field with
      | none => ""
      | some text => "(" ++ text ++ ")") ++ ")"

def Problem.message : Problem → String
  | .unexpectedToken t => "UnexpectedToken(" ++ t.describe ++ ")"
  | .endOfInput => "EndOfLine"
  | .identExpected t => "ExpectedIdentityOnPseudoElement(" ++ t.describe ++ ")"
  | .danglingCombinator => custom "DanglingCombinator" none
  | .emptySelector => custom "EmptySelector" none
  | .invalidState => custom "InvalidState" none
  | .unsupportedPseudo name =>
    custom "UnsupportedPseudoClassOrElement" (some (Text.literalOf name))
  | .classNeedsIdent t => custom "ClassNeedsIdent" (some t.describe)
  | .expectedNamespace name => custom "ExpectedNamespace" (some (Text.literalOf name))
  | .noAttributeName t => custom "NoQualifiedNameInAttributeSelector" (some t.describe)
  | .attributeToken t => custom "UnexpectedTokenInAttributeSelector" (some t.describe)
  | .badAttributeValue t => custom "BadValueInAttr" (some t.describe)
  | .attributeQualifier t => custom "InvalidQualNameInAttr" (some t.describe)
  | .namespaceToken t => custom "ExplicitNamespaceUnexpectedToken" (some t.describe)
  | .barExpected t => custom "ExpectedBarInAttr" (some t.describe)

/-- A parser of selectors: it answers with a value and the pieces behind it. -/
abbrev Parser (α : Type) := List Piece → Except Problem (α × List Piece)

def isBlankPiece : Piece → Bool
  | .leaf (.blank _) => true
  | _ => false

def skipBlank (ps : List Piece) : List Piece := ps.dropWhile isBlankPiece

def finished (ps : List Piece) : Except Problem Unit :=
  match skipBlank ps with
  | [] => .ok ()
  | p :: _ => .error (.unexpectedToken p.token)

def lower (s : String) : String := String.ofList (s.toList.map Char.toLower)

structure Qualified where
  space : Space
  /-- The name; none stands for all of them. -/
  name : Option String

def localName (inAttribute : Bool) (space : Space) : Parser (Option Qualified)
  | [] => .error .endOfInput
  | .leaf (.ident name) :: rest => .ok (some ⟨space, some name⟩, rest)
  | p :: rest =>
    match p.token with
    | .delim '*' =>
      if inAttribute then .error (.attributeQualifier (.delim '*'))
      else .ok (some ⟨space, none⟩, rest)
    | t => .error (if inAttribute then .attributeQualifier t else .namespaceToken t)

/-- A name with or without a namespace in front of it; `none` when the first piece begins no
name. There are no declared namespaces. -/
def qualified (inAttribute : Bool) : Parser (Option Qualified)
  | [] => .error .endOfInput
  | .leaf (.ident name) :: rest =>
    match rest with
    | .leaf (.delim '|') :: _ => .error (.expectedNamespace name)
    | _ => .ok (some ⟨if inAttribute then .none else .any, some name⟩, rest)
  | .leaf (.delim '*') :: rest =>
    match rest with
    | .leaf (.delim '|') :: more => localName inAttribute .any more
    | _ =>
      if inAttribute then
        match rest with
        | [] => .error .endOfInput
        | p :: _ => .error (.barExpected p.token)
      else .ok (some ⟨.any, none⟩, rest)
  | .leaf (.delim '|') :: rest => localName inAttribute .none rest
  | ps => .ok (none, ps)

def operator? : Token → Option Operator
  | .delim '=' => some .equal
  | .includeMatch => some .includes
  | .dashMatch => some .dash
  | .prefixMatch => some .starts
  | .suffixMatch => some .ends
  | .substringMatch => some .contains
  | _ => none

def caseFlag (ps : List Piece) : Except Problem (CaseRule × List Piece) :=
  match skipBlank ps with
  | [] => .ok (.ofAttribute, [])
  | .leaf (.ident word) :: rest =>
    if lower word = "i" then .ok (.ignore, rest)
    else if lower word = "s" then .ok (.exact, rest)
    else .error (.unexpectedToken (.ident word))
  | p :: _ => .error (.unexpectedToken p.token)

def attributeSelector (content : List Piece) : Except Problem Simple := do
  let start := skipBlank content
  let (found, rest) ← qualified true start
  match found with
  | none =>
    match start with
    | p :: _ => .error (.noAttributeName p.token)
    | [] => .error .endOfInput
  | some q =>
    let name := q.name.getD ""
    match skipBlank rest with
    | [] => .ok (.hasAttribute q.space name)
    | p :: afterOperator =>
      match operator? p.token with
      | none => .error (.attributeToken p.token)
      | some op =>
        match skipBlank afterOperator with
        | [] => .error .endOfInput
        | v :: afterValue =>
          let value? : Option String :=
            match v.token with
            | .ident text => some text
            | .quoted text => some text
            | _ => none
          match value? with
          | none => .error (.badAttributeValue v.token)
          | some value =>
            let (rule, last) ← caseFlag afterValue
            finished last
            .ok (.attributeValue q.space name op value rule)

def dashDigits? (unit : String) : Option Int :=
  match unit.toList with
  | n :: '-' :: digits =>
    if (n = 'n' ∨ n = 'N') ∧ digits ≠ [] ∧ digits.all Char.isDigit then
      some (clamp (-(wholeOf digits)))
    else none
  | _ => none

def signless (a : Int) (sign : Int) (ps : List Piece) :
    Except Problem ((Int × Int) × List Piece) :=
  match skipBlank ps with
  | [] => .error .endOfInput
  | p :: rest =>
    match p.token with
    | .number ⟨false, _, some b⟩ => .ok ((a, sign * b), rest)
    | t => .error (.unexpectedToken t)

def offset (a : Int) (ps : List Piece) : Except Problem ((Int × Int) × List Piece) :=
  match skipBlank ps with
  | .leaf (.delim '+') :: rest => signless a 1 rest
  | .leaf (.delim '-') :: rest => signless a (-1) rest
  | .leaf (.number ⟨true, _, some b⟩) :: rest => .ok ((a, b), rest)
  | _ => .ok ((a, 0), ps)

/-- A word of a position formula behind an optional sign. -/
def formulaWord (sign : Int) (word : String) (ps : List Piece) :
    Option (Except Problem ((Int × Int) × List Piece)) :=
  if lower word = "n" then some (offset sign ps)
  else if lower word = "n-" then some (signless sign (-1) ps)
  else (dashDigits? word).map fun b => .ok ((sign, b), ps)

def formula (ps : List Piece) : Except Problem ((Int × Int) × List Piece) :=
  match skipBlank ps with
  | [] => .error .endOfInput
  | p :: rest =>
    match p.token with
    | .number ⟨_, _, some b⟩ => .ok ((0, b), rest)
    | .dimension ⟨_, _, some a⟩ unit =>
      if lower unit = "n" then offset a rest
      else if lower unit = "n-" then signless a (-1) rest
      else
        match dashDigits? unit with
        | some b => .ok ((a, b), rest)
        | none => .error (.unexpectedToken (.ident unit))
    | .ident word =>
      if lower word = "even" then .ok ((2, 0), rest)
      else if lower word = "odd" then .ok ((2, 1), rest)
      else
        let (sign, body) : Int × String :=
          match word.toList with
          | '-' :: more => (-1, String.ofList more)
          | _ => (1, word)
        (formulaWord sign body rest).getD (.error (.unexpectedToken (.ident word)))
    | .delim '+' =>
      match rest with
      | [] => .error .endOfInput
      | .leaf (.ident word) :: more =>
        if lower word = "even" then .ok ((2, 0), more)
        else if lower word = "odd" then .ok ((2, 1), more)
        else (formulaWord 1 word more).getD (.error (.unexpectedToken (.ident word)))
      | q :: _ => .error (.unexpectedToken q.token)
    | t => .error (.unexpectedToken t)

/-- The combinator that stands next, white space around it passed over. -/
def combinator? : Bool → List Piece → Option (Combinator × List Piece)
  | _, [] => none
  | blank, p :: rest =>
    match p.token with
    | .blank _ => combinator? true rest
    | .delim '>' => some (.child, rest)
    | .delim '+' => some (.nextSibling, rest)
    | .delim '~' => some (.laterSibling, rest)
    | _ => if blank then some (.descendant, p :: rest) else none

/-- Words that name pseudo-elements even behind a single colon. -/
def isOldPseudoElement (name : String) : Bool :=
  ["before", "after", "first-line", "first-letter"].contains (lower name)

def plainPseudo? (name : String) : Option (List Simple) :=
  match lower name with
  | "first-child" => some [.nth ⟨false, false⟩ 0 1]
  | "last-child" => some [.nth ⟨false, true⟩ 0 1]
  | "only-child" => some [.nth ⟨false, false⟩ 0 1, .nth ⟨false, true⟩ 0 1]
  | "first-of-type" => some [.nth ⟨true, false⟩ 0 1]
  | "last-of-type" => some [.nth ⟨true, true⟩ 0 1]
  | "only-of-type" => some [.nth ⟨true, false⟩ 0 1, .nth ⟨true, true⟩ 0 1]
  | "root" => some [.root]
  | "scope" => some [.root]
  | "empty" => some [.empty]
  | _ => none

/-- What is counted by a pseudo-class with a position formula. -/
def counting? (name : String) : Option Counting :=
  match lower name with
  | "nth-child" => some ⟨false, false⟩
  | "nth-of-type" => some ⟨true, false⟩
  | "nth-last-child" => some ⟨false, true⟩
  | "nth-last-of-type" => some ⟨true, true⟩
  | _ => none

def splitCommas : List Piece → List (List Piece)
  | [] => [[]]
  | p :: rest =>
    match p.token with
    | .comma => [] :: splitCommas rest
    | _ =>
      match splitCommas rest with
      | [] => [[p]]
      | first :: more => (p :: first) :: more

/-- Whether no piece is an error by itself, inside blocks or outside them. -/
def firstFault? : Nat → List Piece → Option Token
  | 0, _ => none
  | _, [] => none
  | fuel + 1, .leaf t :: rest => if t.isFault then some t else firstFault? fuel rest
  | fuel + 1, .block _ content :: rest =>
    (firstFault? fuel content).orElse fun _ => firstFault? fuel rest

def pieceCount : List Piece → Nat
  | [] => 0
  | .leaf _ :: rest => pieceCount rest + 1
  | .block _ content :: rest => pieceCount content + pieceCount rest + 1

/-- What is left of a combinator is `none` for the first compound. -/
def attach (left : Option (Complex × Combinator)) (simples : List Simple) : Complex :=
  match left with
  | none => .compound simples
  | some (complex, combinator) => .combined complex combinator simples

/-- Compounds of a relative selector, each behind its combinator. -/
def relativeOf (first : Combinator × List Simple) : List (Combinator × List Simple) → Relative
  | [] => .last first.1 first.2
  | next :: more => .step first.1 first.2 (relativeOf next more)

mutual

/-- Selectors of one list, in order; the second argument tells that `:has` may not stand in
them. -/
def selectorList : Nat → Bool → List (List Piece) → Except Problem (List Complex)
  | _, _, [] => .ok []
  | 0, _, _ => .error .emptySelector
  | fuel + 1, inHas, ps :: more => do
    let (first, rest) ← complex fuel inHas none ps
    finished rest
    .ok (first :: (← selectorList fuel inHas more))

/-- Selectors of a list in which those that cannot be read are dropped. -/
def forgivingList : Nat → Bool → List (List Piece) → Except Problem (List Complex)
  | _, _, [] => .ok []
  | 0, _, _ => .error .emptySelector
  | fuel + 1, inHas, ps :: more => do
    let read := do
      let (first, rest) ← complex fuel inHas none ps
      finished rest
      return first
    match read with
    | .ok first => .ok (first :: (← forgivingList fuel inHas more))
    | .error _ =>
      match firstFault? (pieceCount ps + 1) ps with
      | some t => .error (.unexpectedToken t)
      | none => forgivingList fuel inHas more

def relativeList : Nat → List (List Piece) → Except Problem (List Relative)
  | _, [] => .ok []
  | 0, _ => .error .emptySelector
  | fuel + 1, ps :: more => do
    let start := skipBlank ps
    let (combinator, rest) := (combinator? false start).getD (.descendant, start)
    let (steps, last) ← relativeSteps fuel combinator rest
    finished last
    match steps with
    | [] => .error .emptySelector
    | first :: others => .ok (relativeOf first others :: (← relativeList fuel more))

def relativeSteps : Nat → Combinator → List Piece →
    Except Problem (List (Combinator × List Simple) × List Piece)
  | 0, _, _ => .error .emptySelector
  | fuel + 1, combinator, ps => do
    let (simples, rest) ← compound fuel true ps
    if simples.isEmpty then .error .danglingCombinator
    else
      match combinator? false rest with
      | none => .ok ([(combinator, simples)], rest)
      | some (next, after) =>
        if (skipBlank after).isEmpty ∧ next = .descendant then .ok ([(combinator, simples)], after)
        else
          let (more, last) ← relativeSteps fuel next after
          .ok ((combinator, simples) :: more, last)

/-- A complex selector behind what is left of its first compound. -/
def complex : Nat → Bool → Option (Complex × Combinator) → List Piece →
    Except Problem (Complex × List Piece)
  | 0, _, _, _ => .error .emptySelector
  | fuel + 1, inHas, left, ps => do
    let (simples, rest) ← compound fuel inHas ps
    if simples.isEmpty then
      .error (if left.isSome then .danglingCombinator else .emptySelector)
    else
      match combinator? false rest with
      | none => .ok (attach left simples, rest)
      | some (next, after) => complex fuel inHas (some (attach left simples, next)) after

/-- A type selector, if there is one, and the simple selectors behind it. -/
def compound : Nat → Bool → List Piece → Except Problem (List Simple × List Piece)
  | 0, _, ps => .ok ([], ps)
  | fuel + 1, inHas, ps =>
    match skipBlank ps with
    | [] => .ok ([], [])
    | start => do
      let (found, rest) ← qualified false start
      let (more, last) ← simples fuel inHas rest
      match found with
      | none => .ok (more, last)
      | some ⟨space, none⟩ => .ok (.universal space :: more, last)
      | some ⟨space, some name⟩ => .ok (.type space name :: more, last)

/-- Simple selectors up to the first piece that begins none. -/
def simples : Nat → Bool → List Piece → Except Problem (List Simple × List Piece)
  | 0, _, ps => .ok ([], ps)
  | _, _, [] => .ok ([], [])
  | fuel + 1, inHas, .leaf (.idHash name) :: rest => do
    let (more, last) ← simples fuel inHas rest
    .ok (.id name :: more, last)
  | fuel + 1, inHas, .leaf (.delim '.') :: rest =>
    match rest with
    | [] => .error .endOfInput
    | .leaf (.ident name) :: after => do
      let (more, last) ← simples fuel inHas after
      .ok (.cls name :: more, last)
    | p :: _ => .error (.classNeedsIdent p.token)
  | fuel + 1, inHas, .block .squareBracket content :: rest => do
    let first ← attributeSelector content
    let (more, last) ← simples fuel inHas rest
    .ok (first :: more, last)
  | fuel + 1, inHas, .leaf .colon :: rest =>
    match rest with
    | [] => .error .endOfInput
    | .leaf .colon :: [] => .error .endOfInput
    | .leaf .colon :: p :: _ =>
      match p.token with
      | .ident name => .error (.unsupportedPseudo name)
      | .function name => .error (.unsupportedPseudo name)
      | t => .error (.identExpected t)
    | .leaf (.ident name) :: after =>
      if isOldPseudoElement name then .error (.unsupportedPseudo name)
      else
        match plainPseudo? name with
        | none => .error (.unsupportedPseudo name)
        | some first => do
          let (more, last) ← simples fuel inHas after
          .ok (first ++ more, last)
    | .block (.function name) content :: after =>
      if isOldPseudoElement name then .error (.unsupportedPseudo name)
      else do
        let first ← functional fuel inHas name content
        let (more, last) ← simples fuel inHas after
        .ok (first :: more, last)
    | p :: _ => .error (.identExpected p.token)
  | _, _, ps => .ok ([], ps)

def functional : Nat → Bool → String → List Piece → Except Problem Simple
  | 0, _, name, _ => .error (.unsupportedPseudo name)
  | fuel + 1, inHas, name, content =>
    match counting? name with
    | some counting => do
      let ((a, b), rest) ← formula content
      finished rest
      .ok (.nth counting a b)
    | none =>
      match lower name with
      | "not" => do .ok (.not (← selectorList fuel inHas (splitCommas content)))
      | "is" => do .ok (.is (← forgivingList fuel inHas (splitCommas content)))
      | "where" => do .ok (.is (← forgivingList fuel inHas (splitCommas content)))
      | "has" =>
        if inHas then .error .invalidState
        else do .ok (.has (← relativeList fuel (splitCommas content)))
      | _ => .error (.unsupportedPseudo name)

end

def parse (s : List Char) : Except Problem (List Complex) :=
  let ps := pieces s
  selectorList (4 * pieceCount ps + 8) false (splitCommas ps)

end Toolwright.Css
