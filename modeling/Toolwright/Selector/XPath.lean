import Toolwright.Text.Blank

/-!
Location paths of the small XPath subset that references may use. A path is a list of steps, each
going to children or to descendants, with a name test and predicates: attribute tests and
positions. `Path.parse` reads a path; a position that follows another predicate becomes the `rank`
of the last step, since it counts only what passed the filter.
-/

namespace Toolwright.XPath

inductive Test where
  | has (attr : List Char)
  | equals (attr value : List Char)
  | contains (attr value : List Char)
  | startsWith (attr value : List Char)
  deriving DecidableEq, Repr

inductive Predicate where
  | test (t : Test)
  | position (n : Nat)
  deriving DecidableEq, Repr

inductive NameTest where
  | any
  | name (n : List Char)
  deriving DecidableEq, Repr

structure Step where
  /-- Whether the step goes to all descendants instead of children. -/
  descendant : Bool
  name : NameTest
  predicates : List Predicate
  /-- The position among the siblings that pass the name test and all predicates. -/
  rank : Option Nat
  deriving DecidableEq, Repr

abbrev Path := List Step

inductive Problem where
  | slashWanted (rest : List Char)
  | unbalancedBracket
  | emptyStep
  | unterminatedPredicate
  | rankBeforeStep
  | unsupportedStep (step : List Char)
  | unexpected (rest : List Char)
  | afterRank (predicate : List Char)
  | positionRange (predicate : List Char)
  | unquotedValue (predicate : List Char)
  | unsupportedTest (predicate : List Char)
  | unsupportedPredicate (predicate : List Char)
  | noSteps
  deriving DecidableEq, Repr

def within (before : String) (text : List Char) (after : String) : String :=
  before ++ String.ofList text ++ after

def Problem.message : Problem → String
  | .slashWanted rest => within "expected '/' before '" rest "'"
  | .unbalancedBracket => "unbalanced ']'"
  | .emptyStep => "empty location step"
  | .unterminatedPredicate => "unterminated predicate"
  | .rankBeforeStep => "a position after a filter is only supported on the last step"
  | .unsupportedStep step => within "unsupported location step '" step "'"
  | .unexpected rest => within "unexpected '" rest "'"
  | .afterRank predicate => within "unsupported predicate [" predicate "] after a position"
  | .positionRange predicate => within "position [" predicate "] is out of range"
  | .unquotedValue predicate => within "unquoted value in [" predicate "]"
  | .unsupportedTest predicate => within "unsupported attribute test [" predicate "]"
  | .unsupportedPredicate predicate => within "unsupported predicate [" predicate "]"
  | .noSteps => "selector has no steps"

def isQuote (c : Char) : Bool := c == '\'' || c == '"'

/-- The characters of a step and the slash behind it with all that follows. A slash inside quotes
or brackets belongs to the step. -/
def scanStep : Nat → Option Char → List Char → Except Problem (List Char × List Char)
  | depth, quote, [] =>
    if depth ≠ 0 ∨ quote.isSome then .error .unterminatedPredicate else .ok ([], [])
  | depth, some q, c :: rest =>
    prepend c (scanStep depth (if c = q then none else some q) rest)
  | depth, none, c :: rest =>
    if isQuote c then prepend c (scanStep depth (some c) rest)
    else if c = '[' then prepend c (scanStep (depth + 1) none rest)
    else if c = ']' then
      match depth with
      | 0 => .error .unbalancedBracket
      | depth + 1 => prepend c (scanStep depth none rest)
    else if c = '/' ∧ depth = 0 then .ok ([], c :: rest)
    else prepend c (scanStep depth none rest)
where
  prepend (c : Char) (scanned : Except Problem (List Char × List Char)) :
      Except Problem (List Char × List Char) :=
    match scanned with
    | .ok (step, rest) => .ok (c :: step, rest)
    | .error problem => .error problem

def splitStep (s : List Char) : Except Problem (List Char × List Char) :=
  match s with
  | [] => .error .emptyStep
  | '/' :: _ => .error .emptyStep
  | _ => scanStep 0 none s

def isNameStart (c : Char) : Bool := c.isAlpha || c == '_'

def isNameRest (c : Char) : Bool := c.isAlphanum || c == '_' || c == '-'

def isName : List Char → Bool
  | [] => false
  | c :: rest => isNameStart c && rest.all isNameRest

/-- The text before the bracket that closes a predicate, and the text behind it. -/
def scanPredicate : Option Char → List Char → Option (List Char × List Char)
  | _, [] => none
  | some q, c :: rest => prepend c (scanPredicate (if c = q then none else some q) rest)
  | none, c :: rest =>
    if c = ']' then some ([], rest)
    else prepend c (scanPredicate (if isQuote c then some c else none) rest)
where
  prepend (c : Char) (scanned : Option (List Char × List Char)) :
      Option (List Char × List Char) :=
    scanned.map fun (body, rest) => (c :: body, rest)

def unquote? (s : List Char) : Option (List Char) :=
  match s with
  | q :: rest => if isQuote q then List.isSuffixOf? [q] rest else none
  | [] => none

/-- The parts of a text before and behind the first occurrence of a character. -/
def splitOnce? (sep : Char) (s : List Char) : Option (List Char × List Char) :=
  match s.dropWhile (· != sep) with
  | [] => none
  | _ :: rest => some (s.takeWhile (· != sep), rest)

def functionCall? (function : String) (predicate : List Char) :
    Option (List Char × List Char) := do
  let rest ← List.isPrefixOf? function.toList predicate
  let inner ← List.isPrefixOf? ['('] (Text.trimStart rest)
  let arguments ← List.isSuffixOf? [')'] inner
  let (attr, value) ← splitOnce? ',' arguments
  let name ← List.isPrefixOf? ['@'] (Text.trim attr)
  if isName name then
    let operand ← unquote? (Text.trim value)
    some (name, operand)
  else none

def attributeTest (predicate attr : List Char) : Except Problem Test :=
  match splitOnce? '=' attr with
  | some (name, value) =>
    if isName (Text.trim name) then
      match unquote? (Text.trim value) with
      | some operand => .ok (.equals (Text.trim name) operand)
      | none => .error (.unquotedValue predicate)
    else .error (.unsupportedTest predicate)
  | none =>
    if isName attr then .ok (.has attr) else .error (.unsupportedTest predicate)

def parseTest (predicate : List Char) : Except Problem Test :=
  match functionCall? "contains" predicate with
  | some (attr, value) => .ok (.contains attr value)
  | none =>
    match functionCall? "starts-with" predicate with
    | some (attr, value) => .ok (.startsWith attr value)
    | none =>
      match predicate with
      | '@' :: attr => attributeTest predicate attr
      | _ => .error (.unsupportedPredicate predicate)

/-- Whether a predicate is a number; positions start at 1 and fit into 64 bits. -/
def parsePosition (predicate : List Char) : Except Problem (Option Nat) :=
  if predicate = [] ∨ !predicate.all Char.isDigit then .ok none
  else
    let n := predicate.foldl (fun n c => n * 10 + (c.toNat - 48)) 0
    if 1 ≤ n ∧ n ≤ 0xFFFFFFFFFFFFFFFF then .ok (some n) else .error (.positionRange predicate)

/-- Predicates of a step: those that stand for themselves, and the rank. At most `fuel` are
read. -/
def parsePredicates : Nat → List Predicate → Option Nat → List Char →
    Except Problem (List Predicate × Option Nat)
  | _, found, rank, [] => .ok (found, rank)
  | 0, _, _, s => .error (.unexpected s)
  | fuel + 1, found, rank, s =>
    match s with
    | '[' :: inner =>
      match scanPredicate none inner with
      | none => .error .unterminatedPredicate
      | some (body, rest) => do
        let predicate := Text.trim body
        if rank.isSome then .error (.afterRank predicate)
        else
          match ← parsePosition predicate with
          | some n =>
            if found = [] then parsePredicates fuel [.position n] none rest
            else parsePredicates fuel found (some n) rest
          | none => do
            let test ← parseTest predicate
            parsePredicates fuel (found ++ [.test test]) none rest
    | _ => .error (.unexpected s)

def parseStep (descendant : Bool) (step : List Char) : Except Problem Step := do
  let name := step.takeWhile (· != '[')
  let rest := step.dropWhile (· != '[')
  if name = ['*'] ∨ isName name then
    let (predicates, rank) ← parsePredicates (rest.length + 1) [] none rest
    .ok ⟨descendant, if name = ['*'] then .any else .name name, predicates, rank⟩
  else .error (.unsupportedStep step)

/-- The slashes in front of a step: whether there are two, and the text behind them. -/
def splitSlashes (s : List Char) : Except Problem (Bool × List Char) :=
  match s with
  | '/' :: '/' :: rest => .ok (true, rest)
  | '/' :: rest => .ok (false, rest)
  | _ => .error (.slashWanted s)

/-- Steps of a path, at most `fuel` of them; `ranked` tells that a rank stands before them. -/
def parseSteps : Nat → Bool → List Char → Except Problem Path
  | _, _, [] => .ok []
  | 0, _, s => .error (.slashWanted s)
  | fuel + 1, ranked, s => do
    let (descendant, start) ← splitSlashes s
    let (text, rest) ← splitStep start
    if ranked then .error .rankBeforeStep
    else
      let step ← parseStep descendant text
      let more ← parseSteps fuel step.rank.isSome rest
      .ok (step :: more)

/-- The text of a path without a last step that asks for its text. -/
def withoutText (s : List Char) : List Char :=
  (List.isSuffixOf? "/text()".toList s).getD s

def parse (s : List Char) : Except Problem Path := do
  let path ← parseSteps (s.length + 1) false (withoutText s)
  if path = [] then .error .noSteps else .ok path

end Toolwright.XPath
