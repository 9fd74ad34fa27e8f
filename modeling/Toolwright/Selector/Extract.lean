import Toolwright.Css.Match
import Toolwright.Css.Parser
import Toolwright.Html.Parse
import Toolwright.Selector.PathCss

/-!
Selectors of references: location paths and CSS selectors. Both are compiled to CSS; a path may
leave a rank that CSS cannot express. `extract` is the text of the first element of a document that
a selector finds.
-/

namespace Toolwright.Selector

structure Compiled where
  css : List Char
  /-- The position among the siblings that match `css`, from 1 on. -/
  rank : Option Nat
  deriving DecidableEq, Repr

inductive Problem where
  | empty
  | path (p : XPath.Problem)
  | css (p : Css.Problem)
  | rankOutsideCss
  | noMatch

def Problem.message : Problem → String
  | .empty => "empty selector"
  | .path p => p.message
  | .css p => p.message
  | .rankOutsideCss => "position after a filter has no CSS equivalent"
  | .noMatch => "no element matches"

/-- A selector that begins with a slash is a path, any other one is CSS. -/
def compile (selector : List Char) : Except Problem Compiled :=
  match Text.trim selector with
  | [] => .error .empty
  | '/' :: rest =>
    match XPath.parse ('/' :: rest) with
    | .ok path => .ok ⟨XPath.Path.css path, XPath.Path.rank path⟩
    | .error p => .error (.path p)
  | css => .ok ⟨css, none⟩

def toCss (selector : List Char) : Except Problem (List Char) := do
  let compiled ← compile selector
  match compiled.rank with
  | none => .ok compiled.css
  | some _ => .error .rankOutsideCss

def matchesAny (selectors : List Css.Complex) (s : Html.Spot) : Bool := Css.anyHolds s selectors

/-- The position of an element among its siblings that match, from 1 on. -/
def siblingRank (selectors : List Css.Complex) (s : Html.Spot) : Nat :=
  (s.earlier.filter (matchesAny selectors)).length + 1

def selects (selectors : List Css.Complex) (rank : Option Nat) (s : Html.Spot) : Bool :=
  matchesAny selectors s && rank.all fun n => siblingRank selectors s == n

/-- The first element that a selector finds in a document. -/
def find (document : Html.Document) (selector : List Char) : Except Problem Html.Spot := do
  let compiled ← compile selector
  match Css.parse compiled.css with
  | .error p => .error (.css p)
  | .ok selectors =>
    match document.spots.find? (selects selectors compiled.rank) with
    | some s => .ok s
    | none => .error .noMatch

/-- The text of the first element that a selector finds in a document. -/
def extract (html selector : List Char) : Except Problem String := do
  let s ← find (Html.parse html) selector
  .ok s.text

end Toolwright.Selector
