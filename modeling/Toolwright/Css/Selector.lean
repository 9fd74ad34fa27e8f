/-!
CSS selectors as data. A list of complex selectors matches what one of them matches; a complex
selector is a compound of simple ones, tied by a combinator to the complex selector on its left.
-/

namespace Toolwright.Css

inductive Combinator where
  | descendant
  | child
  | nextSibling
  | laterSibling
  deriving DecidableEq, Repr

inductive Operator where
  | equal
  | includes
  | dash
  | starts
  | ends
  | contains
  deriving DecidableEq, Repr

inductive CaseRule where
  | exact
  | ignore
  /-- The attributes whose values HTML does not distinguish by case. -/
  | ofAttribute
  deriving DecidableEq, Repr

structure Counting where
  /-- Only elements of the same type. -/
  sameType : Bool
  /-- From the last one on. -/
  fromEnd : Bool
  deriving DecidableEq, Repr

inductive Space where
  | any
  | none
  deriving DecidableEq, Repr

mutual

inductive Simple where
  | universal (space : Space)
  | type (space : Space) (name : String)
  | id (name : String)
  | cls (name : String)
  | hasAttribute (space : Space) (name : String)
  | attributeValue (space : Space) (name : String) (op : Operator) (value : String)
      (rule : CaseRule)
  | root
  | empty
  | nth (counting : Counting) (a b : Int)
  | not (selectors : List Complex)
  /-- One of several selectors; those that cannot be read match nothing. -/
  | is (selectors : List Complex)
  | has (selectors : List Relative)

inductive Complex where
  | compound (simples : List Simple)
  | combined (left : Complex) (combinator : Combinator) (simples : List Simple)

inductive Relative where
  | last (combinator : Combinator) (simples : List Simple)
  | step (combinator : Combinator) (simples : List Simple) (rest : Relative)

end

instance : Inhabited Complex := ⟨.compound []⟩

end Toolwright.Css
