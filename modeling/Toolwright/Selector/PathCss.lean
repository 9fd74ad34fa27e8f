import Toolwright.Selector.XPath

/-!
Location paths as CSS selectors. Each step becomes a compound selector; steps are joined by the
child or the descendant combinator, and a first step to children is tied to the root. What CSS
cannot say is the rank of the last step, which is kept beside the selector.
-/

namespace Toolwright.XPath

def cssString (value : List Char) : List Char :=
  '"' :: (value.flatMap (fun c => if c = '\\' ∨ c = '"' then ['\\', c] else [c]) ++ ['"'])

def Test.css : Test → List Char
  | .has attr => '[' :: (attr ++ [']'])
  | .equals attr value => '[' :: (attr ++ '=' :: (cssString value ++ [']']))
  | .contains attr value => '[' :: (attr ++ '*' :: '=' :: (cssString value ++ [']']))
  | .startsWith attr value => '[' :: (attr ++ '^' :: '=' :: (cssString value ++ [']']))

/-- A position counts siblings of the same type behind a name, and all siblings behind `*`. -/
def Predicate.css (name : NameTest) : Predicate → List Char
  | .test t => t.css
  | .position n =>
    (match name with
      | .any => ":nth-child(".toList
      | .name _ => ":nth-of-type(".toList) ++ (toString n).toList ++ [')']

def NameTest.css : NameTest → List Char
  | .any => ['*']
  | .name n => n

def Step.css (step : Step) : List Char :=
  step.name.css ++ step.predicates.flatMap (Predicate.css step.name)

def Step.joined (step : Step) : List Char :=
  (if step.descendant then [' '] else [' ', '>', ' ']) ++ step.css

def Path.css : Path → List Char
  | [] => []
  | first :: more =>
    first.css ++ (if first.descendant then [] else ":root".toList) ++ more.flatMap Step.joined

def Path.rank (path : Path) : Option Nat := path.getLast?.bind Step.rank

end Toolwright.XPath
