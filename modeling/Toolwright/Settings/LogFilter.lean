import Toolwright.Text.Blank
import Toolwright.Text.Part

/-!
What is logged: levels, for all or for parts of the program, behind them a slash and a pattern.
`LogFilter.complaints` has what cannot be understood and is passed over.
-/

namespace Toolwright.LogFilter

def isLevel (s : List Char) : Bool :=
  ["off", "error", "warn", "info", "debug", "trace"].any (·.toList == s.map Char.toLower)

def misread (s : List Char) : String := "invalid logging spec '" ++ String.ofList s ++ "'"

/-- What cannot be understood in one entry: a level, a part, or a part and its level. -/
def complaint? (entry : List Char) : Option String :=
  match Text.splitAt (· == '=') entry with
  | [_] => none
  | [_, level] =>
    let level := Text.trim level
    if level = [] ∨ isLevel level then none else some (misread level)
  | _ => some (misread entry)

def complaints (s : List Char) : List String :=
  match Text.splitAt (· == '/') s with
  | _ :: _ :: _ :: _ => [misread s ++ " (too many '/'s)"]
  | entries :: _ =>
    (((Text.splitAt (· == ',') entries).map Text.trim).filter (· ≠ [])).filterMap complaint?
  | [] => []

end Toolwright.LogFilter
