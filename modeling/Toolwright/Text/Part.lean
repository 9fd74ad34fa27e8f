/-!
Parts of texts: whether one text occurs in another, and the pieces between the occurrences of
separators.
-/

namespace Toolwright.Text

/-- Whether a text occurs in another one as a connected piece. -/
def occursIn (part : List Char) : List Char → Bool
  | [] => part.isEmpty
  | c :: rest => part.isPrefixOf (c :: rest) || occursIn part rest

/-- Pieces between members that satisfy `p`; there is one more piece than there are such. -/
def splitAt (p : Char → Bool) : List Char → List (List Char)
  | [] => [[]]
  | c :: rest =>
    if p c then [] :: splitAt p rest
    else
      match splitAt p rest with
      | [] => [[c]]
      | first :: more => (c :: first) :: more

end Toolwright.Text
