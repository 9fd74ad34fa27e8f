/-!
Lines of a text. A line feed ends a line; what follows the last line feed is a line of its own
only when it is not empty. `lineCount` counts the pieces that `lines` lists.
-/

namespace Toolwright.Text

/-- Pieces of a text, without the line feeds that end them. -/
def lines : List Char → List (List Char)
  | [] => []
  | c :: rest =>
    if c = '\n' then [] :: lines rest
    else
      match lines rest with
      | [] => [[c]]
      | first :: more => (c :: first) :: more

def lineCount (s : List Char) : Nat := (lines s).length

@[simp] theorem lines_nil : lines [] = [] := rfl

@[simp] theorem lineCount_nil : lineCount [] = 0 := rfl

@[simp] theorem lines_feed (rest : List Char) : lines ('\n' :: rest) = [] :: lines rest := by
  simp [lines]

@[simp] theorem lineCount_feed (rest : List Char) :
    lineCount ('\n' :: rest) = lineCount rest + 1 := by
  simp [lineCount]

end Toolwright.Text
