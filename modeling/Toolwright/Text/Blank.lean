/-!
White space as the Unicode property of that name, and what is left of a text when it is cut off
at the ends. `trim` is the composition of the two one-sided cuts.
-/

namespace Toolwright.Text

def isBlank (c : Char) : Bool :=
  let n := c.toNat
  (9 ≤ n && n ≤ 13) || n == 0x20 || n == 0x85 || n == 0xA0 || n == 0x1680 ||
    (0x2000 ≤ n && n ≤ 0x200A) || n == 0x2028 || n == 0x2029 || n == 0x202F || n == 0x205F ||
    n == 0x3000

/-- Drop the longest end of a list whose members all satisfy `p`. -/
def dropEnd {α : Type} (p : α → Bool) (s : List α) : List α :=
  (s.reverse.dropWhile p).reverse

def trimStart (s : List Char) : List Char := s.dropWhile isBlank

def trimEnd (s : List Char) : List Char := dropEnd isBlank s

def trim (s : List Char) : List Char := trimEnd (trimStart s)

@[simp] theorem trimStart_nil : trimStart [] = [] := rfl

@[simp] theorem trimEnd_nil : trimEnd [] = [] := rfl

@[simp] theorem trim_nil : trim [] = [] := rfl

def trimmed (s : String) : String := String.ofList (trim s.toList)

/-- A string of white space only, the empty one included. -/
def allBlank (s : String) : Bool := s.toList.all isBlank

end Toolwright.Text
