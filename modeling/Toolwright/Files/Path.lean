import Toolwright.Text.Part

/-!
Paths as texts. A path is taken apart at its slashes into steps: an empty part and a single dot
that does not begin the path are no steps. `fileName?` is the last step when it names an entry,
`join` puts a relative path behind another one.
-/

namespace Toolwright

structure Path where
  text : String
  deriving DecidableEq, Inhabited, Hashable

namespace Path

inductive Step where
  | root
  | here
  | up
  | entry (name : String)
  deriving DecidableEq

def stepOf (part : List Char) : Option Step :=
  if part = [] ∨ part = ['.'] then none
  else if part = ['.', '.'] then some .up
  else some (.entry (String.ofList part))

def isAbsolute (p : Path) : Bool := p.text.toList.head? == some '/'

def steps (p : Path) : List Step :=
  let parts := Text.splitAt (· == '/') p.text.toList
  let first : List Step :=
    if p.isAbsolute then [.root] else if parts.head? = some ['.'] then [.here] else []
  first ++ parts.filterMap stepOf

/-- The entry that a path ends with, if it ends with one. -/
def fileName? (p : Path) : Option String :=
  match p.steps.getLast? with
  | some (.entry name) => some name
  | _ => none

/-- A name without its last dot and what follows it; a name that only begins with a dot has no
such end. -/
def stem (name : String) : String :=
  let before := (name.toList.reverse.dropWhile (· != '.')).drop 1
  if before = [] then name else String.ofList before.reverse

def fileStem? (p : Path) : Option String := p.fileName?.map stem

/-- What a message calls a file: its name, or the whole path when it has none. -/
def displayName (p : Path) : String := p.fileName?.getD p.text

/-- Put a path behind another one; an absolute path stays as it is. -/
def join (p : Path) (more : Path) : Path :=
  if more.isAbsolute then more
  else if p.text.isEmpty || p.text.toList.getLast? == some '/' then ⟨p.text ++ more.text⟩
  else ⟨p.text ++ "/" ++ more.text⟩

def extend (p : Path) (suffix : String) : Path := ⟨p.text ++ suffix⟩

def Step.rank : Step → Nat
  | .root => 0
  | .here => 1
  | .up => 2
  | .entry _ => 3

def Step.le : Step → Step → Bool
  | .entry a, .entry b => !(decide (b < a))
  | a, b => a.rank ≤ b.rank

/-- Order of paths: step by step, a path before its extensions. -/
def stepsLe : List Step → List Step → Bool
  | [], _ => true
  | _ :: _, [] => false
  | a :: as, b :: bs => if a = b then stepsLe as bs else a.le b

def le (p q : Path) : Bool := stepsLe p.steps q.steps

end Path

end Toolwright
