import Toolwright.Description.Canonical
import Toolwright.Failure
import Toolwright.Files.Tree
import Toolwright.Text.Lines

/-!
Writing the canonical text of a description back. As long as the number of lines stays the same the
description itself is replaced; else it is kept, and the text goes to a sibling for review.
-/

namespace Toolwright

namespace Saving

inductive Target where
  | description
  | sibling
  deriving DecidableEq, Repr

structure Outcome where
  target : Target
  path : Path
  /-- False when nothing had to be written or nothing may be. -/
  written : Bool
  oldLines : Nat
  freshLines : Nat
  deriving DecidableEq

/-- The path of the sibling of a description. -/
def siblingPath (file : Path) : Path := file.extend ".new"

def target (old fresh : String) : Target :=
  if Text.lineCount old.toList = Text.lineCount fresh.toList then .description else .sibling

def destination (file : Path) : Target → Path
  | .description => file
  | .sibling => siblingPath file

/-- Write a text for a description, next to it if the number of lines differs. -/
def writeBack (t : Files.Tree) (file : Path) (fresh : String) (dryRun : Bool) :
    Except Failure Outcome × Files.Tree :=
  match t.readText file with
  | .error fault => (.error (.serialize file (.fault fault)), t)
  | .ok old =>
    let target := target old fresh
    let path := destination file target
    let outcome := fun written => Outcome.mk target path written
      (Text.lineCount old.toList) (Text.lineCount fresh.toList)
    if dryRun ∨ (target = .description ∧ old = fresh) then (.ok (outcome false), t)
    else
      match t.writeText path fresh with
      | .error fault => (.error (.serialize path (.fault fault)), t)
      | .ok t => (.ok (outcome true), t)

/-- Write the canonical text of a tool back to its description. -/
def save (t : Files.Tree) (tool : Tool) (dryRun : Bool) : Except Failure Outcome × Files.Tree :=
  writeBack t tool.definitionFile tool.canonicalText dryRun

end Saving

end Toolwright
