import Toolwright.Description.Basic
import Toolwright.Wrapper.Casing

/-!
Names of the variants of an enumeration. Each value gets the Pascal-case identifier of its text or,
when an earlier value has that one, the identifier with the least number from 2 on that makes it
new.
-/

namespace Toolwright.Wrapper

structure Variant where
  ident : String
  value : String
  deriving DecidableEq, Repr

/-- The numbered form of an identifier; number 1 is the identifier itself. -/
def numbered (base : String) (n : Nat) : String :=
  if n ≤ 1 then base else base ++ toString n

/-- The first of the numbers from `n` on, at most `fuel` of them, whose identifier is not taken. -/
def firstFree (taken : List String) (base : String) : Nat → Nat → String
  | 0, n => numbered base n
  | fuel + 1, n =>
    if taken.contains (numbered base n) then firstFree taken base fuel (n + 1)
    else numbered base n

/-- An identifier that is not taken. One more candidate than there are taken ones suffices. -/
def freshIdent (taken : List String) (base : String) : String :=
  firstFree taken base taken.length 1

/-- Variants of a list of values, given the identifiers taken so far. -/
def variantsFrom (taken : List String) : List String → List Variant
  | [] => []
  | value :: rest =>
    let ident := freshIdent taken (pascalCase value)
    ⟨ident, value⟩ :: variantsFrom (ident :: taken) rest

def variants (enumeration : Enumeration) : List Variant := variantsFrom [] enumeration.values

end Toolwright.Wrapper
