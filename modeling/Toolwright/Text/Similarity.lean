/-!
How much alike two texts are: the Jaro measure, as a fraction. It counts the characters that both
have at nearby places and those of them that are out of order.
-/

namespace Toolwright.Text

/-- For each character of `a`, in order, the first place not taken yet in `b` that has it and is at
most `range` away. -/
def commonPlaces (range : Nat) (b : List Char) : Nat → List Nat → List Char → List Nat
  | _, _, [] => []
  | i, taken, x :: rest =>
    let near := fun (place : Nat × Char) =>
      place.2 == x && i ≤ place.1 + range && place.1 ≤ i + range && !taken.contains place.1
    match (b.mapIdx fun j y => (j, y)).find? near with
    | some (j, _) => j :: commonPlaces range b (i + 1) (j :: taken) rest
    | none => commonPlaces range b (i + 1) taken rest

/-- The characters at some places, in the order of the places. -/
def pick (places : List Nat) (s : List Char) : List Char :=
  (s.mapIdx fun i x => (i, x)).filterMap fun (i, x) => if places.contains i then some x else none

/-- Numerator and denominator of the likeness of two texts, which is at most 1. -/
def likeness (a b : List Char) : Nat × Nat :=
  if a = [] ∧ b = [] then (1, 1)
  else
    let range := max a.length b.length / 2 - 1
    let inB := commonPlaces range b 0 [] a
    let common := inB.length
    if common = 0 then (0, 1)
    else
      let found := inB.filterMap fun j => b[j]?
      let wrong := ((found.zip (pick inB b)).filter fun (x, y) => x != y).length
      let m := common
      let n := a.length
      let k := b.length
      (m * m * k + m * m * n + (m - wrong / 2) * n * k, 3 * n * k * m)

def exceeds (p q : Nat × Nat) : Bool := q.1 * p.2 < p.1 * q.2

/-- The text most alike to `s` among those more alike than seven tenths; of equals the last one. -/
def mostAlike? (s : List Char) (texts : List String) : Option String :=
  (texts.foldl
    (fun (best : Option String × (Nat × Nat)) t =>
      let p := likeness s t.toList
      if exceeds p (7, 10) && !exceeds best.2 p then (some t, p) else best)
    (none, (7, 10))).1

end Toolwright.Text
