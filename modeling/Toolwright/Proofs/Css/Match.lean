import Toolwright.Css.Match
import Toolwright.Proofs.Html.Spot

/-!
Matching one combinator at a time. `Complex.along` goes through all elements on the way outwards at
once; what it finds at each of them is whether the selector matches there.
-/

namespace Toolwright.Css

open Html (Spot)

theorem allHold_eq_all (s : Spot) (simples : List Simple) :
    allHold s simples = simples.all (Simple.holds s) := by
  induction simples with
  | nil => rfl
  | cons first rest ih => rw [allHold, ih, List.all_cons]

theorem length_someBehind (bs : List Bool) : (someBehind bs).length = bs.length := by
  induction bs with
  | nil => rfl
  | cons b rest ih => rw [someBehind, List.length_cons, List.length_cons, ih]

theorem length_along (way : List Spot) : ∀ c : Complex, (c.along way).length = way.length
  | .compound simples => by rw [Complex.along, List.length_map]
  | .combined left .descendant simples => by
    simp [Complex.along, length_someBehind, length_along way left]
  | .combined left .child simples => by
    simp [Complex.along, length_along way left]
    omega
  | .combined left .nextSibling simples => by rw [Complex.along, List.length_map]
  | .combined left .laterSibling simples => by rw [Complex.along, List.length_map]

theorem along_cons (t : Spot) (rest : List Spot) :
    ∀ c : Complex, c.along (t :: rest) = first (c.along (t :: rest)) :: c.along rest
  | .compound simples => by
    simp [Complex.along, first]
  | .combined left .descendant simples => by
    simp only [Complex.along, List.map_cons]
    rw [along_cons t rest left]
    simp [someBehind, first]
  | .combined left .child simples => by
    have length := length_along rest left
    simp only [Complex.along, List.map_cons]
    rw [along_cons t rest left]
    cases rest with
    | nil =>
      have none : left.along [] = [] := List.length_eq_zero_iff.1 length
      simp [first, none]
    | cons u more =>
      rw [along_cons u more left]
      simp [first]
  | .combined left .nextSibling simples => by
    simp [Complex.along, first]
  | .combined left .laterSibling simples => by
    simp [Complex.along, first]

theorem along_outwards (c : Complex) (s : Spot) : c.along s.outwards = s.outwards.map c.holds := by
  induction s using Spot.inwards with
  | top s outermost =>
    have alone : s.outwards = [s] := by rw [Spot.outwards, Html.ancestors_eq_nil outermost]
    have none : c.along [] = [] := List.length_eq_zero_iff.1 (length_along [] c)
    rw [alone, along_cons, none, ← alone]
    simp [alone, Complex.holds]
  | step s p above ih =>
    have further : s.outwards = s :: p.outwards := by
      rw [Spot.outwards, Html.ancestors_of_above above, Spot.outwards]
    rw [further, along_cons, ih, ← further]
    simp [further, Complex.holds]

theorem holds_compound (s : Spot) (simples : List Simple) :
    (Complex.compound simples).holds s = simples.all (Simple.holds s) := by
  rw [← allHold_eq_all]
  rfl

theorem holds_descendant (s : Spot) (left : Complex) (simples : List Simple) :
    (Complex.combined left .descendant simples).holds s =
      (simples.all (Simple.holds s) && s.ancestors.any left.holds) := by
  have way := along_outwards left s
  rw [Complex.holds, Complex.along, way, ← allHold_eq_all]
  simp [Spot.outwards, someBehind, first, List.any_map]

theorem holds_child (s : Spot) (left : Complex) (simples : List Simple) :
    (Complex.combined left .child simples).holds s =
      (simples.all (Simple.holds s) && s.parent?.any left.holds) := by
  have way := along_outwards left s
  rw [Complex.holds, Complex.along, way, ← allHold_eq_all]
  obtain ⟨e, children, before, after, above⟩ := s
  cases above <;> simp [Spot.outwards, Spot.ancestors, Spot.parent?, Spot.above, first]

end Toolwright.Css
