import Mathlib.Data.List.Forall2
import Toolwright.Json.Writer

/-!
Trees that differ in their texts only. No written text has a line feed in it, whatever it says, and
a container is broken into lines by the number of its members; so such trees are written with
equally many line feeds.
-/

namespace Toolwright

/-- One text may be put in the place of another: both say something or none does. -/
def Alike (s t : String) : Prop := s = "" ↔ t = ""

instance (s t : String) : Decidable (Alike s t) := inferInstanceAs (Decidable (_ ↔ _))

namespace Json

mutual

inductive Reworded : Json → Json → Prop
  | null : Reworded .null .null
  | bool (b : Bool) : Reworded (.bool b) (.bool b)
  | number (n : Number) : Reworded (.number n) (.number n)
  | string {s t : String} (alike : Alike s t) : Reworded (.string s) (.string t)
  | array {as bs : List Json} (items : RewordedItems as bs) : Reworded (.array as) (.array bs)
  | object {as bs : List (String × Json)} (members : RewordedMembers as bs) :
      Reworded (.object as) (.object bs)

inductive RewordedItems : List Json → List Json → Prop
  | nil : RewordedItems [] []
  | cons {a b : Json} {as bs : List Json} (first : Reworded a b) (rest : RewordedItems as bs) :
      RewordedItems (a :: as) (b :: bs)

inductive RewordedMembers : List (String × Json) → List (String × Json) → Prop
  | nil : RewordedMembers [] []
  | cons (key : String) {a b : Json} {as bs : List (String × Json)} (first : Reworded a b)
      (rest : RewordedMembers as bs) : RewordedMembers ((key, a) :: as) ((key, b) :: bs)

end

theorem hexDigit_ne_feed {d : Nat} (h : d < 16) : Text.hexDigit d ≠ '\n' := by
  revert d
  decide

theorem feed_notMem_escape (c : Char) : '\n' ∉ escape c := by
  unfold escape
  iterate 7
    split
    · decide
  split
  · rename_i control
    have high := hexDigit_ne_feed (d := c.toNat / 16) (by omega)
    have low := hexDigit_ne_feed (d := c.toNat % 16) (by omega)
    simp [controlEscape, high.symm, low.symm]
  · rename_i feed _ _ _ _ _
    simpa using Ne.symm feed

theorem count_writeString (s : String) : (writeString s).count '\n' = 0 :=
  List.count_eq_zero.2 (by simp [writeString, feed_notMem_escape])

mutual

theorem count_pretty {j k : Json} : Reworded j k → ∀ level,
    (j.pretty level).count '\n' = (k.pretty level).count '\n'
  | .null, _ => rfl
  | .bool _, _ => rfl
  | .number _, _ => rfl
  | .string _, level => by simp only [pretty, count_writeString]
  | .array .nil, _ => rfl
  | .array (.cons first rest), level => by
    have inner := count_prettyItems (.cons first rest) (level + 1)
    simp only [pretty, List.count_cons, List.count_append, inner]
  | .object .nil, _ => rfl
  | .object (.cons key first rest), level => by
    have inner := count_prettyMembers (.cons key first rest) (level + 1)
    simp only [pretty, List.count_cons, List.count_append, inner]

theorem count_prettyItems {as bs : List Json} : RewordedItems as bs → ∀ level,
    (prettyItems level as).count '\n' = (prettyItems level bs).count '\n'
  | .nil, _ => rfl
  | .cons first .nil, level => by
    simp only [prettyItems, List.count_append, count_pretty first level]
  | .cons first (.cons next rest), level => by
    have more := count_prettyItems (.cons next rest) level
    simp only [prettyItems, List.count_append, List.count_cons, count_pretty first level, more]

theorem count_prettyMembers {as bs : List (String × Json)} : RewordedMembers as bs → ∀ level,
    (prettyMembers level as).count '\n' = (prettyMembers level bs).count '\n'
  | .nil, _ => rfl
  | .cons key first .nil, level => by
    simp only [prettyMembers, List.count_append, List.count_cons, count_pretty first level]
  | .cons key first (.cons other next rest), level => by
    have more := count_prettyMembers (.cons other next rest) level
    simp only [prettyMembers, List.count_append, List.count_cons, count_pretty first level, more]

end

theorem Reworded.isZero_eq {j k : Json} (h : Reworded j k) : j.isZero = k.isZero := by
  cases h with
  | null | bool | number => rfl
  | string alike =>
    rw [isZero, isZero, Bool.eq_iff_iff, String.isEmpty_iff, String.isEmpty_iff]
    exact alike
  | array items => cases items <;> rfl
  | object members => cases members <;> rfl

theorem RewordedMembers.append {as bs as' bs' : List (String × Json)} (h : RewordedMembers as bs)
    (h' : RewordedMembers as' bs') : RewordedMembers (as ++ as') (bs ++ bs') := by
  cases h with
  | nil => exact h'
  | cons key first rest => exact .cons key first (rest.append h')

theorem RewordedItems.of_forall₂ {as bs : List Json} (h : List.Forall₂ Reworded as bs) :
    RewordedItems as bs := by
  induction h with
  | nil => exact .nil
  | cons first _ ih => exact .cons first ih

end Json

end Toolwright
